import Meliproxy.Envoy.Upstream.ClusterManager

/-!
# The views of the threads follow the primary clusters

What is posted to a thread is a log that leads from its map to the primary clusters. A worker that
has yet to run the closure of `set` will start from whatever the primary clusters are then, so its
log has to lead there from any start, or to say nothing about a cluster that is not there, or to be
about a cluster of the bootstrap.
-/

namespace Meliproxy.Envoy.Upstream

open Lib List Option Function

variable {Host : Type}

namespace Post

def name : Post Host → Option Bytes
  | set => none
  | add info => some info.name
  | membership name _ => some name
  | remove name => some name

def effect : Post Host → Option (ClusterEntry Host) → Option (Option (ClusterEntry Host))
  | set, e => some e
  | add info, _ => some (some (ClusterEntry.fresh info))
  | membership _ hostSet, e => e.map fun entry => some { entry with hostSet := hostSet }
  | remove _, e => e.map fun _ => none

variable (primary : ClusterMap (PrimaryClusterData Host))

/-- The main thread has a cluster for the load balancer of an `OriginalDst` cluster to refer to. -/
def Refers : Post Host → Prop
  | add info => info.originalDst → info.name ∈ primary
  | _ => True

instance (post : Post Host) :
    Decidable (post.Refers primary) := by
  cases post <;> unfold Refers <;> infer_instance

end Post

variable {α : Type}

def ClusterMap.view (clusters : ClusterMap α) (name : Bytes) : Option α :=
  clusters.lookup name

theorem ClusterMap.view_insert (clusters : ClusterMap α) (name : Bytes) (a : α) :
    view (clusters.insert name a) = Function.update clusters.view name (some a) := by
  funext n
  obtain rfl | hne := Decidable.em (n = name)
  · rw [update_self]
    exact AList.lookup_insert clusters
  · rw [update_of_ne hne]
    exact AList.lookup_insert_ne hne

theorem ClusterMap.view_erase (clusters : ClusterMap α) (name : Bytes) :
    view (clusters.erase name) = Function.update clusters.view name none := by
  funext n
  obtain rfl | hne := Decidable.em (n = name)
  · rw [update_self]
    exact AList.lookup_erase n clusters
  · rw [update_of_ne hne]
    exact AList.lookup_erase_ne hne

theorem ClusterMap.view_eq_some {clusters : ClusterMap α} {name : Bytes} {a : α}
    (h : clusters.view name = some a) : name ∈ clusters :=
  AList.lookup_isSome.mp (by rw [show clusters.lookup name = some a from h]; rfl)

section Run

variable {localClusterName : Option Bytes} {primary : ClusterMap (PrimaryClusterData Host)}
  {clusters : ClusterMap (ClusterEntry Host)} {post : Post Host} {name : Bytes}
  {v : Option (ClusterEntry Host)}

theorem Post.run_view (hname : post.name = some name) (hrefers : post.Refers primary)
    (heffect : post.effect (clusters.view name) = some v) :
    ∃ clusters', post.run localClusterName primary (some clusters) = some clusters' ∧
      clusters'.view = Function.update clusters.view name v := by
  cases post with
  | set => cases hname
  | add info =>
    cases hname
    cases heffect
    refine ⟨_, if_neg fun h => h.2 (hrefers h.1), ?_⟩
    exact ClusterMap.view_insert _ _ _
  | membership n hostSet =>
    obtain rfl := Option.some.inj hname
    obtain ⟨entry, hentry, rfl⟩ := map_eq_some_iff.mp heffect
    refine ⟨clusters.insert n { entry with hostSet := hostSet }, ?_, ClusterMap.view_insert _ _ _⟩
    have hlookup : clusters.lookup n = some entry := hentry
    simp [run, updateClusterMembership, hlookup]
  | remove n =>
    obtain rfl := Option.some.inj hname
    obtain ⟨entry, hentry, rfl⟩ := map_eq_some_iff.mp heffect
    refine ⟨clusters.erase n, if_pos (ClusterMap.view_eq_some hentry), ClusterMap.view_erase _ _⟩

theorem localCluster_view (hlocal : ∀ name ∈ localClusterName, name ∈ primary) :
    ∃ clusters, localCluster localClusterName primary = some clusters ∧
      ∀ n, clusters.view n = if localClusterName = some n then
        (primary.view n).map fun data => ClusterEntry.fresh data.info else none := by
  cases localClusterName with
  | none => exact ⟨∅, rfl, fun n => AList.lookup_empty n⟩
  | some name =>
    obtain ⟨data, hdata⟩ := isSome_iff_exists.mp (AList.lookup_isSome.mpr (hlocal name rfl))
    refine ⟨AList.singleton name (ClusterEntry.fresh data.info), ?_, fun n => ?_⟩
    · simp [localCluster, hdata]
    · unfold ClusterMap.view
      rw [← AList.insert_empty]
      split
      · rename_i h
        cases h
        rw [hdata, map_some, AList.lookup_insert]
      · rename_i h
        rw [AList.lookup_insert_ne fun he => h (congrArg some he.symm), AList.lookup_empty]

/-- What the loop over the primary clusters has made when `rest` is left. -/
structure Initial (localClusterName : Option Bytes) (primary : ClusterMap (PrimaryClusterData Host))
    (rest : List ((_ : Bytes) × PrimaryClusterData Host))
    (clusters : ClusterMap (ClusterEntry Host)) : Prop where
  nodup : rest.NodupKeys
  subset : ∀ e ∈ rest, e ∈ primary.entries
  view : ∀ n, clusters.view n = if n ∈ rest.keys ∧ localClusterName ≠ some n then none else
    (primary.view n).map fun data => ClusterEntry.fresh data.info

theorem Initial.addInitialCluster {rest : List ((_ : Bytes) × PrimaryClusterData Host)}
    {cluster : (_ : Bytes) × PrimaryClusterData Host}
    (h : Initial localClusterName primary (cluster :: rest) clusters) :
    ∃ clusters', Upstream.addInitialCluster localClusterName clusters cluster = some clusters' ∧
      Initial localClusterName primary rest clusters' := by
  obtain ⟨hfresh, hrest⟩ := nodupKeys_cons.mp h.nodup
  have hdata : primary.view cluster.1 = some cluster.2 :=
    mem_dlookup primary.nodupKeys (h.subset _ mem_cons_self)
  have hsubset := fun e he => h.subset e (mem_cons_of_mem _ he)
  unfold Upstream.addInitialCluster
  split
  · rename_i hlocal
    refine ⟨clusters, rfl, hrest, hsubset, fun n => ?_⟩
    rw [h.view n, keys_cons]
    obtain rfl | hne := Decidable.em (n = cluster.1)
    · rw [if_neg fun h => h.2 hlocal, if_neg fun h => h.2 hlocal]
    · simp [hne]
  · rename_i hlocal
    have hnone : cluster.1 ∉ clusters := by
      rw [← AList.lookup_eq_none]
      exact (h.view cluster.1).trans (if_pos ⟨mem_cons_self, hlocal⟩)
    rw [if_neg hnone]
    refine ⟨_, rfl, hrest, hsubset, fun n => ?_⟩
    rw [ClusterMap.view_insert]
    obtain rfl | hne := Decidable.em (n = cluster.1)
    · rw [update_self, hdata, map_some, if_neg fun h => hfresh h.1]
    · rw [update_of_ne hne, h.view n, keys_cons]
      simp [hne]

theorem threadLocalClusters_view (hlocal : ∀ name ∈ localClusterName, name ∈ primary) :
    ∃ clusters, threadLocalClusters localClusterName primary = some clusters ∧
      clusters.view = fun n => (primary.view n).map fun data => ClusterEntry.fresh data.info := by
  obtain ⟨start, hstart, hview⟩ := localCluster_view hlocal
  have hinitial : Initial localClusterName primary primary.entries start := by
    refine ⟨primary.nodupKeys, fun _ he => he, fun n => ?_⟩
    rw [hview n]
    cases hn : primary.view n with
    | none => simp
    | some data =>
      have hmem : n ∈ primary.entries.keys := ClusterMap.view_eq_some hn
      by_cases hlocal : localClusterName = some n <;> simp [hlocal, hmem]
  obtain ⟨clusters, hfold, hdone⟩ := foldlM_safe (Initial localClusterName primary)
    (fun _ _ _ h => h.addInitialCluster) hinitial
  refine ⟨clusters, ?_, funext fun n => ?_⟩
  · rw [threadLocalClusters, hstart]
    exact hfold
  · rw [hdone.view n, if_neg fun h => not_mem_nil h.1]

end Run

section Follows

variable (bootstrap : Bytes → Prop) (target : Bytes → Option (ClusterEntry Host))

abbrev replayPosts (n : Bytes) (posts : List (Post Host)) (e : Option (ClusterEntry Host)) :
    Option (Option (ClusterEntry Host)) := replay Post.name Post.effect n posts e

/-- The three ways in which the log of a worker that has no object yet says what the main thread
has under a name. -/
inductive Restarts (posts : List (Post Host)) (n : Bytes) : Prop
  | posted (h : ∀ e, replayPosts n posts e = some (target n))
  | unknown (htarget : target n = none) (h : ∀ e, replayPosts n posts e = some e)
  | bootstrap (hboot : bootstrap n)
      (h : replayPosts n posts ((target n).map fun entry => ClusterEntry.fresh entry.info) =
        some (target n))

inductive Follows : Worker Host → Prop
  | waiting {posts : List (Post Host)} (hset : ∀ post ∈ posts, post.name ≠ none)
      (h : ∀ n, Restarts bootstrap target posts n) : Follows ⟨none, .set :: posts⟩
  | running {clusters : ClusterMap (ClusterEntry Host)} {posts : List (Post Host)}
      (hset : ∀ post ∈ posts, post.name ≠ none)
      (h : Leads Post.name Post.effect posts clusters.view target) : Follows ⟨some clusters, posts⟩

variable {bootstrap target} {posts : List (Post Host)} {post : Post Host} {name n : Bytes}
  {v : Option (ClusterEntry Host)} {worker : Worker Host}

theorem Restarts.of_start (h : Restarts bootstrap target posts n) :
    replayPosts n posts ((target n).map fun entry => ClusterEntry.fresh entry.info) =
      some (target n) := by
  cases h with
  | posted h => exact h _
  | unknown htarget h => rw [h, htarget, map_none]
  | bootstrap _ h => exact h

theorem Post.effect_none (hname : post.name = some name)
    (heffect : post.effect none = some v) (e : Option (ClusterEntry Host)) :
    post.effect e = some v := by
  cases post with
  | set => cases hname
  | add info => exact heffect
  | membership | remove => cases heffect

theorem Restarts.concat (h : ∀ n, Restarts bootstrap target posts n)
    (hname : post.name = some name) (heffect : post.effect (target name) = some v)
    (hboot : bootstrap name → ∃ hostSet, post = .membership name hostSet) :
    ∀ n, Restarts bootstrap (Function.update target name v) (posts ++ [post]) n := by
  intro n
  obtain rfl | hne := Decidable.em (n = name)
  · cases h n with
    | posted h =>
      refine .posted fun e => ?_
      rw [replayPosts, replay_concat hname (h e), heffect, update_self]
    | unknown htarget h =>
      refine .posted fun e => ?_
      rw [htarget] at heffect
      rw [replayPosts, replay_concat hname (h e), update_self]
      exact Post.effect_none hname heffect e
    | bootstrap hb h =>
      refine .bootstrap hb ?_
      obtain ⟨hostSet, rfl⟩ := hboot hb
      obtain ⟨entry, hentry, rfl⟩ := map_eq_some_iff.mp heffect
      rw [hentry] at h
      rw [update_self, map_some, replayPosts]
      exact replay_concat hname h
  · have hother : post.name ≠ some n := fun he =>
      hne (Option.some.inj (he.symm.trans hname))
    cases h n with
    | posted h =>
      refine .posted fun e => ?_
      rw [replayPosts, replay_concat_other hother, update_of_ne hne]
      exact h e
    | unknown htarget h =>
      refine .unknown (by rw [update_of_ne hne, htarget]) fun e => ?_
      rw [replayPosts, replay_concat_other hother]
      exact h e
    | bootstrap hb h =>
      refine .bootstrap hb ?_
      rw [update_of_ne hne, replayPosts, replay_concat_other hother]
      exact h

theorem Follows.concat (h : Follows bootstrap target worker) (hname : post.name = some name)
    (heffect : post.effect (target name) = some v)
    (hboot : bootstrap name → ∃ hostSet, post = .membership name hostSet) :
    Follows bootstrap (Function.update target name v)
      { worker with posts := worker.posts ++ [post] } := by
  have hposts : ∀ {posts : List (Post Host)}, (∀ post ∈ posts, post.name ≠ none) →
      ∀ p ∈ posts ++ [post], p.name ≠ none := by
    intro posts hset p hp
    rcases mem_append.mp hp with hp | hp
    · exact hset p hp
    · rw [mem_singleton.mp hp, hname]
      exact some_ne_none name
  cases h with
  | waiting hset h => exact .waiting (hposts hset) (Restarts.concat h hname heffect hboot)
  | running hset h => exact .running (hposts hset) (h.concat hname heffect)

variable {clusters : Option (ClusterMap (ClusterEntry Host))}

theorem Follows.deliver {localClusterName : Option Bytes}
    {primary : ClusterMap (PrimaryClusterData Host)}
    (h : Follows bootstrap target ⟨clusters, post :: posts⟩)
    (hlocal : ∀ name ∈ localClusterName, name ∈ primary)
    (htarget : target = fun n => (primary.view n).map PrimaryClusterData.entry)
    (hrefers : post.Refers primary) :
    ∃ clusters', post.run localClusterName primary clusters = some clusters' ∧
      Follows bootstrap target ⟨some clusters', posts⟩ := by
  cases h with
  | waiting hset h =>
    obtain ⟨clusters', hrun, hview⟩ := threadLocalClusters_view hlocal
    refine ⟨clusters', hrun, .running hset fun n => ?_⟩
    have hstart := (h n).of_start
    have hn : clusters'.view n = (target n).map fun entry => ClusterEntry.fresh entry.info := by
      rw [hview, htarget, Option.map_map]
      rfl
    rw [hn]
    exact hstart
  | running hset h =>
    obtain ⟨name, hname⟩ := ne_none_iff_exists'.mp (hset post mem_cons_self)
    obtain ⟨v, heffect, hrest⟩ := h.head hname
    obtain ⟨clusters', hrun, hview⟩ := Post.run_view hname hrefers heffect
    refine ⟨clusters', hrun, .running (fun p hp => hset p (mem_cons_of_mem _ hp)) ?_⟩
    rw [hview]
    exact hrest

theorem Follows.idle (h : Follows bootstrap target ⟨clusters, []⟩) : ∃ c, clusters = some c ∧
    c.view = target := by
  cases h with
  | running _ h => exact ⟨_, rfl, funext fun n => h.of_nil n⟩

end Follows

end Meliproxy.Envoy.Upstream
