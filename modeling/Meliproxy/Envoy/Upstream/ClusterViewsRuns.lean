import Meliproxy.Envoy.Upstream.ClusterViews

/-!
# The views converge

Every closure that the main thread posts goes through on its own map at once, and on the map of
each worker when the worker comes to it. The exception is the closure that adds an `OriginalDst`
cluster: on a worker it looks the cluster up in the map of the main thread, which may have removed
it by then.
-/

namespace Meliproxy.Envoy.Upstream

open Lib List Option Function

variable {Host : Type}

namespace ClusterManager

variable {bootstrap : Bytes → Prop} {target : Bytes → Option (ClusterEntry Host)}
  {m m' : ClusterManager Host} {post : Post Host} {name : Bytes} {v : Option (ClusterEntry Host)}

variable (m)

def entry (name : Bytes) : Option (ClusterEntry Host) :=
  (m.primary.view name).map PrimaryClusterData.entry

/-- A worker that has nothing to deliver, and the main thread, have the primary clusters. -/
structure Converged : Prop where
  main : m.main.view = m.entry
  workers : ∀ worker ∈ m.workers, worker.posts = [] →
    ∃ clusters, worker.clusters = some clusters ∧ clusters.view = m.entry

variable {m}

/-- The main thread has `target`, and what is posted leads the workers there. -/
structure Views (bootstrap : Bytes → Prop) (target : Bytes → Option (ClusterEntry Host))
    (m : ClusterManager Host) : Prop where
  main : m.main.view = target
  workers : ∀ worker ∈ m.workers, Follows bootstrap target worker

theorem Views.runOnAllThreads (h : Views bootstrap target m) (hname : post.name = some name)
    (heffect : post.effect (target name) = some v) (hrefers : post.Refers m.primary)
    (hboot : bootstrap name → ∃ hostSet, post = .membership name hostSet) :
    ∃ m', m.runOnAllThreads post = some m' ∧
      Views bootstrap (Function.update target name v) m' ∧ m'.primary = m.primary ∧
      m'.localClusterName = m.localClusterName := by
  have hmain : post.effect (m.main.view name) = some v := by
    rw [h.main]
    exact heffect
  obtain ⟨clusters, hrun, hview⟩ := Post.run_view hname hrefers hmain
  unfold ClusterManager.runOnAllThreads
  rw [hrun, map_some]
  refine ⟨_, rfl, ⟨?_, ?_⟩, rfl, rfl⟩
  · rw [← h.main]
    exact hview
  · intro worker hw
    obtain ⟨before, hbefore, rfl⟩ := List.mem_map.mp hw
    exact (h.workers before hbefore).concat hname heffect hboot

structure Inv (bootstrap : Bytes → Prop) (m : ClusterManager Host) : Prop where
  views : Views bootstrap m.entry m
  api : ∀ name data, m.primary.view name = some data → data.addedViaApi = true → ¬ bootstrap name
  boot : ∀ name, bootstrap name → name ∈ m.primary
  localKept : ∀ name ∈ m.localClusterName, bootstrap name

theorem Inv.local_mem (h : Inv bootstrap m) : ∀ name ∈ m.localClusterName, name ∈ m.primary :=
  fun name hname => h.boot name (h.localKept name hname)

theorem Inv.of_views {d : Option (PrimaryClusterData Host)} (h : Inv bootstrap m)
    (hviews : Views bootstrap (Function.update m.entry name (d.map PrimaryClusterData.entry)) m')
    (hprimary : m'.primary.view = Function.update m.primary.view name d)
    (hlocal : m'.localClusterName = m.localClusterName)
    (hboot : bootstrap name → ∃ data, d = some data ∧ data.addedViaApi = false) :
    Inv bootstrap m' := by
  have hself : m'.primary.view name = d := by rw [hprimary, update_self]
  have hother : ∀ n, n ≠ name → m'.primary.view n = m.primary.view n := fun n hne => by
    rw [hprimary, update_of_ne hne]
  have hentry : m'.entry = Function.update m.entry name (d.map PrimaryClusterData.entry) := by
    funext n
    obtain rfl | hne := Decidable.em (n = name)
    · rw [update_self, entry, hself]
    · rw [update_of_ne hne, entry, hother n hne, entry]
  refine ⟨hentry ▸ hviews, fun n data hdata hapi hn => ?_, fun n hn => ?_, hlocal ▸ h.localKept⟩
  · obtain rfl | hne := Decidable.em (n = name)
    · obtain ⟨data', rfl, hfalse⟩ := hboot hn
      cases hself.symm.trans hdata
      rw [hapi] at hfalse
      cases hfalse
    · exact h.api n data (hother n hne ▸ hdata) hapi hn
  · obtain rfl | hne := Decidable.em (n = name)
    · obtain ⟨data, rfl, -⟩ := hboot hn
      exact ClusterMap.view_eq_some hself
    · rw [← AList.lookup_isSome, show m'.primary.lookup n = m.primary.lookup n from hother n hne]
      exact AList.lookup_isSome.mpr (h.boot n hn)

theorem Views.postThreadLocalClusterUpdate {entry : ClusterEntry Host}
    (h : Views bootstrap target m) (hentry : target name = some entry)
    (data : PrimaryClusterData Host) : ∃ m', m.postThreadLocalClusterUpdate name data = some m' ∧
      Views bootstrap
        (Function.update target name (some { entry with hostSet := data.members.hostSet })) m' ∧
      m'.primary = m.primary ∧ m'.localClusterName = m.localClusterName := by
  refine h.runOnAllThreads rfl ?_ trivial fun _ => ⟨_, rfl⟩
  simp [Post.effect, hentry]

theorem Views.postInitializeCluster (h : Views bootstrap target m) (data : PrimaryClusterData Host)
    (hentry : target name = some (ClusterEntry.fresh data.info)) :
    ∃ m', m.postInitializeCluster name data = some m' ∧
      Views bootstrap (Function.update target name (some data.entry)) m' ∧
      m'.primary = m.primary ∧ m'.localClusterName = m.localClusterName := by
  unfold ClusterManager.postInitializeCluster
  split
  · rename_i hnil
    have hfresh : ClusterEntry.fresh data.info = data.entry := by
      unfold ClusterEntry.fresh PrimaryClusterData.entry
      rw [data.members.of_nil hnil]
    rw [← hfresh, ← hentry, update_eq_self]
    exact ⟨m, rfl, h, rfl, rfl⟩
  · exact h.postThreadLocalClusterUpdate hentry data

section

variable (h : Inv bootstrap m)
include h

theorem Inv.updateHosts (name : Bytes) (members : Members Host) :
    ∃ m', m.updateHosts name members = some m' ∧ Inv bootstrap m' := by
  unfold ClusterManager.updateHosts
  split
  · exact ⟨m, rfl, h⟩
  · rename_i existing hexisting
    have hview : m.primary.view name = some existing := hexisting
    have hentry : m.entry name = some existing.entry := by
      rw [entry, hview, map_some]
    obtain ⟨m', hm', hviews, hprimary, hlocal⟩ :=
      Views.postThreadLocalClusterUpdate (m := { m with
        primary := m.primary.insert name { existing with members := members } })
        ⟨h.views.main, h.views.workers⟩ hentry { existing with members := members }
    refine ⟨m', hm', h.of_views (d := some { existing with members := members }) hviews ?_ hlocal
      fun hboot => ⟨_, rfl, ?_⟩⟩
    · rw [hprimary]
      exact ClusterMap.view_insert _ _ _
    · exact Bool.eq_false_iff.mpr fun hapi => h.api name existing hview hapi hboot

theorem Inv.removePrimaryCluster (name : Bytes) :
    ∃ m', m.removePrimaryCluster name = some m' ∧ Inv bootstrap m' := by
  unfold ClusterManager.removePrimaryCluster
  split
  · exact ⟨m, rfl, h⟩
  · rename_i existing hexisting
    have hview : m.primary.view name = some existing := hexisting
    split
    · rename_i hapi
      have hboot := h.api name existing hview hapi
      have heffect : (Post.remove name).effect (m.entry name) = some none := by
        rw [entry, hview]
        rfl
      obtain ⟨m', hm', hviews, hprimary, hlocal⟩ :=
        Views.runOnAllThreads (m := { m with primary := m.primary.erase name })
          ⟨h.views.main, h.views.workers⟩ rfl heffect trivial fun hb => absurd hb hboot
      refine ⟨m', hm', h.of_views (d := none) hviews ?_ hlocal fun hb => absurd hb hboot⟩
      rw [hprimary]
      exact ClusterMap.view_erase _ _
    · exact ⟨m, rfl, h⟩

theorem Inv.not_boot {config : ClusterConfig}
    (hkeep : m.keepsExisting config = false) : ¬ bootstrap config.name := by
  intro hboot
  obtain ⟨existing, hexisting⟩ := isSome_iff_exists.mp
    (AList.lookup_isSome.mpr (h.boot config.name hboot))
  cases hapi : existing.addedViaApi with
  | true => exact h.api config.name existing hexisting hapi hboot
  | false =>
    unfold keepsExisting at hkeep
    rw [hexisting, any_some, hapi] at hkeep
    cases hkeep

theorem Inv.addOrUpdatePrimaryCluster (config : ClusterConfig)
    (loaded : Option (Loaded Host)) :
    ∃ m', m.addOrUpdatePrimaryCluster config loaded = some m' ∧ Inv bootstrap m' := by
  unfold ClusterManager.addOrUpdatePrimaryCluster
  split
  · exact ⟨m, rfl, h⟩
  · rename_i hkeep
    have hboot := h.not_boot (Bool.eq_false_iff.mpr hkeep)
    cases loaded with
    | none => exact ⟨m, rfl, h⟩
    | some loaded =>
      let data := loadedData config true loaded
      have hload : (m.loadCluster config true loaded).primary.view =
          Function.update m.primary.view config.name (some data) := by
        unfold ClusterManager.loadCluster
        rw [ClusterMap.view_insert, ClusterMap.view_erase, update_idem]
      have hlookup : (m.loadCluster config true loaded).primary.lookup config.name = some data := by
        have := congrFun hload config.name
        rw [update_self] at this
        exact this
      have hname : (Post.add data.info : Post Host).name = some config.name := rfl
      obtain ⟨m₁, hm₁, hviews₁, hprimary₁, hlocal₁⟩ :=
        Views.runOnAllThreads (m := m.loadCluster config true loaded)
          ⟨h.views.main, h.views.workers⟩ hname rfl (fun _ => ClusterMap.view_eq_some hlookup)
          fun hb => absurd hb hboot
      obtain ⟨m', hm', hviews, hprimary, hlocal⟩ :=
        hviews₁.postInitializeCluster data (update_self config.name ..)
      rw [update_idem] at hviews
      refine ⟨m', ?_, h.of_views (d := some data) hviews ?_ (hlocal.trans hlocal₁)
        fun hb => absurd hb hboot⟩
      · simp [hlookup, hm₁, hm']
      · rw [hprimary, hprimary₁, hload]

end

def Finds (m : ClusterManager Host) : Event Host → Prop
  | .deliver i => ∀ worker ∈ m.workers[i]?, ∀ post ∈ worker.posts.head?, post.Refers m.primary
  | _ => True

instance : (m : ClusterManager Host) → (event : Event Host) → Decidable (Finds m event)
  | m, .deliver i => inferInstanceAs
    (Decidable (∀ worker ∈ m.workers[i]?, ∀ post ∈ worker.posts.head?, post.Refers m.primary))
  | _, .addOrUpdate _ _ | _, .remove _ | _, .updateHosts _ _ => isTrue trivial

theorem Inv.deliver (h : Inv bootstrap m) (i : Nat) (hfinds : Finds m (.deliver i)) :
    ∃ m', m.deliver i = some m' ∧ Inv bootstrap m' := by
  unfold ClusterManager.deliver
  split
  · rename_i clusters post posts hworker
    have hfollows := h.views.workers _ (mem_of_getElem? hworker)
    obtain ⟨clusters', hrun, hnext⟩ := hfollows.deliver h.local_mem rfl
      (hfinds _ hworker post rfl)
    rw [hrun, map_some]
    refine ⟨_, rfl, ⟨h.views.main, fun worker hw => ?_⟩, h.api, h.boot, h.localKept⟩
    rcases mem_or_eq_of_mem_set hw with hw | rfl
    · exact h.views.workers worker hw
    · exact hnext
  · exact ⟨m, rfl, h⟩

/-- A worker that has an `OriginalDst` cluster to add and does not find it throws. -/
theorem deliver_lost {i : Nat} (h : ¬ Finds m (.deliver i)) : m.deliver i = none := by
  simp only [Finds, not_forall] at h
  obtain ⟨worker, hworker, post, hpost, hrefers⟩ := h
  obtain ⟨clusters, posts⟩ := worker
  cases posts with
  | nil => cases hpost
  | cons p posts =>
    obtain rfl := Option.some.inj hpost
    cases p with
    | add info =>
      simp only [Post.Refers, Classical.not_imp] at hrefers
      unfold ClusterManager.deliver
      rw [show m.workers[i]? = some ⟨clusters, .add info :: posts⟩ from hworker]
      cases clusters with
      | none => rfl
      | some clusters => simp [Post.run, Post.addCluster, hrefers]
    | set | membership | remove => exact absurd trivial hrefers

theorem Inv.step (h : Inv bootstrap m) (event : Event Host) (hfinds : Finds m event) :
    ∃ m', ClusterManager.step m event = some m' ∧ Inv bootstrap m' := by
  cases event with
  | addOrUpdate config loaded => exact h.addOrUpdatePrimaryCluster config loaded
  | remove name => exact h.removePrimaryCluster name
  | updateHosts name members => exact h.updateHosts name members
  | deliver i => exact h.deliver i hfinds

theorem Inv.converged (h : Inv bootstrap m) : m.Converged := by
  refine ⟨h.views.main, fun worker hw hposts => ?_⟩
  obtain ⟨clusters, posts⟩ := worker
  obtain rfl := hposts
  exact (h.views.workers _ hw).idle

theorem loadStatic_boot {statics : List (ClusterConfig × Loaded Host)}
    {primary : ClusterMap (PrimaryClusterData Host)} (h : loadStatic statics = some primary) :
    ∀ name data, primary.view name = some data → data.addedViaApi = false := by
  have hfold : ∀ (statics : List (ClusterConfig × Loaded Host))
      (start : ClusterMap (PrimaryClusterData Host)),
      (∀ name data, start.view name = some data → data.addedViaApi = false) →
      statics.foldlM (fun primary static =>
        if static.1.name ∈ primary then none
        else some (primary.insert static.1.name (loadedData static.1 false static.2))) start =
          some primary →
      ∀ name data, primary.view name = some data → data.addedViaApi = false := by
    intro statics
    induction statics with
    | nil =>
      intro start hstart heq
      cases heq
      exact hstart
    | cons static statics ih =>
      intro start hstart heq
      rw [foldlM_cons] at heq
      obtain ⟨next, hnext, hrest⟩ := bind_eq_some_iff.mp heq
      split at hnext
      · cases hnext
      · cases hnext
        refine ih _ (fun name data hdata => ?_) hrest
        rw [ClusterMap.view_insert] at hdata
        obtain rfl | hne := Decidable.em (name = static.1.name)
        · rw [update_self] at hdata
          cases hdata
          rfl
        · rw [update_of_ne hne] at hdata
          exact hstart name data hdata
  refine hfold statics ∅ (fun name data hdata => ?_) h
  cases (AList.lookup_empty name).symm.trans hdata

section Construct

variable {primary : ClusterMap (PrimaryClusterData Host)}
  {rest : List ((_ : Bytes) × PrimaryClusterData Host)}

/-- The threads have the clusters of `rest` without hosts, and the others with theirs. -/
def partlyPosted (primary : ClusterMap (PrimaryClusterData Host))
    (rest : List ((_ : Bytes) × PrimaryClusterData Host)) (n : Bytes) :
    Option (ClusterEntry Host) :=
  if n ∈ rest.keys then (primary.view n).map fun data => ClusterEntry.fresh data.info
  else (primary.view n).map PrimaryClusterData.entry

structure Posting (localClusterName : Option Bytes) (primary : ClusterMap (PrimaryClusterData Host))
    (rest : List ((_ : Bytes) × PrimaryClusterData Host)) (m : ClusterManager Host) : Prop where
  primary_eq : m.primary = primary
  local_eq : m.localClusterName = localClusterName
  nodup : rest.NodupKeys
  subset : ∀ e ∈ rest, e ∈ primary.entries
  views : Views (· ∈ primary) (partlyPosted primary rest) m

variable {localClusterName : Option Bytes}

theorem Posting.postInitializeCluster {cluster : (_ : Bytes) × PrimaryClusterData Host}
    (h : Posting localClusterName primary (cluster :: rest) m) :
    ∃ m', m.postInitializeCluster cluster.1 cluster.2 = some m' ∧
      Posting localClusterName primary rest m' := by
  obtain ⟨hfresh, hrest⟩ := nodupKeys_cons.mp h.nodup
  have hdata : primary.view cluster.1 = some cluster.2 :=
    mem_dlookup primary.nodupKeys (h.subset _ mem_cons_self)
  have hpartly : partlyPosted primary (cluster :: rest) cluster.1 =
      some (ClusterEntry.fresh cluster.2.info) := by
    have hmem : cluster.1 ∈ (cluster :: rest).keys := mem_cons_self
    rw [partlyPosted, if_pos hmem, hdata, map_some]
  obtain ⟨m', hm', hviews, hprimary, hlocal⟩ := h.views.postInitializeCluster cluster.2 hpartly
  refine ⟨m', hm', hprimary.trans h.primary_eq, hlocal.trans h.local_eq, hrest,
    fun e he => h.subset e (mem_cons_of_mem _ he), ?_⟩
  have hnext : Function.update (partlyPosted primary (cluster :: rest)) cluster.1
      (some cluster.2.entry) = partlyPosted primary rest := by
    funext n
    obtain rfl | hne := Decidable.em (n = cluster.1)
    · rw [update_self, partlyPosted, if_neg hfresh, hdata, map_some]
    · rw [update_of_ne hne]
      simp [partlyPosted, hne]
  exact hnext ▸ hviews

theorem follows_registered (primary : ClusterMap (PrimaryClusterData Host)) : Follows (· ∈ primary)
      (fun n => (primary.view n).map fun data => ClusterEntry.fresh data.info)
      (⟨none, [.set]⟩ : Worker Host) := by
  refine .waiting (fun _ hp => absurd hp not_mem_nil) fun n => ?_
  cases hn : primary.view n with
  | none => exact .unknown (by rw [hn, map_none]) fun _ => rfl
  | some data =>
    refine .bootstrap (ClusterMap.view_eq_some hn) ?_
    rw [hn, map_some, map_some]
    rfl

theorem partlyPosted_entries (primary : ClusterMap (PrimaryClusterData Host)) :
    partlyPosted primary primary.entries =
      fun n => (primary.view n).map fun data => ClusterEntry.fresh data.info := by
  funext n
  unfold partlyPosted
  split
  · rfl
  · rename_i hn
    rw [show primary.view n = none from AList.lookup_eq_none.mpr hn, map_none, map_none]

theorem threadLocalClusters_local {clusters : ClusterMap (ClusterEntry Host)}
    (h : threadLocalClusters localClusterName primary = some clusters) :
    ∀ name ∈ localClusterName, name ∈ primary := by
  rintro name rfl
  obtain ⟨start, hstart, -⟩ := bind_eq_some_iff.mp h
  obtain ⟨data, hdata, -⟩ := map_eq_some_iff.mp hstart
  exact ClusterMap.view_eq_some hdata

theorem construct_inv {threads : Nat} {statics : List (ClusterConfig × Loaded Host)}
    (h : construct threads localClusterName statics = some m) : ∃ bootstrap, Inv bootstrap m := by
  unfold construct at h
  obtain ⟨primary, hstatic, h⟩ := bind_eq_some_iff.mp h
  obtain ⟨clusters, hclusters, h⟩ := bind_eq_some_iff.mp h
  have hlocal := threadLocalClusters_local hclusters
  obtain ⟨clusters', hclusters', hview⟩ := threadLocalClusters_view hlocal
  cases hclusters.symm.trans hclusters'
  have hposting : Posting localClusterName primary primary.entries
      ⟨localClusterName, primary, clusters, List.replicate threads ⟨none, [.set]⟩⟩ := by
    refine ⟨rfl, rfl, primary.nodupKeys, fun _ he => he, ?_⟩
    rw [partlyPosted_entries]
    refine ⟨hview, fun worker hw => ?_⟩
    rw [eq_of_mem_replicate hw]
    exact follows_registered primary
  obtain ⟨m', hm', hdone⟩ := foldlM_safe (Posting localClusterName primary)
    (fun _ _ _ h => h.postInitializeCluster) hposting
  cases h.symm.trans hm'
  have hprimary := hdone.primary_eq
  refine ⟨(· ∈ primary), ⟨?_, fun name data hdata hapi _ => ?_, fun name hname => ?_, ?_⟩⟩
  · have hentry : m.entry = partlyPosted primary [] := by
      funext n
      rw [entry, hprimary]
      rfl
    rw [hentry]
    exact hdone.views
  · rw [hprimary] at hdata
    rw [loadStatic_boot hstatic name data hdata] at hapi
    cases hapi
  · rw [hprimary]
    exact hname
  · rw [hdone.local_eq]
    exact hlocal

end Construct

variable {statics : List (ClusterConfig × Loaded Host)}

variable {localClusterName : Option Bytes}

/-- The views of the threads converge to the primary clusters, as long as no worker adds an
`OriginalDst` cluster that the main thread has removed. -/
theorem views_converge {threads : Nat} {events : List (Event Host)}
    (h : construct threads localClusterName statics = some m) (hfinds : AllMeet step Finds m events) :
    ∃ m', run step m events = some m' ∧ m'.Converged := by
  obtain ⟨bootstrap, hinv⟩ := construct_inv h
  obtain ⟨m', hrun, hinv'⟩ := run_safe (fun _ event h hfinds => Inv.step h event hfinds) hinv hfinds
  exact ⟨m', hrun, hinv'.converged⟩

/-! A cluster of the bootstrap, one that is updated with hosts and removed, and a worker in
between. -/

def bootstrapCluster : ClusterConfig × Loaded Nat :=
  (⟨ascii "static", 1⟩, ⟨1, false, .primary, .ofHosts (fun _ => true) [1]⟩)

def updateEvents : List (Event Nat) :=
  [.addOrUpdate ⟨ascii "api", 2⟩ (some ⟨2, false, .secondary, .ofHosts (fun _ => true) [2, 3]⟩), .deliver 0,
    .updateHosts (ascii "static") (.ofHosts (fun host => host = 4) [1, 4]), .deliver 0,
    .addOrUpdate ⟨ascii "api", 3⟩ (some ⟨3, true, .primary, .empty⟩), .deliver 0, .deliver 0, .deliver 0,
    .deliver 0, .remove (ascii "api"), .deliver 0, .deliver 0]

theorem updateEvents_converged : ∃ m m' : ClusterManager Nat,
      construct 1 (some (ascii "static")) [bootstrapCluster] = some m ∧
        run step m updateEvents = some m' ∧ m'.Converged := by
  obtain ⟨m, hm⟩ := isSome_iff_exists.mp
    (by decide +kernel : (construct 1 (some (ascii "static")) [bootstrapCluster]).isSome)
  have hfinds : ∀ m ∈ construct 1 (some (ascii "static")) [bootstrapCluster],
      AllMeet step Finds m updateEvents := by
    decide +kernel
  obtain ⟨m', hrun, hconverged⟩ := views_converge hm (hfinds m hm)
  exact ⟨m, m', hm, hrun, hconverged⟩

/-- An `OriginalDst` cluster is added and removed before the worker starts. -/
def removedEvents : List (Event Nat) :=
  [.addOrUpdate ⟨ascii "original", 1⟩ (some ⟨1, true, .primary, .empty⟩), .remove (ascii "original"),
    .deliver 0, .deliver 0]

theorem removedEvents_not_converged : ¬ ∀ m : ClusterManager Nat, construct 1 none [] = some m →
      ∃ m', run step m removedEvents = some m' ∧ m'.Converged := by
  intro h
  obtain ⟨m, hm⟩ := isSome_iff_exists.mp
    (by decide +kernel : (construct 1 none ([] : List (ClusterConfig × Loaded Nat))).isSome)
  obtain ⟨m', hrun, -⟩ := h m hm
  have hlost : ∀ m ∈ construct 1 none ([] : List (ClusterConfig × Loaded Nat)),
      (run step m removedEvents).isNone = true := by
    decide +kernel
  have := hlost m hm
  rw [hrun] at this
  cases this

/-- A run goes through if and only if no worker adds a cluster that it does not find. -/
theorem run_isSome_iff {threads : Nat} (h : construct threads localClusterName statics = some m)
    (events : List (Event Host)) :
    (run step m events).isSome ↔ AllMeet step Finds m events := by
  obtain ⟨bootstrap, hinv⟩ := construct_inv h
  constructor
  · intro hsome
    by_contra hlost
    obtain ⟨before, event, after, m', rfl, -, hrun, -, hunmet⟩ := first_unmet
      (keeps_of_safe fun _ event h => Inv.step h event) hinv hlost
    cases event with
    | deliver i =>
      have hlost : step m' (.deliver i) = none := deliver_lost hunmet
      rw [run_append, hrun, bind_some, run, hlost] at hsome
      cases hsome
    | _ => exact hunmet trivial
  · intro hfinds
    obtain ⟨m', hrun, -⟩ := run_safe (fun _ event h hfinds => Inv.step h event hfinds) hinv hfinds
    rw [hrun]
    rfl

theorem run_isSome_iff_removed : ∃ m : ClusterManager Nat, construct 1 none [] = some m ∧
    ((run step m removedEvents).isSome ↔ AllMeet step Finds m removedEvents) := by
  obtain ⟨m, hm⟩ := isSome_iff_exists.mp
    (by decide +kernel : (construct 1 none ([] : List (ClusterConfig × Loaded Nat))).isSome)
  exact ⟨m, hm, run_isSome_iff hm removedEvents⟩

end ClusterManager

end Meliproxy.Envoy.Upstream
