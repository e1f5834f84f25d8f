import Meliproxy.Envoy.Upstream.InitHelper

/-!
# What the lists of the init helper hold

A secondary cluster that is listed has been called iff the loop was started, except behind the
iterator of a loop that is under way. Only the call on top of the stack can have such an iterator,
since while a cluster is left the helper makes no other call.
-/

namespace Meliproxy.Envoy.Upstream

open Lib List

namespace InitRun

variable {r r' : InitRun} {cluster : InitCluster} {event : Event}

def iter (r : InitRun) : Option InitCluster := r.stack.head?.bind Frame.iter

/-- The ways in which `maybeFinishInitialize` ends or comes to a call. -/
inductive Finish (r : InitRun) : InitRun → Prop
  | waiting (hstate : r.state ≠ .allClustersInitialized)
      (h : r.state = .loading ∨ r.state = .waitingForCdsInitialize ∨ r.primaryInitClusters ≠ [] ∨
        (r.secondaryInitClusters ≠ [] ∧ r.startedSecondaryInitialize = true)) : Finish r r
  | looping {cluster : InitCluster} {rest : List InitCluster}
      (hstate : r.state = .waitingForStaticInitialize ∨ r.state = .cdsInitialized)
      (hprimary : r.primaryInitClusters = []) (hsecondary : r.secondaryInitClusters = cluster :: rest)
      (hstarted : r.startedSecondaryInitialize = false) :
      Finish r <| { r with startedSecondaryInitialize := true }.callInitialize cluster
        (.looping cluster rest.head?)
  | finishing (hstate : r.state = .waitingForStaticInitialize ∨ r.state = .cdsInitialized)
      (hprimary : r.primaryInitClusters = []) (hsecondary : r.secondaryInitClusters = []) :
      Finish r { r with startedSecondaryInitialize := false }.finishPhase

theorem finish_finishClusters
    (hstate : r.state = .waitingForStaticInitialize ∨ r.state = .cdsInitialized) :
    Finish r r.finishClusters := by
  have hall : r.state ≠ .allClustersInitialized := by
    rcases hstate with hs | hs <;> rw [hs] <;> decide
  unfold finishClusters
  split
  · rename_i hprimary
    exact .waiting hall (.inr (.inr (.inl hprimary)))
  · rename_i hprimary
    rw [not_not] at hprimary
    split
    · rename_i cluster rest hsecondary
      split
      · rename_i hstarted
        exact .waiting hall (.inr (.inr (.inr ⟨by rw [hsecondary]; simp, hstarted⟩)))
      · rename_i hstarted
        exact .looping hstate hprimary hsecondary (Bool.eq_false_iff.mpr hstarted)
    · rename_i hsecondary
      exact .finishing hstate hprimary hsecondary

theorem finish_of_maybeFinishInitialize (h : r.maybeFinishInitialize = some r') : Finish r r' := by
  unfold maybeFinishInitialize at h
  split at h
  · rename_i hstate
    cases h
    exact .waiting (by rw [hstate]; decide) (.inl hstate)
  · rename_i hstate
    cases h
    exact .waiting (by rw [hstate]; decide) (.inr (.inl hstate))
  · cases h
  · rename_i hstate
    cases h
    exact finish_finishClusters (.inl hstate)
  · rename_i hstate
    cases h
    exact finish_finishClusters (.inr hstate)

theorem finishPhase_cases (r : InitRun) : ((r.state = .waitingForStaticInitialize ∧ r.cds = true) ∧
      r.finishPhase = { r with
        state := .waitingForCdsInitialize, cdsStarts := r.cdsStarts + 1,
        stack := .cds :: r.stack }) ∨
    (r.initializedCallback = none ∧ r.finishPhase = { r with state := .allClustersInitialized }) ∨
    ∃ callback, r.initializedCallback = some callback ∧
      r.finishPhase = { r with
        state := .allClustersInitialized, ran := r.ran ++ [callback],
        stack := .callback :: r.stack } := by
  unfold finishPhase
  split
  · rename_i h
    exact .inl ⟨h, rfl⟩
  · unfold runCallback
    split
    · rename_i hnone
      exact .inr (.inl ⟨hnone, rfl⟩)
    · rename_i callback hsome
      exact .inr (.inr ⟨callback, hsome, rfl⟩)

theorem returned_same (h : r.returned = some r') :
    r'.toInitHelper = r.toInitHelper ∧ r'.tracked = r.tracked ∧ r'.callbacks = r.callbacks ∧
      r'.ran = r.ran := by
  unfold InitRun.returned at h
  split at h
  · cases h
  · dsimp only at h
    split at h
    · cases h
      exact ⟨rfl, rfl, rfl, rfl⟩
    · split at h
      · cases h
        exact ⟨rfl, rfl, rfl, rfl⟩
      · cases h
    · cases h
      exact ⟨rfl, rfl, rfl, rfl⟩

/-- What an event can do. -/
inductive Steps (r : InitRun) : Event → InitRun → Prop
  | addCluster {cluster : InitCluster} (hallowed : r.allowed (.addCluster cluster))
      (hnew : cluster ∉ r.tracked ++ r.late) :
      Steps r (.addCluster cluster) ((r.recordAdded cluster).addCluster cluster)
  | removeCluster {cluster : InitCluster} {r' : InitRun}
      (hallowed : r.allowed (.removeCluster cluster)) (hknown : cluster ∈ r.tracked ++ r.late)
      (h : { r with removed := cluster :: r.removed }.removeCluster cluster = some r') :
      Steps r (.removeCluster cluster) r'
  | clusterInitialized {cluster : InitCluster} {r' : InitRun}
      (hallowed : r.allowed (.clusterInitialized cluster))
      (h : { r with finished := cluster :: r.finished }.removeCluster cluster = some r') :
      Steps r (.clusterInitialized cluster) r'
  | onStaticLoadComplete {r' : InitRun} (hstate : r.state = .loading)
      (h : { r with state := .waitingForStaticInitialize }.maybeFinishInitialize = some r') :
      Steps r .onStaticLoadComplete r'
  | cdsInitialized {r' : InitRun} (hstate : r.state = .waitingForCdsInitialize)
      (h : { r with state := .cdsInitialized }.maybeFinishInitialize = some r') :
      Steps r .cdsInitialized r'
  | setInitializedCb {callback : Nat} (hallowed : r.allowed (.setInitializedCb callback))
      (hnew : callback ∉ r.callbacks) :
      Steps r (.setInitializedCb callback)
        (InitRun.setInitializedCb { r with callbacks := r.callbacks ++ [callback] } callback)
  | returned {r' : InitRun} (h : r.returned = some r') : Steps r .returned r'

theorem steps_of_step (hstep : r.step event = some r') : Steps r event r' := by
  simp only [InitRun.step] at hstep
  split at hstep
  · cases hstep
  · rename_i hallowed
    rw [not_not] at hallowed
    split at hstep
    · split at hstep
      · cases hstep
      · rename_i hnew
        cases hstep
        exact .addCluster hallowed hnew
    · split at hstep
      · rename_i hknown
        exact .removeCluster hallowed hknown hstep
      · cases hstep
    · split at hstep
      · exact .clusterInitialized hallowed hstep
      · cases hstep
    · unfold InitRun.onStaticLoadComplete at hstep
      split at hstep
      · rename_i hstate
        exact .onStaticLoadComplete hstate hstep
      · cases hstep
    · unfold InitRun.cdsInitialized at hstep
      split at hstep
      · rename_i hstate
        exact .cdsInitialized hstate hstep
      · cases hstep
    · split at hstep
      · cases hstep
      · rename_i hnew
        cases hstep
        exact .setInitializedCb hallowed hnew
    · exact .returned hstep

structure Lists (r : InitRun) : Prop where
  nodup : r.secondaryInitClusters.Nodup
  tracked : ∀ c ∈ r.secondaryInitClusters, c ∈ r.tracked
  known : ∀ c ∈ r.initialized, c ∈ r.tracked ++ r.late
  once : r.initialized.Nodup
  ahead : ∀ n, r.iter = some n → r.startedSecondaryInitialize = true ∧ ∃ done rest,
    r.secondaryInitClusters = done ++ n :: rest ∧ (∀ c ∈ done, c ∈ r.initialized) ∧
      ∀ c ∈ n :: rest, c ∉ r.initialized
  even : r.iter = none → ∀ c ∈ r.secondaryInitClusters,
    (c ∈ r.initialized ↔ r.startedSecondaryInitialize = true)
  below : ∀ frame ∈ r.stack.tail, frame.iter = none
  own : ∀ c n, r.stack.head? = some (.looping c (some n)) → c ∈ r.initialized

theorem lists_start (cds : Bool) : (start cds).Lists where
  nodup := nodup_nil
  tracked := fun _ h => absurd h not_mem_nil
  known := fun _ h => absurd h not_mem_nil
  once := nodup_nil
  ahead := fun _ h => by cases h
  even := fun _ _ h => absurd h not_mem_nil
  below := fun _ h => absurd h not_mem_nil
  own := fun _ _ h => by cases h

theorem Lists.iter_none (h : r.Lists) (hnot : r.secondaryInitClusters = [] ∨
    r.startedSecondaryInitialize = false) : r.iter = none := by
  cases hiter : r.iter with
  | none => rfl
  | some n =>
    obtain ⟨hstarted, done, rest, hsecondary, -⟩ := h.ahead n hiter
    rcases hnot with hnil | hnot
    · rw [hnil] at hsecondary
      cases done <;> cases hsecondary
    · rw [hnot] at hstarted
      cases hstarted

theorem Lists.stack_iter (h : r.Lists) (hiter : r.iter = none) :
    ∀ frame ∈ r.stack, frame.iter = none := by
  intro frame hframe
  have hbelow := h.below
  unfold iter at hiter
  cases hstack : r.stack with
  | nil =>
    rw [hstack] at hframe
    cases hframe
  | cons top stack =>
    rw [hstack] at hframe hiter hbelow
    rcases mem_cons.mp hframe with rfl | hframe
    · exact hiter
    · exact hbelow frame hframe

theorem nodup_concat {α : Type} {l : List α} {a : α} (h : l.Nodup) (ha : a ∉ l) :
    (l ++ [a]).Nodup := by
  refine List.nodup_append.mpr ⟨h, nodup_cons.mpr ⟨not_mem_nil, nodup_nil⟩,
    fun b hb c hc => ?_⟩
  rw [mem_singleton.mp hc]
  exact fun he => ha (he ▸ hb)

theorem Lists.maybeFinishInitialize (h : r.Lists) (hfinish : r.maybeFinishInitialize = some r') :
    r'.Lists := by
  cases finish_of_maybeFinishInitialize hfinish with
  | waiting => exact h
  | @looping cluster rest hstate hprimary hsecondary hstarted =>
    have hiter := h.iter_none (.inr hstarted)
    have hnodup := h.nodup
    rw [hsecondary] at hnodup
    obtain ⟨hfresh, hrest⟩ := nodup_cons.mp hnodup
    have hnew : ∀ c ∈ cluster :: rest, c ∉ r.initialized := by
      intro c hc hinit
      have := (h.even hiter c (hsecondary ▸ hc)).mp hinit
      rw [hstarted] at this
      cases this
    refine ⟨h.nodup, h.tracked, fun c hc => ?_, ?_, fun n hn => ⟨rfl, ?_⟩, fun hn c hc => ?_,
      h.stack_iter hiter, fun c n hc => ?_⟩
    · rcases mem_append.mp hc with hc | hc
      · exact h.known c hc
      · rw [mem_singleton.mp hc]
        exact mem_append_left _ (h.tracked cluster (hsecondary ▸ mem_cons_self))
    · exact nodup_concat h.once (hnew cluster mem_cons_self)
    · cases rest with
      | nil => cases hn
      | cons m rest =>
        cases show some m = some n from hn
        refine ⟨[cluster], rest, hsecondary, fun c hc => ?_, fun c hc hinit => ?_⟩
        · exact mem_append_right _ hc
        · rcases mem_append.mp hinit with hinit | hinit
          · exact hnew c (mem_cons_of_mem _ hc) hinit
          · exact hfresh (mem_singleton.mp hinit ▸ hc)
    · cases rest with
      | cons m rest => cases hn
      | nil =>
        have hc' : c ∈ [cluster] := hsecondary ▸ hc
        exact iff_of_true (mem_append_right _ hc') rfl
    · obtain ⟨rfl, -⟩ := Frame.looping.inj (Option.some.inj hc)
      exact mem_append_right _ (mem_singleton_self _)
  | finishing hstate hprimary hsecondary =>
    have hiter := h.iter_none (.inl hsecondary)
    have hbelow := h.stack_iter hiter
    have heven : ∀ c ∈ r.secondaryInitClusters, (c ∈ r.initialized ↔ false = true) := by
      rw [hsecondary]
      exact fun c hc => absurd hc not_mem_nil
    rcases finishPhase_cases { r with startedSecondaryInitialize := false } with
      ⟨-, heq⟩ | ⟨-, heq⟩ | ⟨callback, -, heq⟩ <;> rw [heq]
    · exact ⟨h.nodup, h.tracked, h.known, h.once, fun _ hn => (by cases hn), fun _ => heven, hbelow,
        fun _ _ hc => (by cases hc)⟩
    · refine { h with ahead := fun n hn => ?_, even := fun _ => heven }
      cases hiter.symm.trans hn
    · exact ⟨h.nodup, h.tracked, h.known, h.once, fun _ hn => (by cases hn), fun _ => heven, hbelow,
        fun _ _ hc => (by cases hc)⟩

theorem allowed_iter (hallowed : r.allowed event) {n : InitCluster} (hiter : r.iter = some n) :
    ∃ c, r.stack.head? = some (.looping c (some n)) ∧
      (event = .clusterInitialized c ∨ event = .removeCluster c ∨ event = .returned) := by
  obtain ⟨frame, hframe, hn⟩ := Option.bind_eq_some_iff.mp hiter
  unfold allowed at hallowed
  rw [hframe] at hallowed
  cases frame with
  | looping c iter =>
    obtain rfl : iter = some n := hn
    exact ⟨c, hframe, hallowed c rfl⟩
  | adding | added | registering | cds | callback => cases hn

theorem iter_none_of_allowed (hallowed : r.allowed event)
    (hevent : ∀ c, event ≠ .clusterInitialized c ∧ event ≠ .removeCluster c)
    (hreturned : event ≠ .returned) : r.iter = none := by
  cases hiter : r.iter with
  | none => rfl
  | some n =>
    obtain ⟨c, -, h | h | h⟩ := allowed_iter hallowed hiter
    · exact absurd h (hevent c).1
    · exact absurd h (hevent c).2
    · exact absurd h hreturned

theorem Lists.unlist (h : r.Lists) (hown : ∀ n, r.iter = some n → cluster ∈ r.initialized) :
    (r.unlist cluster).Lists := by
  unfold InitRun.unlist
  cases cluster.initializePhase with
  | primary => exact { h with }
  | secondary =>
    have hsub : ∀ c ∈ r.secondaryInitClusters.filter (· ≠ cluster),
        c ∈ r.secondaryInitClusters := fun c hc => (mem_filter.mp hc).1
    refine ⟨h.nodup.filter _, fun c hc => h.tracked c (hsub c hc), h.known, h.once,
      fun n hn => ?_, fun hn c hc => h.even hn c (hsub c hc), h.below, h.own⟩
    obtain ⟨hstarted, done, rest, hsecondary, hdone, hrest⟩ := h.ahead n hn
    have hkept : (n :: rest).filter (· ≠ cluster) = n :: rest := by
      refine filter_eq_self.mpr fun c hc => decide_eq_true fun he => hrest c hc ?_
      rw [he]
      exact hown n hn
    refine ⟨hstarted, done.filter (· ≠ cluster), rest, ?_,
      fun c hc => hdone c (mem_filter.mp hc).1, hrest⟩
    rw [hsecondary, filter_append, hkept]

theorem Lists.removeCluster (h : r.Lists) (hown : ∀ n, r.iter = some n → cluster ∈ r.initialized)
    (hremove : r.removeCluster cluster = some r') : r'.Lists := by
  unfold InitRun.removeCluster at hremove
  split at hremove
  · cases hremove
    exact h
  · exact (h.unlist hown).maybeFinishInitialize hremove

theorem Lists.push (h : r.Lists) (hiter : r.iter = none) {frame : Frame} (hframe : frame.iter = none) :
    { r with stack := frame :: r.stack }.Lists := by
  refine ⟨h.nodup, h.tracked, h.known, h.once, fun n hn => ?_, fun _ => h.even hiter,
    h.stack_iter hiter, fun c n hc => ?_⟩
  · cases hframe.symm.trans hn
  · cases show some frame = some (.looping c (some n)) from hc
    cases hframe

theorem Lists.grow (h : r.Lists) (hiter : r.iter = none) (hknown : cluster ∈ r.tracked ++ r.late)
    (hfresh : cluster ∉ r.initialized) {frame : Frame} (hframe : frame.iter = none)
    {secondary : List InitCluster} (hnodup : secondary.Nodup)
    (htracked : ∀ c ∈ secondary, c ∈ r.tracked)
    (hsecondary : ∀ c ∈ secondary, c ∈ r.secondaryInitClusters ∨
      (c = cluster ∧ r.startedSecondaryInitialize = true))
    (hlisted : r.startedSecondaryInitialize = false → cluster ∉ secondary) : Lists { r with
      secondaryInitClusters := secondary, initialized := r.initialized ++ [cluster],
      stack := frame :: r.stack } := by
  refine ⟨hnodup, htracked, fun c hc => ?_, ?_, fun n hn => ?_, fun _ c hc => ?_,
    h.stack_iter hiter, fun c n hc => ?_⟩
  · rcases mem_append.mp hc with hc | hc
    · exact h.known c hc
    · rw [mem_singleton.mp hc]
      exact hknown
  · exact nodup_concat h.once hfresh
  · cases hframe.symm.trans hn
  · rcases hsecondary c hc with hold | ⟨rfl, hstarted⟩
    · constructor
      · intro hinit
        rcases mem_append.mp hinit with hinit | hinit
        · exact (h.even hiter c hold).mp hinit
        · obtain rfl := mem_singleton.mp hinit
          cases hstarted : r.startedSecondaryInitialize with
          | true => rfl
          | false => exact absurd hc (hlisted hstarted)
      · intro hstarted
        exact mem_append_left _ ((h.even hiter c hold).mpr hstarted)
    · exact iff_of_true (mem_append_right _ (mem_singleton_self c)) hstarted
  · cases show some frame = some (.looping c (some n)) from hc
    cases hframe

theorem recordAdded_state (r : InitRun) (cluster : InitCluster) :
    (r.recordAdded cluster).toInitHelper = r.toInitHelper := by
  unfold recordAdded
  split <;> rfl

theorem recordAdded_tracked (hall : r.state ≠ .allClustersInitialized) (cluster : InitCluster) :
    (r.recordAdded cluster).tracked = cluster :: r.tracked := by
  unfold recordAdded
  split
  · rfl
  · rename_i hs
    exact absurd hs hall
  · rfl

theorem Lists.recordAdded (h : r.Lists) (cluster : InitCluster) :
    (r.recordAdded cluster).Lists := by
  unfold InitRun.recordAdded
  split
  · exact { h with
      tracked := fun c hc => mem_cons_of_mem _ (h.tracked c hc)
      known := fun c hc => mem_cons_of_mem _ (h.known c hc) }
  · refine { h with known := fun c hc => ?_ }
    rcases mem_append.mp (h.known c hc) with hc | hc
    · exact mem_append_left _ hc
    · exact mem_append_right _ (mem_cons_of_mem _ hc)
  · exact { h with
      tracked := fun c hc => mem_cons_of_mem _ (h.tracked c hc)
      known := fun c hc => mem_cons_of_mem _ (h.known c hc) }

theorem Lists.addCluster (h : r.Lists) (hiter : r.iter = none)
    (hknown : cluster ∈ r.tracked ++ r.late) (hfresh : cluster ∉ r.initialized)
    (hunlisted : cluster ∉ r.secondaryInitClusters)
    (htracked : r.state ≠ .allClustersInitialized → cluster ∈ r.tracked) :
    (r.addCluster cluster).Lists := by
  have hcall : ∀ {frame : Frame}, frame.iter = none → (r.callInitialize cluster frame).Lists :=
    fun hframe => h.grow hiter hknown hfresh hframe h.nodup h.tracked (fun c hc => .inl hc)
      fun _ => hunlisted
  have hnodup := nodup_concat h.nodup hunlisted
  unfold InitRun.addCluster
  split
  · exact hcall rfl
  · rename_i hall
    have hlist : ∀ c ∈ r.secondaryInitClusters ++ [cluster], c ∈ r.tracked := by
      intro c hc
      rcases mem_append.mp hc with hc | hc
      · exact h.tracked c hc
      · rw [mem_singleton.mp hc]
        exact htracked hall
    unfold InitRun.enlist
    cases cluster.initializePhase with
    | primary =>
      have hprimary : (r.callInitialize cluster (.adding cluster)).Lists := hcall rfl
      exact { hprimary with }
    | secondary =>
      dsimp only
      split
      · rename_i hstarted
        refine h.grow hiter hknown hfresh rfl hnodup hlist (fun c hc => ?_) fun hnot => ?_
        · rcases mem_append.mp hc with hc | hc
          · exact .inl hc
          · exact .inr ⟨mem_singleton.mp hc, hstarted⟩
        · rw [hstarted] at hnot
          cases hnot
      · rename_i hstarted
        have hpush : Lists { r with stack := .registering cluster :: r.stack } := h.push hiter rfl
        refine ⟨hnodup, hlist, h.known, h.once, fun n hn => ?_, fun _ c hc => ?_, hpush.below,
          hpush.own⟩
        · cases (show none = some n from hn)
        · rcases mem_append.mp hc with hc | hc
          · exact h.even hiter c hc
          · rw [mem_singleton.mp hc]
            exact iff_of_false hfresh hstarted

theorem afterIter_eq {done rest : List InitCluster} {n : InitCluster}
    (h : (done ++ n :: rest).Nodup) : afterIter n (done ++ n :: rest) = rest.head? := by
  have hdone : ∀ c ∈ done, decide (c ≠ n) = true := by
    intro c hc
    exact decide_eq_true ((List.nodup_append.mp h).2.2 c hc n mem_cons_self)
  unfold afterIter
  rw [dropWhile_append_of_pos hdone, dropWhile_cons_of_neg (by simp), tail_cons]

theorem Lists.pop (h : r.Lists) (hiter : r.iter = none) :
    Lists { r with stack := r.stack.tail } := by
  have hnone : ∀ {n : InitCluster}, r.stack.tail.head?.bind Frame.iter ≠ some n := by
    intro n hn
    obtain ⟨frame, hframe, hn⟩ := Option.bind_eq_some_iff.mp hn
    rw [h.below frame (mem_of_head? hframe)] at hn
    cases hn
  refine ⟨h.nodup, h.tracked, h.known, h.once, fun n hn => absurd hn hnone, fun _ => h.even hiter,
    fun frame hframe => h.below frame (mem_of_mem_tail hframe), fun c n hc => ?_⟩
  cases (show some n = none from h.below _ (mem_of_head? hc))

theorem Lists.returned (h : r.Lists) (hreturned : r.returned = some r') : r'.Lists := by
  unfold InitRun.returned at hreturned
  split at hreturned
  · cases hreturned
  · rename_i frame stack hstack
    have hiter : r.iter = frame.iter := by
      unfold iter
      rw [hstack]
      rfl
    have htail : stack = r.stack.tail := by rw [hstack, tail_cons]
    dsimp only at hreturned
    split at hreturned
    · rename_i cluster
      cases hreturned
      have hnone : ∀ frame ∈ stack, frame.iter = none := htail ▸ h.below
      refine ⟨h.nodup, h.tracked, h.known, h.once, fun n hn => ?_, fun _ => h.even hiter, hnone,
        fun c n hc => ?_⟩
      · cases (show none = some n from hn)
      · cases hc
    · rename_i done cluster
      split at hreturned
      · cases hreturned
        obtain ⟨hstarted, before, rest, hsecondary, hbefore, hrest⟩ := h.ahead cluster hiter
        have hnodup := h.nodup
        rw [hsecondary] at hnodup
        have hafter : afterIter cluster r.secondaryInitClusters = rest.head? := by
          rw [hsecondary, afterIter_eq hnodup]
        have hmem : cluster ∈ r.secondaryInitClusters := by
          rw [hsecondary]
          exact mem_append_right _ mem_cons_self
        have hcluster := hrest cluster mem_cons_self
        have hfresh : cluster ∉ rest := (nodup_cons.mp (List.nodup_append.mp hnodup).2.1).1
        have hinit : ∀ c ∈ rest, c ∉ r.initialized ++ [cluster] := by
          intro c hc hinit
          rcases mem_append.mp hinit with hinit | hinit
          · exact hrest c (mem_cons_of_mem _ hc) hinit
          · exact hfresh (mem_singleton.mp hinit ▸ hc)
        have hcalled : ∀ c ∈ before ++ [cluster], c ∈ r.initialized ++ [cluster] := by
          intro c hc
          rcases mem_append.mp hc with hc | hc
          · exact mem_append_left _ (hbefore c hc)
          · exact mem_append_right _ hc
        rw [hafter]
        refine ⟨h.nodup, h.tracked, fun c hc => ?_, ?_, fun n hn => ⟨hstarted, ?_⟩,
          fun hn c hc => ?_, htail ▸ h.below, fun c n hc => ?_⟩
        · rcases mem_append.mp hc with hc | hc
          · exact h.known c hc
          · rw [mem_singleton.mp hc]
            exact mem_append_left _ (h.tracked cluster hmem)
        · exact nodup_concat h.once hcluster
        · cases rest with
          | nil => cases hn
          | cons m rest =>
            cases show some m = some n from hn
            refine ⟨before ++ [cluster], rest, ?_, hcalled, hinit⟩
            rw [append_assoc]
            exact hsecondary
        · cases rest with
          | cons m rest => cases hn
          | nil =>
            refine iff_of_true (hcalled c ?_) hstarted
            rw [← hsecondary]
            exact hc
        · obtain ⟨rfl, -⟩ := Frame.looping.inj (Option.some.inj hc)
          exact mem_append_right _ (mem_singleton_self _)
      · cases hreturned
    · rename_i hadding hlooping
      cases hreturned
      rw [htail]
      refine h.pop (hiter.trans ?_)
      cases frame with
      | looping c iter =>
        cases iter with
        | none => rfl
        | some n => exact absurd rfl (hlooping c n)
      | _ => rfl

end InitRun

end Meliproxy.Envoy.Upstream
