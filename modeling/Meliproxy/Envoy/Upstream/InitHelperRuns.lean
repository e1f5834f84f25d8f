import Meliproxy.Envoy.Upstream.InitHelperLists

/-!
# What has happened when the lists are empty

A tracked cluster is listed until it finishes or is removed, so when the lists are empty all of
them have. The helper looks at the lists before it starts the secondary clusters, before it starts
CDS and before it runs the callback.
-/

namespace Meliproxy.Envoy.Upstream

open Lib List

namespace InitRun

variable {r r' : InitRun} {cluster : InitCluster} {event : Event}

variable (r)

def Settled (c : InitCluster) : Prop := c ∈ r.finished ∨ c ∈ r.removed

instance (c : InitCluster) : Decidable (r.Settled c) := by
  unfold Settled
  infer_instance

def Listed (c : InitCluster) : Prop :=
  match c.initializePhase with
  | .primary => c ∈ r.primaryInitClusters
  | .secondary => c ∈ r.secondaryInitClusters

instance (c : InitCluster) : Decidable (r.Listed c) := by
  unfold Listed
  split <;> infer_instance

structure Settling : Prop where
  tracked : ∀ c ∈ r.statics, c ∈ r.tracked
  listed : ∀ c ∈ r.tracked, r.Listed c ∨ r.Settled c
  started : r.startedSecondaryInitialize = true →
    ∀ c ∈ r.statics, c.initializePhase = .primary → r.Settled c
  order : ∀ s ∈ r.statics, s.initializePhase = .secondary → s ∈ r.initialized →
    ∀ c ∈ r.statics, c.initializePhase = .primary → r.Settled c
  loading : r.state = .loading → r.cdsStarts = 0 ∧ r.startedSecondaryInitialize = false ∧
    ∀ c ∈ r.initialized, c.initializePhase = .primary
  static : r.state = .waitingForStaticInitialize → r.cdsStarts = 0
  cds : r.state = .waitingForCdsInitialize ∨ r.state = .cdsInitialized →
    r.cdsStarts = 1 ∧ ∀ c ∈ r.statics, r.Settled c
  all : r.state = .allClustersInitialized → r.cdsStarts ≤ 1 ∧ ∀ c ∈ r.tracked, r.Settled c

variable {r}

theorem settling_start (cds : Bool) : (start cds).Settling where
  tracked := fun _ h => h
  listed := fun _ h => absurd h not_mem_nil
  started := fun h => by cases h
  order := fun _ h => absurd h not_mem_nil
  loading := fun _ => ⟨rfl, rfl, fun _ h => absurd h not_mem_nil⟩
  static := fun h => by cases h
  cds := fun h => by rcases h with h | h <;> cases h
  all := fun h => by cases h

section

variable (h : r.Settling)
include h

theorem Settling.of_empty (hprimary : r.primaryInitClusters = []) {c : InitCluster}
    (hc : c ∈ r.tracked) (hphase : c.initializePhase = .secondary → r.secondaryInitClusters = []) :
    r.Settled c := by
  rcases h.listed c hc with hlisted | hsettled
  · unfold Listed at hlisted
    split at hlisted
    · rw [hprimary] at hlisted
      cases hlisted
    · rename_i hs
      rw [hphase hs] at hlisted
      cases hlisted
  · exact hsettled

theorem Settling.maybeFinishInitialize (hfinish : r.maybeFinishInitialize = some r') : r'.Settling
    := by
  cases finish_of_maybeFinishInitialize hfinish with
  | waiting => exact h
  | @looping cluster rest hstate hprimary hsecondary hstarted =>
    have hall : ∀ c ∈ r.statics, c.initializePhase = .primary → r.Settled c := by
      intro c hc hphase
      refine h.of_empty hprimary (h.tracked c hc) fun hs => ?_
      cases hphase.symm.trans hs
    have hloading : r.state ≠ .loading := by
      rcases hstate with hs | hs <;> rw [hs] <;> decide
    exact ⟨h.tracked, h.listed, fun _ => hall, fun _ _ _ _ => hall,
      fun hl => absurd hl hloading, h.static, h.cds, h.all⟩
  | finishing hstate hprimary hsecondary =>
    have hall : ∀ c ∈ r.tracked, r.Settled c :=
      fun c hc => h.of_empty hprimary hc fun _ => hsecondary
    have hstatics : ∀ c ∈ r.statics, r.Settled c := fun c hc => hall c (h.tracked c hc)
    have hstarts : r.cdsStarts ≤ 1 := by
      rcases hstate with hs | hs
      · rw [h.static hs]
        omega
      · exact Nat.le_of_eq (h.cds (.inr hs)).1
    rcases finishPhase_cases { r with startedSecondaryInitialize := false } with
      ⟨⟨hs, -⟩, heq⟩ | ⟨-, heq⟩ | ⟨callback, -, heq⟩ <;> rw [heq]
    · refine ⟨h.tracked, h.listed, fun hf => (by cases hf), fun _ _ _ _ c hc _ => hstatics c hc,
        fun hl => (by cases hl), fun hl => (by cases hl), fun _ => ⟨?_, hstatics⟩, fun hl => (by cases hl)⟩
      have hzero : r.cdsStarts = 0 := h.static hs
      change r.cdsStarts + 1 = 1
      omega
    all_goals
      exact ⟨h.tracked, h.listed, fun hf => (by cases hf), fun _ _ _ _ c hc _ => hstatics c hc,
        fun hl => (by cases hl), fun hl => (by cases hl), fun hl => (by rcases hl with hl | hl <;> cases hl),
        fun _ => ⟨hstarts, hall⟩⟩

theorem Settling.unlist (hsettled : r.Settled cluster) : (r.unlist cluster).Settling := by
  refine { h with listed := fun c hc => ?_ }
  obtain rfl | hne := Decidable.em (c = cluster)
  · exact .inr hsettled
  · refine (h.listed c hc).imp_left fun hl => ?_
    have hkeep : ∀ {l : List InitCluster}, c ∈ l → c ∈ l.filter (· ≠ cluster) :=
      fun hl => mem_filter.mpr ⟨hl, decide_eq_true hne⟩
    unfold Listed InitRun.unlist at *
    revert hl
    cases cluster.initializePhase <;> cases c.initializePhase <;> intro hl
    · exact hkeep hl
    · exact hl
    · exact hl
    · exact hkeep hl

theorem Settling.settle {finished removed : List InitCluster}
    (hfinished : ∀ c ∈ r.finished, c ∈ finished) (hremoved : ∀ c ∈ r.removed, c ∈ removed) :
    Settling { r with finished := finished, removed := removed } := by
  have hmono : ∀ {c : InitCluster}, r.Settled c → c ∈ finished ∨ c ∈ removed :=
    fun hc => hc.imp (hfinished _) (hremoved _)
  exact ⟨h.tracked, fun c hc => (h.listed c hc).imp_right hmono,
    fun hs c hc hp => hmono (h.started hs c hc hp),
    fun s hs hp hi c hc hpc => hmono (h.order s hs hp hi c hc hpc), h.loading, h.static,
    fun hs => ⟨(h.cds hs).1, fun c hc => hmono ((h.cds hs).2 c hc)⟩,
    fun hs => ⟨(h.all hs).1, fun c hc => hmono ((h.all hs).2 c hc)⟩⟩

theorem Settling.removeCluster (hsettled : r.Settled cluster)
    (hremove : r.removeCluster cluster = some r') : r'.Settling := by
  unfold InitRun.removeCluster at hremove
  split at hremove
  · cases hremove
    exact h
  · exact (h.unlist hsettled).maybeFinishInitialize hremove

theorem Settling.enlist (hall : r.state ≠ .allClustersInitialized) :
    ((r.recordAdded cluster).enlist cluster).Settling := by
  have hlisted : ∀ c ∈ cluster :: r.tracked, (r.enlist cluster).Listed c ∨ r.Settled c := by
    intro c hc
    rcases mem_cons.mp hc with rfl | hc
    · refine .inl ?_
      unfold Listed InitRun.enlist
      cases c.initializePhase <;> exact mem_append_right _ (mem_singleton_self _)
    · refine (h.listed c hc).imp_left fun hl => ?_
      unfold Listed InitRun.enlist at *
      revert hl
      cases cluster.initializePhase <;> cases c.initializePhase <;> intro hl
      · exact mem_append_left _ hl
      · exact hl
      · exact hl
      · exact mem_append_left _ hl
  unfold InitRun.recordAdded
  split
  · rename_i hstate
    obtain ⟨hstarts, hstarted, hinit⟩ := h.loading hstate
    refine ⟨fun c hc => ?_, hlisted, fun hs => ?_, fun s _ hp hi => ?_,
      fun _ => ⟨hstarts, hstarted, hinit⟩, h.static, fun hs => ?_, fun hs => absurd hs hall⟩
    · rcases mem_cons.mp hc with rfl | hc
      · exact mem_cons_self
      · exact mem_cons_of_mem _ (h.tracked c hc)
    · cases hstarted.symm.trans hs
    · cases hp.symm.trans (hinit s hi)
    · rcases hs with hs | hs <;> cases hstate.symm.trans hs
  · rename_i hstate
    exact absurd hstate hall
  · exact ⟨fun c hc => mem_cons_of_mem _ (h.tracked c hc), hlisted, h.started,
      h.order, h.loading, h.static, h.cds, fun hs => absurd hs hall⟩

theorem Settling.callInitialize (frame : Frame)
    (hcall : cluster.initializePhase = .primary ∨ r.startedSecondaryInitialize = true ∨
      r.state = .allClustersInitialized) : (r.callInitialize cluster frame).Settling := by
  refine { h with order := fun s hs hp hi c hc hpc => ?_, loading := fun hl => ?_ }
  · rcases mem_append.mp hi with hi | hi
    · exact h.order s hs hp hi c hc hpc
    · obtain rfl := mem_singleton.mp hi
      rcases hcall with hprimary | hstarted | hall
      · cases hp.symm.trans hprimary
      · exact h.started hstarted c hc hpc
      · exact (h.all hall).2 c (h.tracked c hc)
  · obtain ⟨hstarts, hstarted, hinit⟩ := h.loading hl
    refine ⟨hstarts, hstarted, fun c hc => ?_⟩
    rcases mem_append.mp hc with hc | hc
    · exact hinit c hc
    · rw [mem_singleton.mp hc]
      rcases hcall with hprimary | hs | hall
      · exact hprimary
      · cases hstarted.symm.trans hs
      · cases (show r.state = .loading from hl).symm.trans hall

theorem Settling.callSetInitializedCb (cluster : InitCluster) :
    (r.callSetInitializedCb cluster).Settling := { h with }

theorem Settling.addCluster (cluster : InitCluster) :
    ((r.recordAdded cluster).addCluster cluster).Settling := by
  have hstate : (r.recordAdded cluster).state = r.state :=
    congrArg InitHelper.state (recordAdded_state r cluster)
  unfold InitRun.addCluster
  rw [hstate]
  split
  · rename_i hall
    have hrecord : r.recordAdded cluster = { r with late := cluster :: r.late } := by
      rw [recordAdded, hall]
    have hadded : (r.recordAdded cluster).Settling := by
      rw [hrecord]
      exact { h with }
    exact hadded.callInitialize _ (.inr (.inr (hstate.trans hall)))
  · rename_i hall
    have henlist : ((r.recordAdded cluster).enlist cluster).Settling := h.enlist hall
    dsimp only
    split
    · rename_i hphase
      exact henlist.callInitialize _ (.inl hphase)
    · split
      · rename_i hstarted
        exact henlist.callInitialize _ (.inr (.inl hstarted))
      · exact henlist.callSetInitializedCb cluster

theorem Settling.returned (hlists : r.Lists) (hreturned : r.returned = some r') : r'.Settling := by
  unfold InitRun.returned at hreturned
  split at hreturned
  · cases hreturned
  · rename_i frame stack hstack
    have hpop : Settling { r with stack := stack } := { h with }
    dsimp only at hreturned
    split at hreturned
    · cases hreturned
      exact hpop.callSetInitializedCb _
    · rename_i done n
      have hiter : r.iter = some n := by
        unfold iter
        rw [hstack]
        rfl
      split at hreturned
      · cases hreturned
        exact hpop.callInitialize _ (.inr (.inl (hlists.ahead n hiter).1))
      · cases hreturned
    · cases hreturned
      exact hpop

end

/-!
## Clusters are initialized in order

The initialized callback runs when the last phase is over, or at once when it comes later. A
cluster that is added after that is called, but nobody waits for it.
-/

structure Callbacks (r : InitRun) : Prop where
  pending : r.state ≠ .allClustersInitialized →
    r.ran = [] ∧ r.initializedCallback = r.callbacks.getLast?
  done : r.state = .allClustersInitialized → ∀ callback ∈ r.callbacks.getLast?, callback ∈ r.ran
  nodup : r.ran.Nodup
  known : ∀ callback ∈ r.ran, callback ∈ r.callbacks

theorem callbacks_start (cds : Bool) : (start cds).Callbacks where
  pending := fun _ => ⟨rfl, rfl⟩
  done := fun h => by cases h
  nodup := nodup_nil
  known := fun _ h => absurd h not_mem_nil

section

variable (h : r.Callbacks)
include h

theorem Callbacks.of_eq (hstate : r'.state = r.state) (hran : r'.ran = r.ran)
    (hcallbacks : r'.callbacks = r.callbacks)
    (hcallback : r'.initializedCallback = r.initializedCallback) : r'.Callbacks := by
  obtain ⟨hpending, hdone, hnodup, hknown⟩ := h
  constructor
  · rw [hstate, hran, hcallbacks, hcallback]
    exact hpending
  · rw [hstate, hran, hcallbacks]
    exact hdone
  · rw [hran]
    exact hnodup
  · rw [hran, hcallbacks]
    exact hknown

theorem Callbacks.of_state (hall : r.state ≠ .allClustersInitialized)
    {state : InitState} (hstate : state ≠ .allClustersInitialized) :
    Callbacks { r with state := state } :=
  ⟨fun _ => h.pending hall, fun hs => absurd hs hstate, h.nodup, h.known⟩

theorem Callbacks.maybeFinishInitialize (hfinish : r.maybeFinishInitialize = some r') :
    r'.Callbacks := by
  cases finish_of_maybeFinishInitialize hfinish with
  | waiting => exact h
  | looping => exact h.of_eq rfl rfl rfl rfl
  | finishing hstate hprimary hsecondary =>
    have hall : r.state ≠ .allClustersInitialized := by
      rcases hstate with hs | hs <;> rw [hs] <;> decide
    obtain ⟨hran, hcallback⟩ := h.pending hall
    rcases finishPhase_cases { r with startedSecondaryInitialize := false } with
      ⟨-, heq⟩ | ⟨hnone, heq⟩ | ⟨callback, hsome, heq⟩ <;> rw [heq]
    · exact (h.of_state hall (by decide : InitState.waitingForCdsInitialize ≠ _)).of_eq rfl rfl rfl
        rfl
    · refine ⟨fun hs => absurd rfl hs, fun _ callback hc => ?_, h.nodup, h.known⟩
      have hlast : r.callbacks.getLast? = none := hcallback.symm.trans hnone
      cases hlast.symm.trans hc
    · have hlast : r.callbacks.getLast? = some callback := hcallback.symm.trans hsome
      refine ⟨fun hs => absurd rfl hs, fun _ c hc => ?_, ?_, fun c hc => ?_⟩
      · cases hlast.symm.trans hc
        exact mem_append_right _ (mem_singleton_self _)
      · refine nodup_concat h.nodup ?_
        rw [show ({ r with startedSecondaryInitialize := false } : InitRun).ran = [] from hran]
        exact not_mem_nil
      · change c ∈ r.ran ++ [callback] at hc
        rw [hran] at hc
        rw [mem_singleton.mp hc]
        exact mem_of_getLast? hlast

theorem Callbacks.removeCluster (hremove : r.removeCluster cluster = some r') : r'.Callbacks := by
  unfold InitRun.removeCluster at hremove
  split at hremove
  · cases hremove
    exact h
  · have hunlist : (r.unlist cluster).Callbacks := h.of_eq rfl rfl rfl rfl
    exact hunlist.maybeFinishInitialize hremove

theorem Callbacks.addCluster (cluster : InitCluster) :
    ((r.recordAdded cluster).addCluster cluster).Callbacks := by
  have hhelper := recordAdded_state r cluster
  have hrecord : (r.recordAdded cluster).Callbacks := by
    refine h.of_eq (congrArg InitHelper.state hhelper) ?_ ?_
      (congrArg InitHelper.initializedCallback hhelper)
    · unfold recordAdded
      split <;> rfl
    · unfold recordAdded
      split <;> rfl
  unfold InitRun.addCluster
  split
  · exact hrecord.of_eq rfl rfl rfl rfl
  · dsimp only
    split
    · exact hrecord.of_eq rfl rfl rfl rfl
    · split <;> exact hrecord.of_eq rfl rfl rfl rfl

theorem Callbacks.returned (hreturned : r.returned = some r') : r'.Callbacks := by
  obtain ⟨hhelper, -, hcallbacks, hran⟩ := returned_same hreturned
  exact h.of_eq (congrArg InitHelper.state hhelper) hran hcallbacks
    (congrArg InitHelper.initializedCallback hhelper)

theorem Callbacks.setInitializedCb {callback : Nat} (hnew : callback ∉ r.callbacks) :
    (InitRun.setInitializedCb { r with callbacks := r.callbacks ++ [callback] } callback).Callbacks := by
  unfold InitRun.setInitializedCb
  split
  · rename_i hall
    refine ⟨fun hs => absurd hall hs, fun _ c hc => ?_, ?_, fun c hc => ?_⟩
    · have hc : (r.callbacks ++ [callback]).getLast? = some c := hc
      rw [getLast?_concat] at hc
      exact mem_append_right _ (mem_singleton.mpr (Option.some.inj hc).symm)
    · exact nodup_concat h.nodup fun hc => hnew (h.known callback hc)
    · rcases mem_append.mp hc with hc | hc
      · exact mem_append_left _ (h.known c hc)
      · exact mem_append_right _ hc
  · rename_i hall
    refine ⟨fun _ => ⟨(h.pending hall).1, ?_⟩, fun hs => absurd hs hall, h.nodup,
      fun c hc => mem_append_left _ (h.known c hc)⟩
    exact getLast?_concat.symm

end

structure Inv (r : InitRun) : Prop where
  lists : r.Lists
  settling : r.Settling
  callbacks : r.Callbacks

theorem inv_start (cds : Bool) : (start cds).Inv :=
  ⟨lists_start cds, settling_start cds, callbacks_start cds⟩

section

variable (h : r.Inv)
include h

theorem Inv.maybeFinishInitialize (hfinish : r.maybeFinishInitialize = some r') : r'.Inv :=
  ⟨h.lists.maybeFinishInitialize hfinish, h.settling.maybeFinishInitialize hfinish,
    h.callbacks.maybeFinishInitialize hfinish⟩

theorem Inv.removeCluster (hown : ∀ n, r.iter = some n → cluster ∈ r.initialized)
    (hsettled : r.Settled cluster) (hremove : r.removeCluster cluster = some r') : r'.Inv :=
  ⟨h.lists.removeCluster hown hremove, h.settling.removeCluster hsettled hremove,
    h.callbacks.removeCluster hremove⟩

theorem Inv.settle {finished removed : List InitCluster}
    (hfinished : ∀ c ∈ r.finished, c ∈ finished) (hremoved : ∀ c ∈ r.removed, c ∈ removed) :
    Inv { r with finished := finished, removed := removed } := by
  have hlists := h.lists
  exact ⟨{ hlists with }, h.settling.settle hfinished hremoved, h.callbacks.of_eq rfl rfl rfl rfl⟩

theorem Inv.own (hallowed : r.allowed event)
    (hevent : event = .clusterInitialized cluster ∨ event = .removeCluster cluster) :
    ∀ n, r.iter = some n → cluster ∈ r.initialized := by
  intro n hn
  obtain ⟨c, hstack, hc⟩ := allowed_iter hallowed hn
  have hinit := h.lists.own c n hstack
  rcases hevent with rfl | rfl <;> rcases hc with hc | hc | hc <;> cases hc <;> exact hinit

theorem Inv.addCluster (hallowed : r.allowed (.addCluster cluster))
    (hnew : cluster ∉ r.tracked ++ r.late) : ((r.recordAdded cluster).addCluster cluster).Inv := by
  have hiter : (r.recordAdded cluster).iter = none := by
    have hnone := iter_none_of_allowed hallowed (fun c => ⟨nofun, nofun⟩) nofun
    unfold InitRun.recordAdded
    split <;> exact hnone
  have hknown : cluster ∈ (r.recordAdded cluster).tracked ++ (r.recordAdded cluster).late := by
    unfold InitRun.recordAdded
    split
    · exact mem_append_left _ mem_cons_self
    · exact mem_append_right _ mem_cons_self
    · exact mem_append_left _ mem_cons_self
  have hfresh : cluster ∉ (r.recordAdded cluster).initialized := by
    have hinit := fun hc => hnew (h.lists.known cluster hc)
    unfold InitRun.recordAdded
    split <;> exact hinit
  have hunlisted : cluster ∉ (r.recordAdded cluster).secondaryInitClusters := by
    rw [congrArg InitHelper.secondaryInitClusters (recordAdded_state r cluster)]
    exact fun hc => hnew (mem_append_left _ (h.lists.tracked cluster hc))
  refine ⟨(h.lists.recordAdded cluster).addCluster hiter hknown hfresh hunlisted fun hall => ?_,
    h.settling.addCluster cluster, h.callbacks.addCluster cluster⟩
  rw [congrArg InitHelper.state (recordAdded_state r cluster)] at hall
  rw [recordAdded_tracked hall]
  exact mem_cons_self

theorem Inv.setInitializedCb {callback : Nat}
    (hallowed : r.allowed (.setInitializedCb callback)) (hnew : callback ∉ r.callbacks) :
    (InitRun.setInitializedCb { r with callbacks := r.callbacks ++ [callback] } callback).Inv := by
  have hlists := h.lists
  have hsettling := h.settling
  refine ⟨?_, ?_, h.callbacks.setInitializedCb hnew⟩ <;> unfold InitRun.setInitializedCb <;> split
  · have hpush : Lists { r with stack := .callback :: r.stack } := hlists.push
      (iter_none_of_allowed hallowed (fun c => ⟨nofun, nofun⟩) nofun) rfl
    exact { hpush with }
  · exact { hlists with }
  all_goals exact { hsettling with }

theorem Inv.advance {state : InitState}
    (hstate : (r.state = .loading ∧ state = .waitingForStaticInitialize) ∨
      (r.state = .waitingForCdsInitialize ∧ state = .cdsInitialized)) :
    Inv { r with state := state } := by
  have hlists := h.lists
  have hsettling := h.settling
  refine ⟨{ hlists with }, ?_, ?_⟩
  · rcases hstate with ⟨hs, rfl⟩ | ⟨hs, rfl⟩
    · exact { hsettling with
        loading := nofun, static := fun _ => (hsettling.loading hs).1, cds := nofun, all := nofun }
    · exact { hsettling with
        loading := nofun, static := nofun, cds := fun _ => hsettling.cds (.inl hs), all := nofun }
  · rcases hstate with ⟨hs, rfl⟩ | ⟨hs, rfl⟩
    · exact h.callbacks.of_state (by rw [hs]; decide) (by decide)
    · exact h.callbacks.of_state (by rw [hs]; decide) (by decide)

theorem Inv.step (hstep : r.step event = some r') : r'.Inv := by
  cases steps_of_step hstep with
  | addCluster hallowed hnew => exact h.addCluster hallowed hnew
  | @removeCluster cluster r' hallowed _ hremove =>
    have hsettle := h.settle (fun _ hc => hc) fun c hc => mem_cons_of_mem cluster hc
    exact hsettle.removeCluster (h.own hallowed (.inr rfl)) (.inr mem_cons_self) hremove
  | @clusterInitialized cluster r' hallowed hremove =>
    have hsettle := h.settle (fun c hc => mem_cons_of_mem cluster hc) fun _ hc => hc
    exact hsettle.removeCluster (h.own hallowed (.inl rfl)) (.inl mem_cons_self) hremove
  | onStaticLoadComplete hstate hfinish =>
    exact (h.advance (.inl ⟨hstate, rfl⟩)).maybeFinishInitialize hfinish
  | cdsInitialized hstate hfinish =>
    exact (h.advance (.inr ⟨hstate, rfl⟩)).maybeFinishInitialize hfinish
  | setInitializedCb hallowed hnew => exact h.setInitializedCb hallowed hnew
  | returned hreturned =>
    exact ⟨h.lists.returned hreturned, h.settling.returned h.lists hreturned,
      h.callbacks.returned hreturned⟩

end

/-- What holds in every state, and so already when a call is made. -/
structure Ordered (r : InitRun) : Prop where
  once : r.initialized.Nodup
  secondary : ∀ s ∈ r.statics, s.initializePhase = .secondary → s ∈ r.initialized →
    ∀ c ∈ r.statics, c.initializePhase = .primary → r.Settled c
  cdsOnce : r.cdsStarts ≤ 1
  cdsLast : 0 < r.cdsStarts → ∀ c ∈ r.statics, r.Settled c
  callbackOnce : ∀ callback ∈ r.callbacks.getLast?,
    r.ran.count callback = if r.state = .allClustersInitialized then 1 else 0
  callbackLast : r.ran ≠ [] → ∀ c ∈ r.tracked, r.Settled c

theorem Inv.ordered (h : r.Inv) : r.Ordered := by
  have hs := h.settling
  have hcds : r.cdsStarts ≤ 1 ∧ (0 < r.cdsStarts → ∀ c ∈ r.statics, r.Settled c) := by
    cases hstate : r.state with
    | loading =>
      rw [(hs.loading hstate).1]
      exact ⟨by omega, by omega⟩
    | waitingForStaticInitialize =>
      rw [hs.static hstate]
      exact ⟨by omega, by omega⟩
    | waitingForCdsInitialize =>
      obtain ⟨hone, hsettled⟩ := hs.cds (.inl hstate)
      exact ⟨by omega, fun _ => hsettled⟩
    | cdsInitialized =>
      obtain ⟨hone, hsettled⟩ := hs.cds (.inr hstate)
      exact ⟨by omega, fun _ => hsettled⟩
    | allClustersInitialized =>
      obtain ⟨hone, hsettled⟩ := hs.all hstate
      exact ⟨hone, fun _ c hc => hsettled c (hs.tracked c hc)⟩
  refine ⟨h.lists.once, hs.order, hcds.1, hcds.2, fun callback hc => ?_, fun hran c hc => ?_⟩
  · split
    · rename_i hall
      exact count_eq_one_of_mem h.callbacks.nodup (h.callbacks.done hall callback hc)
    · rename_i hall
      rw [(h.callbacks.pending hall).1, count_nil]
  · cases Decidable.em (r.state = .allClustersInitialized) with
    | inl hall => exact (hs.all hall).2 c hc
    | inr hall => exact absurd (h.callbacks.pending hall).1 hran

end InitRun

end Meliproxy.Envoy.Upstream
