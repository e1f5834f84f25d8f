import Meliproxy.Envoy.ThreadLocal.SlotOwnersListeners

/-!
# Runs of updates and removals

An owner is destroyed when no listener holds it, or with its cluster. As long as no cluster goes
with an update on its way, no listener goes undrained with one, and no provider posts one behind
the removal of its listeners, every closure finds its owner and its slot.
-/

namespace Meliproxy.Envoy.ThreadLocal

open Lib List

namespace Threads

variable {Key Value : Type} {s s' : Threads Key Value} {extra : List Nat}

variable {owner : SlotOwner Key Value}

theorem runUpdate_ok (h : s.Inv extra) (howner : owner ∈ s.owners)
    {data : Nat → Option (ThreadLocalObject Value)}
    (hdata : ownersOf data owner.index = some owner.tag) (value : Value) :
    ∃ data', s.runUpdate data owner.tag value = some data' ∧ ownersOf data' = ownersOf data := by
  obtain ⟨object, hobject, htag⟩ := Option.map_eq_some_iff.mp hdata
  refine ⟨Function.update data owner.index (some { object with value := some value }), ?_,
    ownersOf_update hobject rfl⟩
  rw [runUpdate, find_owner h howner]
  simp [hobject, htag, h.slots owner howner]

theorem Inv.runOnAllThreads (h : s.Inv extra) (howner : owner ∈ s.owners) (value : Value)
    (hkept : owner.key.isSome = true → s.IsKept owner.tag) :
    (s.runOnAllThreads owner.tag value).Inv extra := by
  obtain ⟨data, hdata, hsame⟩ := runUpdate_ok h howner (h.main owner howner) value
  have hrun : s.runOnAllThreads owner.tag value =
      { ({ s with posted := s.posted ++ [(owner.tag, value)] } : Threads Key Value).post
          (.update owner.tag value) with mainData := data } := by
    have hdata' : (({ s with posted := s.posted ++ [(owner.tag, value)] } :
        Threads Key Value).post (.update owner.tag value)).runUpdate s.mainData owner.tag value =
        some data := hdata
    rw [Threads.runOnAllThreads]
    simp only [Threads.post] at hdata' ⊢
    rw [hdata']
  rw [hrun]
  constructor
  · exact h.safe
  · exact h.tags
  · exact h.fresh
  · exact h.keys
  · exact h.slots
  · intro other hother
    exact (congrFun hsame other.index).trans (h.main other hother)
  · exact h.listenerTags
  · exact h.freshListeners
  · exact h.provided
  · exact h.held
  · intro listenerTag
    have hpost := removals_post s (.update owner.tag value) listenerTag
    exact (h.removals listenerTag).trans hpost.symm
  · intro worker hworker
    obtain ⟨worker, hbefore, rfl⟩ := mem_map.mp hworker
    apply (h.workers worker hbefore).postUpdate howner value
    rintro ⟨other, hother, htag, hkey⟩
    rw [owner_eq h howner hother htag] at hkey
    obtain ⟨listener, hlistener, hstays, hholds⟩ := hkept hkey
    exact ⟨listener, hlistener, hholds, hstays⟩

section Current

variable (tag : Nat) (value : Value)

def withCurrent (owner : SlotOwner Key Value) : SlotOwner Key Value :=
  if owner.tag = tag then { owner with current := some value } else owner

@[simp] theorem withCurrent_tag (owner : SlotOwner Key Value) :
    (withCurrent tag value owner).tag = owner.tag := by
  unfold withCurrent
  split <;> rfl

@[simp] theorem withCurrent_key (owner : SlotOwner Key Value) :
    (withCurrent tag value owner).key = owner.key := by
  unfold withCurrent
  split <;> rfl

@[simp] theorem withCurrent_index (owner : SlotOwner Key Value) :
    (withCurrent tag value owner).index = owner.index := by
  unfold withCurrent
  split <;> rfl

variable {owners : List (SlotOwner Key Value)}

theorem isProvider_withCurrent {other : Nat} :
    IsProvider (owners.map (withCurrent tag value)) other ↔ IsProvider owners other := by
  simp [IsProvider]

theorem workerOk_withCurrent {listeners : List ListenerImpl}
    {posted : List (Nat × Value)} {worker : WorkerThread Value}
    (h : WorkerOk owners listeners posted worker) :
    WorkerOk (owners.map (withCurrent tag value)) listeners posted worker where
  placed := by
    intro owner howner
    obtain ⟨before, hbefore, rfl⟩ := mem_map.mp howner
    rw [withCurrent_index, withCurrent_tag]
    exact h.placed before hbefore
  ready := by
    intro other front back hqueued
    obtain ⟨owner, howner, htag, hready⟩ := h.ready other front back hqueued
    refine ⟨_, mem_map_of_mem howner, ?_, ?_⟩
    · rwa [withCurrent_tag]
    · rwa [withCurrent_index]
  waited := by
    intro other front back hqueued hprovider
    exact h.waited other front back hqueued ((isProvider_withCurrent tag value).mp hprovider)
  delivered := h.delivered

theorem Inv.withCurrent (h : s.Inv extra) :
    ({ s with owners := s.owners.map (Threads.withCurrent tag value) } :
      Threads Key Value).Inv extra := by
  constructor
  · exact h.safe
  · change ((s.owners.map _).map SlotOwner.tag).Nodup
    rw [map_map]
    have hsame : (SlotOwner.tag ∘ Threads.withCurrent tag value : SlotOwner Key Value → Nat) =
        SlotOwner.tag := funext (withCurrent_tag tag value)
    rw [hsame]
    exact h.tags
  · intro owner howner
    obtain ⟨before, hbefore, rfl⟩ := mem_map.mp howner
    rw [withCurrent_tag]
    exact h.fresh before hbefore
  · intro owner howner other hother
    obtain ⟨before, hbefore, rfl⟩ := mem_map.mp howner
    obtain ⟨before', hbefore', rfl⟩ := mem_map.mp hother
    rw [withCurrent_key, withCurrent_key]
    intro hsome hsame
    rw [h.keys before hbefore before' hbefore' hsome hsame]
  · intro owner howner
    obtain ⟨before, hbefore, rfl⟩ := mem_map.mp howner
    rw [withCurrent_index, withCurrent_tag]
    exact h.slots before hbefore
  · intro owner howner
    obtain ⟨before, hbefore, rfl⟩ := mem_map.mp howner
    rw [withCurrent_index, withCurrent_tag]
    exact h.main before hbefore
  · exact h.listenerTags
  · exact h.freshListeners
  · intro listener hlistener other hother
    exact (isProvider_withCurrent tag value).mpr (h.provided listener hlistener other hother)
  · intro owner howner
    obtain ⟨before, hbefore, rfl⟩ := mem_map.mp howner
    rw [withCurrent_key, withCurrent_tag]
    exact h.held before hbefore
  · exact h.removals
  · exact fun worker hworker => workerOk_withCurrent tag value (h.workers worker hworker)

theorem Inv.updateOwner [DecidableEq Value] (h : s.Inv extra) {s' : Threads Key Value}
    (hkept : ∀ owner ∈ s.owners, owner.tag = tag → owner.key.isSome = true →
      owner.current ≠ some value → s.IsKept tag)
    (hevent : s.updateOwner tag value = some s') : s'.Inv extra := by
  unfold Threads.updateOwner at hevent
  split at hevent
  · cases hevent
  · next owner hfind =>
    have howner := mem_of_find?_eq_some hfind
    obtain rfl : owner.tag = tag := by simpa using find?_some hfind
    split at hevent
    · cases hevent
      exact h
    · next hnew =>
      cases hevent
      have hrun := (h.withCurrent owner.tag value).runOnAllThreads
        (mem_map_of_mem howner) value
      rw [withCurrent_tag, withCurrent_key] at hrun
      exact hrun fun hkey => hkept owner howner rfl hkey hnew

end Current

variable {i : Nat}

theorem sum_map_set {α : Type} (f : α → Nat) {l : List α} {a b : α} (h : l[i]? = some a) :
    ((l.set i b).map f).sum + f a = (l.map f).sum + f b := by
  induction l generalizing i with
  | nil => cases h
  | cons c l ih =>
    cases i with
    | zero =>
      cases h
      simp only [set_cons_zero, map_cons, sum_cons]
      omega
    | succ i =>
      have hrest := ih h
      simp only [set_cons_succ, map_cons, sum_cons]
      omega

variable {worker : WorkerThread Value} {task : Task Value}

theorem runTask_ok (h : s.Inv extra) (hworker : worker ∈ s.workers) {queue : List (Task Value)}
    (hqueue : worker.queue = task :: queue) :
    ∃ data, s.runTask { worker with queue := queue } task =
        some ⟨queue, data, worker.ran ++ task.update?.toList⟩ ∧
      ownersOf data = placed (ownersOf worker.data) task := by
  cases task with
  | setThreadLocal index owner =>
    exact ⟨Function.update worker.data index (some ⟨owner, none⟩),
      congrArg some (by simp [Task.update?]), ownersOf_set worker.data index _⟩
  | clearSlot index =>
    exact ⟨Function.update worker.data index none,
      congrArg some (by simp [Task.update?]), ownersOf_set worker.data index none⟩
  | removeListener listenerTag => exact ⟨worker.data, congrArg some (by simp [Task.update?]), rfl⟩
  | update tag value =>
    obtain ⟨owner, howner, rfl, hdata⟩ := (h.workers worker hworker).ready tag [] queue
      ⟨value, hqueue⟩
    obtain ⟨data, hrun, hsame⟩ := runUpdate_ok h howner hdata value
    refine ⟨data, ?_, hsame⟩
    rw [runTask, hrun]
    rfl

theorem count_completion (task : Task Value) (listenerTag : Nat) :
    task.completion.count listenerTag = if isRemoval listenerTag task then 1 else 0 := by
  cases task with
  | removeListener tag => simp [Task.completion, isRemoval, count_singleton]
  | setThreadLocal | clearSlot | update => rfl

theorem removals_runTask {worker' : WorkerThread Value} (hi : s.workers[i]? = some worker)
    (hqueue : worker.queue = task :: worker'.queue) (listenerTag : Nat) :
    ({ s with workers := s.workers.set i worker', posts := s.posts ++ task.completion } :
      Threads Key Value).removals listenerTag = s.removals listenerTag := by
  have hsum := sum_map_set (fun worker => worker.queue.countP (isRemoval listenerTag)) hi
    (b := worker')
  simp only [hqueue, countP_cons] at hsum
  simp only [removals, count_append, count_completion]
  omega

theorem Inv.runWorker (h : s.Inv extra) {s' : Threads Key Value} (hevent : s.runWorker i = some s')
    : s'.Inv extra := by
  unfold Threads.runWorker at hevent
  split at hevent
  · cases hevent
  · next worker hi =>
    split at hevent
    · cases hevent
    · next task queue hqueue =>
      have hworker := mem_of_getElem? hi
      obtain ⟨data, hrun, hdata⟩ := runTask_ok h hworker hqueue
      rw [hrun] at hevent
      cases hevent
      constructor
      · exact h.safe
      · exact h.tags
      · exact h.fresh
      · exact h.keys
      · exact h.slots
      · exact h.main
      · exact h.listenerTags
      · exact h.freshListeners
      · exact h.provided
      · exact h.held
      · intro listenerTag
        exact (h.removals listenerTag).trans (removals_runTask hi hqueue listenerTag).symm
      · intro other hother
        rcases mem_or_eq_of_mem_set hother with hbefore | rfl
        · exact h.workers other hbefore
        · have hok := h.workers worker hworker
          have hsame : worker = { worker with queue := task :: queue } := by rw [← hqueue]
          rw [hsame] at hok
          exact hok.run hdata

theorem Inv.drainListener (h : s.Inv extra) (listenerTag : Option Nat) :
    (s.drainListener listenerTag).Inv extra := by
  unfold Threads.drainListener
  cases listenerTag with
  | none => exact h
  | some listenerTag =>
    by_cases hactive : s.phaseOf listenerTag = some ListenerPhase.active
    · simp only [hactive, if_true]
      exact h.keepPhase hactive nofun nofun
    · simp only [hactive, if_false]
      exact h

variable {listenerTag : Nat}

theorem phaseOf_drainListener (h : s.phaseOf listenerTag = some .warming) (existing : Option Nat) :
    (s.drainListener existing).phaseOf listenerTag = some .warming := by
  unfold Threads.drainListener
  cases existing with
  | none => exact h
  | some other =>
    by_cases hactive : s.phaseOf other = some ListenerPhase.active
    · simp only [hactive, if_true]
      rw [phaseOf_setPhase, if_neg, h]
      rintro rfl
      rw [h] at hactive
      cases hactive
    · simp only [hactive, if_false]
      exact h

theorem Inv.onListenerWarmed (h : s.Inv extra) (hwarming : s.phaseOf listenerTag = some .warming)
    (existing : Option Nat) : (s.onListenerWarmed listenerTag existing).Inv extra :=
  (h.drainListener existing).keepPhase (phaseOf_drainListener hwarming existing) nofun nofun

theorem Inv.removeListener (h : s.Inv []) (warming active : Option Nat)
    (hgo : ∀ listenerTag ∈ warming, s.phaseOf listenerTag = some .warming →
      s.MayGo [] listenerTag) : (s.removeListener warming active).Inv [] := by
  unfold Threads.removeListener
  apply Inv.drainListener
  cases warming with
  | none => exact h
  | some listenerTag =>
    by_cases hwarming : s.phaseOf listenerTag = some ListenerPhase.warming
    · simp only [hwarming, if_true]
      exact h.destroyWarming hwarming (hgo listenerTag rfl hwarming)
    · simp only [hwarming, if_false]
      exact h

theorem Inv.addCluster (h : s.Inv []) : (s.createOwner none).Inv [] := by
  have hkey : ∀ owner ∈ s.owners, owner.key.isSome = true → owner.key ≠ none := by
    intro owner _ hsome hnone
    rw [hnone] at hsome
    cases hsome
  apply (h.createOwner none hkey).extend
  intro owner howner hsome htag
  obtain hnew := mem_singleton.mp htag
  rcases mem_append.mp howner with hbefore | hlast
  · have hlt := h.fresh owner hbefore
    omega
  · rw [mem_singleton.mp hlast] at hsome
    cases hsome

theorem Inv.removeCluster (h : s.Inv extra) {owner : SlotOwner Key Value}
    (howner : owner ∈ s.owners) (hkey : owner.key.isNone = true) (hidle : ¬ s.IsQueued owner.tag) :
    (s.destroyOwner owner).Inv extra := by
  apply h.destroyOwner howner hidle
  intro hheld
  obtain ⟨listener, hlistener, hholds⟩ := isHeld_iff.mp hheld
  obtain ⟨other, hother, htag, hsome⟩ := h.provided listener hlistener owner.tag hholds
  rw [owner_eq h howner hother htag, Option.isSome_iff_ne_none] at hsome
  exact hsome (Option.isNone_iff_eq_none.mp hkey)

theorem Inv.startWorkers (h : s.Inv extra) :
    ({ s with workersStarted := true } : Threads Key Value).Inv extra := { h with }

theorem Inv.step [DecidableEq Key] [DecidableEq Value] (h : s.Inv []) {e : Event Key Value}
    (hregular : s.Regular e) (hstep : s.step e = some s') : s'.Inv [] := by
  cases e with
  | addOrUpdateListener keys existing refused =>
    cases hstep
    exact h.addOrUpdateListener keys existing refused hregular
  | onListenerWarmed listenerTag existing =>
    obtain ⟨hwarming, rfl⟩ := Option.ite_some_none_eq_some.mp hstep
    exact h.onListenerWarmed hwarming existing
  | removeListener warming active =>
    cases hstep
    exact h.removeListener warming active hregular
  | onDrained listenerTag =>
    obtain ⟨hdraining, rfl⟩ := Option.ite_some_none_eq_some.mp hstep
    exact h.onDrained hdraining
  | addCluster =>
    cases hstep
    exact h.addCluster
  | removeCluster tag =>
    simp only [Threads.step] at hstep
    split at hstep
    · next owner hfind =>
      cases hstep
      obtain ⟨htag, hkey⟩ : owner.tag = tag ∧ owner.key.isNone = true := by
        simpa using find?_some hfind
      exact h.removeCluster (mem_of_find?_eq_some hfind) hkey (htag ▸ hregular)
    · cases hstep
  | update tag value => exact h.updateOwner tag value hregular hstep
  | startWorkers =>
    cases hstep
    exact h.startWorkers
  | runWorker i =>
    obtain ⟨-, hevent⟩ := Option.ite_none_right_eq_some.mp hstep
    exact h.runWorker hevent
  | runPost =>
    simp only [Threads.step] at hstep
    split at hstep
    · cases hstep
    · next listenerTag posts hposts =>
      cases hstep
      exact h.onListenerRemoved hposts

theorem Inv.ownersOutlive (h : s.Inv extra) : s.OwnersOutlive where
  safe := h.safe
  queued := by
    intro worker hworker tag value hvalue
    obtain ⟨front, back, hqueue⟩ := append_of_mem hvalue
    obtain ⟨owner, howner, rfl, -⟩ := (h.workers worker hworker).ready tag front back
      ⟨value, hqueue⟩
    exact ⟨owner, howner, rfl, h.slots owner howner⟩
  delivered := fun worker hworker => (h.workers worker hworker).delivered

/-- In a run in which every destruction leaves the queued updates their owners, and every provider
that posts one is held, owners and slots are there whenever an update runs. -/
theorem run_ownersOutlive [DecidableEq Key] [DecidableEq Value] {concurrency : Nat}
    {events : List (Event Key Value)} (hregular : AllMeet step Regular (create concurrency) events)
    (hrun : run step (create concurrency) events = some s) : s.OwnersOutlive :=
  (run_invariant (fun _ _ _ h => h.step) hregular (inv_create concurrency) hrun).ownersOutlive

def drainedEvents : List (Event Nat Nat) :=
  [.startWorkers, .addOrUpdateListener [0] none false, .onListenerWarmed 0 none, .update 0 7,
    .runWorker 0, .removeListener none (some 0), .onDrained 0, .runWorker 0, .runWorker 0, .runPost]

theorem drainedEvents_regular : AllMeet step Regular (create 1) drainedEvents := by
  refine ⟨trivial, fun _ hstarted => ?_⟩
  cases hstarted
  refine ⟨nofun, fun _ hadded => ?_⟩
  cases hadded
  refine ⟨trivial, fun _ hwarmed => ?_⟩
  cases hwarmed
  have hkept : (ListenerImpl.mk 0 [0] .active).isRemoving = false := rfl
  refine ⟨fun _ _ _ _ _ => ⟨_, mem_cons_self, hkept, mem_cons_self⟩, fun _ hupdated => ?_⟩
  cases hupdated
  refine ⟨trivial, fun _ hran => ?_⟩
  cases hran
  refine ⟨nofun, fun _ hremoved => ?_⟩
  cases hremoved
  exact ⟨trivial, fun _ _ => ⟨trivial, fun _ _ => ⟨trivial, fun _ _ => ⟨trivial, fun _ _ =>
    trivial⟩⟩⟩⟩

theorem run_ownersOutlive_drained :
    ∃ s, run step (create 1) drainedEvents = some s ∧ s.OwnersOutlive :=
  ⟨_, rfl, run_ownersOutlive drainedEvents_regular rfl⟩

/-- A cluster is removed before a worker has run its update. -/
theorem cluster_not_outlives : ¬ ∀ (concurrency : Nat) (events : List (Event Nat Nat))
    (s : Threads Nat Nat), run step (create concurrency) events = some s → s.OwnersOutlive := by
  intro h
  have hsafe := (h 1 [.startWorkers, .addCluster, .update 0 7, .removeCluster 0, .runWorker 0,
    .runWorker 0] _ rfl).safe
  cases hsafe

/-- The same with a provider whose listener never left warming, -/
example : ∃ s : Threads Nat Nat, run step (create 1) [.startWorkers,
    .addOrUpdateListener [0] none false, .update 0 7, .removeListener (some 0) none,
    .runWorker 0, .runWorker 0] = some s ∧ s.failed = true := ⟨_, rfl, rfl⟩

/-- and with one that is updated after the drain sequence of its listener. -/
example : ∃ s : Threads Nat Nat, run step (create 1) [.startWorkers,
    .addOrUpdateListener [0] none false, .onListenerWarmed 0 none, .removeListener none (some 0),
    .onDrained 0, .update 0 7, .runWorker 0, .runWorker 0, .runPost, .runWorker 0] = some s ∧
    s.failed = true := ⟨_, rfl, rfl⟩

end Threads

end Meliproxy.Envoy.ThreadLocal
