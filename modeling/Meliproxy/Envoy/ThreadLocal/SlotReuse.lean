import Meliproxy.Lib.Runs

/-!
# Slots of thread-local data

`common/thread_local/thread_local_impl.cc`. A thread is a worker or the main thread, which is `none`
and runs at once what the workers get by `post`. An index is free again as soon as its slot is
destroyed on the main thread, while the workers still have the object of that slot.
-/

namespace Meliproxy.Envoy.ThreadLocal.SlotReuse

open Lib List Function

structure SlotImpl where
  id : Nat
  index : Nat
  deriving DecidableEq

variable {Worker Object : Type}

abbrev InitializeCb (Worker Object : Type) := Option Worker → Object

/-- `thread_local_data_`, which has null pointers. -/
abbrev ThreadLocalData (Object : Type) := List (Option Object)

def setThreadLocal (data : ThreadLocalData Object) (index : Nat) (object : Object) :
    ThreadLocalData Object :=
  let data := if data.length ≤ index then data ++ List.replicate (index + 1 - data.length) none
    else data
  data.set index (some object)

/-- The closures of `set` and `removeSlot`, and one that reads a slot. `expected` is what the slot
was last set to when that one was posted. -/
inductive Task (Worker Object : Type) where
  | setThreadLocal (index : Nat) (cb : InitializeCb Worker Object)
  | clear (index : Nat)
  | read (index : Nat) (expected : Option (InitializeCb Worker Object))

def Task.run (thread : Option Worker) (data : ThreadLocalData Object) :
    Task Worker Object → ThreadLocalData Object
  | .setThreadLocal index cb => SlotReuse.setThreadLocal data index (cb thread)
  | .clear index => if index < data.length then data.set index none else data
  | .read _ _ => data

/-- A read of a closure: nothing where there is no entry, and a null pointer may be there. -/
structure Read (Worker Object : Type) where
  thread : Option Worker
  object : Option (Option Object)
  expected : Option (InitializeCb Worker Object)

def Task.read? (thread : Option Worker) (data : ThreadLocalData Object) :
    Task Worker Object → List (Read Worker Object)
  | .read index expected => [⟨thread, data[index]?, expected⟩]
  | _ => []

/-- `slots` has the pointers of `slots_`, and `live` the slots that are not destroyed. `lastSet` and
`reads` are a history. -/
structure Instance (Worker Object : Type) where
  slots : List (Option SlotImpl)
  live : List SlotImpl
  nextId : Nat
  mainData : ThreadLocalData Object
  data : Worker → ThreadLocalData Object
  queue : Worker → List (Task Worker Object)
  lastSet : SlotImpl → Option (InitializeCb Worker Object)
  reads : List (Read Worker Object)

def start : Instance Worker Object :=
  ⟨[], [], 0, [], fun _ => [], fun _ => [], fun _ => none, []⟩

variable (s : Instance Worker Object)

def runOnAllThreads (task : Task Worker Object) : Instance Worker Object :=
  { s with queue := fun worker => s.queue worker ++ [task],
           mainData := task.run none s.mainData,
           reads := s.reads ++ task.read? none s.mainData }

def allocateSlot : Instance Worker Object :=
  match s.slots.findIdx? (· = none) with
  | some i =>
    { s with slots := s.slots.set i (some ⟨s.nextId, i⟩), live := ⟨s.nextId, i⟩ :: s.live,
             nextId := s.nextId + 1 }
  | none =>
    { s with slots := s.slots ++ [some ⟨s.nextId, s.slots.length⟩],
             live := ⟨s.nextId, s.slots.length⟩ :: s.live, nextId := s.nextId + 1 }

def set (slot : SlotImpl) (cb : InitializeCb Worker Object) : Instance Worker Object :=
  { runOnAllThreads s (.setThreadLocal slot.index cb) with
    lastSet := Function.update s.lastSet slot (some cb) }

def removeSlot (slot : SlotImpl) : Instance Worker Object :=
  runOnAllThreads { s with slots := s.slots.set slot.index none, live := s.live.erase slot }
    (.clear slot.index)

inductive Event (Worker Object : Type) where
  | allocateSlot
  | set (slot : SlotImpl) (cb : InitializeCb Worker Object)
  | runOnAllThreads (slot : SlotImpl)
  | destroySlot (slot : SlotImpl)
  | deliver (worker : Worker)

def deliver [DecidableEq Worker] (s : Instance Worker Object) (worker : Worker) :
    Option (Instance Worker Object) :=
  match s.queue worker with
  | [] => none
  | task :: queue =>
    some { s with queue := Function.update s.queue worker queue,
                  data := Function.update s.data worker (task.run (some worker) (s.data worker)),
                  reads := s.reads ++ task.read? (some worker) (s.data worker) }

def step [DecidableEq Worker] (s : Instance Worker Object) :
    Event Worker Object → Option (Instance Worker Object)
  | .allocateSlot => some (allocateSlot s)
  | .set slot cb => if slot ∈ s.live then some (set s slot cb) else none
  | .runOnAllThreads slot =>
    if slot ∈ s.live then some (runOnAllThreads s (.read slot.index (s.lastSet slot))) else none
  | .destroySlot slot => if slot ∈ s.live then some (removeSlot s slot) else none
  | .deliver worker => deliver s worker

/-- A closure posted after the slot was set reads the object that it was set to for that thread. -/
def Correct : Prop :=
  ∀ r ∈ s.reads, ∀ cb, r.expected = some cb → r.object = some (some (cb r.thread))

section Cells

variable {data : ThreadLocalData Object} {index i : Nat} {cell : Option Object}

theorem getElem?_setThreadLocal (data : ThreadLocalData Object) (index : Nat) (object : Object) :
    (setThreadLocal data index object)[index]? = some (some object) := by
  rw [setThreadLocal]
  apply getElem?_set_self
  split
  · rw [length_append, length_replicate]
    omega
  · omega

theorem getElem?_setThreadLocal_of_ne (hne : i ≠ index) (h : data[i]? = some cell)
    (object : Object) : (setThreadLocal data index object)[i]? = some cell := by
  rw [setThreadLocal, getElem?_set_ne (Ne.symm hne)]
  split
  · obtain ⟨hlt, -⟩ := List.getElem?_eq_some_iff.mp h
    rw [getElem?_append_left hlt]
    exact h
  · exact h

theorem getElem?_clear_of_ne (hne : i ≠ index) (h : data[i]? = some cell) (thread : Option Worker) :
    ((Task.clear index : Task Worker Object).run thread data)[i]? = some cell := by
  rw [Task.run]
  split
  · rw [getElem?_set_ne (Ne.symm hne)]
    exact h
  · exact h

end Cells

def HasObjects (thread : Option Worker) (data : ThreadLocalData Object) (live : List SlotImpl)
    (lastSet : SlotImpl → Option (InitializeCb Worker Object)) : Prop :=
  ∀ slot ∈ live, ∀ cb, lastSet slot = some cb → data[slot.index]? = some (some (cb thread))

/-- Each slot has an index of its own, whose pointer is to it. -/
structure Slots (s : Instance Worker Object) : Prop where
  pointers : ∀ slot ∈ s.live, s.slots[slot.index]? = some (some slot)
  nodup : s.live.Nodup
  fresh : ∀ slot ∈ s.live, slot.id < s.nextId
  unset : ∀ slot, s.nextId ≤ slot.id → s.lastSet slot = none

/-- What a thread has, or will have when it has run what is posted, are the objects of the slots
that are set, and the closures in between find those from when they were posted. -/
structure Threads (s : Instance Worker Object) (live : List SlotImpl)
    (lastSet : SlotImpl → Option (InitializeCb Worker Object)) : Prop where
  main : HasObjects none s.mainData live lastSet
  workers : ∀ worker, HasObjects (some worker)
    ((s.queue worker).foldl (Task.run (some worker)) (s.data worker)) live lastSet
  pending : ∀ worker before index cb after,
    s.queue worker = before ++ .read index (some cb) :: after →
      (before.foldl (Task.run (some worker)) (s.data worker))[index]? =
        some (some (cb (some worker)))
  correct : Correct s

def Holds : Prop := Slots s ∧ Threads s s.live s.lastSet

section Invariant

variable {s s' : Instance Worker Object} {slot other : SlotImpl} {live : List SlotImpl}
  {lastSet : SlotImpl → Option (InitializeCb Worker Object)}

theorem holds_start : Holds (start : Instance Worker Object) := by
  refine ⟨⟨nofun, nodup_nil, nofun, fun _ _ => rfl⟩, nofun, fun _ => nofun, ?_, nofun⟩
  intro worker before index cb after h
  exact absurd h.symm (append_ne_nil_of_right_ne_nil before (cons_ne_nil _ _))

theorem Slots.index_ne (h : Slots s) (hslot : slot ∈ s.live) (hother : other ∈ s.live)
    (hne : other ≠ slot) : other.index ≠ slot.index := by
  intro heq
  have hpointer := h.pointers other hother
  rw [heq, h.pointers slot hslot] at hpointer
  exact hne (Option.some.inj (Option.some.inj hpointer)).symm

theorem Threads.post (h : Threads s live lastSet) (task : Task Worker Object)
    (live' : List SlotImpl) (lastSet' : SlotImpl → Option (InitializeCb Worker Object))
    (hkeeps : ∀ thread data, HasObjects thread data live lastSet →
      HasObjects thread (task.run thread data) live' lastSet')
    (hread : ∀ thread data, HasObjects thread data live lastSet → ∀ index cb,
      task = .read index (some cb) → data[index]? = some (some (cb thread))) :
    Threads (runOnAllThreads s task) live' lastSet' where
  main := hkeeps none _ h.main
  workers := by
    intro worker
    change HasObjects (some worker)
      ((s.queue worker ++ [task]).foldl (Task.run (some worker)) (s.data worker)) live' lastSet'
    rw [foldl_append]
    exact hkeeps (some worker) _ (h.workers worker)
  pending := by
    intro worker before index cb after hqueue
    have hlast (hall : before = s.queue worker) (htask : task = .read index (some cb)) :
        (before.foldl (Task.run (some worker)) (s.data worker))[index]? =
          some (some (cb (some worker))) := by
      rw [hall]
      exact hread (some worker) _ (h.workers worker) index cb htask
    rcases append_eq_append_iff.mp hqueue with ⟨rest, hbefore, hrest⟩ | ⟨rest, hold, hrest⟩
    · cases rest with
      | nil => exact hlast (by rw [hbefore, append_nil]) (List.cons.inj hrest).1
      | cons first rest =>
        exact absurd (List.cons.inj hrest).2.symm
          (append_ne_nil_of_right_ne_nil rest (cons_ne_nil _ _))
    · cases rest with
      | nil => exact hlast (by rw [hold, append_nil]) (List.cons.inj hrest).1.symm
      | cons first rest =>
        obtain ⟨rfl, -⟩ := List.cons.inj hrest
        exact h.pending worker before index cb rest hold
  correct := by
    intro r hr cb hexpected
    rcases mem_append.mp hr with hr | hr
    · exact h.correct r hr cb hexpected
    · cases task with
      | read index expected =>
        obtain rfl := mem_singleton.mp hr
        exact hread none _ h.main index cb (congrArg _ hexpected)
      | setThreadLocal | clear => cases hr

theorem Holds.set (h : Holds s) (hslot : slot ∈ s.live) (cb : InitializeCb Worker Object) :
    Holds (set s slot cb) := by
  obtain ⟨hslots, hthreads⟩ := h
  refine ⟨{ hslots with unset := ?_ }, ?_⟩
  · intro other hother
    have hne : other ≠ slot := by
      rintro rfl
      exact absurd (hslots.fresh other hslot) (Nat.not_lt_of_le hother)
    change Function.update s.lastSet slot (some cb) other = none
    rw [update_of_ne hne]
    exact hslots.unset other hother
  · have hpost := hthreads.post (.setThreadLocal slot.index cb) s.live
      (Function.update s.lastSet slot (some cb)) ?_ nofun
    · exact { hpost with }
    · intro thread data hdata other hother cb' hcb'
      by_cases heq : other = slot
      · rw [heq, update_self] at hcb'
        rw [heq, ← Option.some.inj hcb']
        exact getElem?_setThreadLocal data slot.index (cb thread)
      · rw [update_of_ne heq] at hcb'
        exact getElem?_setThreadLocal_of_ne (hslots.index_ne hslot hother heq)
          (hdata other hother cb' hcb') (cb thread)

theorem Holds.runOnAllThreads (h : Holds s) (hslot : slot ∈ s.live) :
    Holds (runOnAllThreads s (.read slot.index (s.lastSet slot))) := by
  obtain ⟨hslots, hthreads⟩ := h
  refine ⟨{ hslots with }, ?_⟩
  apply hthreads.post
  · exact fun thread data hdata => hdata
  · intro thread data hdata index cb hread
    obtain ⟨rfl, hcb⟩ := Task.read.inj hread
    exact hdata slot hslot cb hcb

theorem Holds.removeSlot (h : Holds s) (hslot : slot ∈ s.live) : Holds (removeSlot s slot) := by
  obtain ⟨hslots, hthreads⟩ := h
  have hne : ∀ other ∈ s.live.erase slot, other ∈ s.live ∧ other.index ≠ slot.index := by
    intro other hother
    obtain ⟨hneq, hmem⟩ := hslots.nodup.mem_erase_iff.mp hother
    exact ⟨hmem, hslots.index_ne hslot hmem hneq⟩
  refine ⟨⟨?_, hslots.nodup.erase slot, ?_, hslots.unset⟩, ?_⟩
  · intro other hother
    obtain ⟨hmem, hindex⟩ := hne other hother
    change (s.slots.set slot.index none)[other.index]? = some (some other)
    rw [getElem?_set_ne (Ne.symm hindex)]
    exact hslots.pointers other hmem
  · exact fun other hother => hslots.fresh other (hne other hother).1
  · have hpost := hthreads.post (.clear slot.index) (s.live.erase slot) s.lastSet ?_ nofun
    · exact { hpost with }
    · intro thread data hdata other hother cb hcb
      obtain ⟨hmem, hindex⟩ := hne other hother
      exact getElem?_clear_of_ne hindex (hdata other hmem cb hcb) thread

theorem Holds.add (h : Holds s) {slots : List (Option SlotImpl)} {index : Nat}
    (hnew : slots[index]? = some (some ⟨s.nextId, index⟩))
    (hold : ∀ slot ∈ s.live, slots[slot.index]? = s.slots[slot.index]?) :
    Holds { s with slots := slots, live := ⟨s.nextId, index⟩ :: s.live,
                   nextId := s.nextId + 1 } := by
  obtain ⟨hslots, hthreads⟩ := h
  have hfresh : ⟨s.nextId, index⟩ ∉ s.live :=
    fun hmem => Nat.lt_irrefl _ (hslots.fresh _ hmem)
  have hobjects (thread : Option Worker) (data : ThreadLocalData Object)
      (hdata : HasObjects thread data s.live s.lastSet) :
      HasObjects thread data (⟨s.nextId, index⟩ :: s.live) s.lastSet := by
    intro slot hslot cb hcb
    rcases mem_cons.mp hslot with rfl | hslot
    · rw [hslots.unset _ (Nat.le_refl _)] at hcb
      cases hcb
    · exact hdata slot hslot cb hcb
  refine ⟨⟨?_, nodup_cons.mpr ⟨hfresh, hslots.nodup⟩, ?_, ?_⟩, hobjects _ _ hthreads.main,
    fun worker => hobjects _ _ (hthreads.workers worker), hthreads.pending, hthreads.correct⟩
  · intro slot hslot
    rcases mem_cons.mp hslot with rfl | hslot
    · exact hnew
    · change slots[slot.index]? = some (some slot)
      rw [hold slot hslot]
      exact hslots.pointers slot hslot
  · intro slot hslot
    rcases mem_cons.mp hslot with rfl | hslot
    · exact Nat.lt_succ_self _
    · exact Nat.lt_succ_of_lt (hslots.fresh slot hslot)
  · exact fun slot hid => hslots.unset slot (Nat.le_of_succ_le hid)

theorem Holds.allocateSlot (h : Holds s) : Holds (allocateSlot s) := by
  rw [SlotReuse.allocateSlot]
  split
  · rename_i i hfind
    obtain ⟨hlt, hnone, -⟩ := findIdx?_eq_some_iff_getElem.mp hfind
    apply h.add
    · exact getElem?_set_self hlt
    · intro slot hslot
      apply getElem?_set_ne
      rintro rfl
      have hpointer := h.1.pointers slot hslot
      rw [getElem?_eq_getElem hlt, of_decide_eq_true hnone] at hpointer
      cases hpointer
  · apply h.add
    · exact getElem?_concat_length
    · intro slot hslot
      obtain ⟨hlt, -⟩ := List.getElem?_eq_some_iff.mp (h.1.pointers slot hslot)
      exact getElem?_append_left hlt

variable [DecidableEq Worker]

theorem Holds.deliver (h : Holds s) {worker : Worker} (hstep : deliver s worker = some s') :
    Holds s' := by
  obtain ⟨hslots, hthreads⟩ := h
  rw [SlotReuse.deliver] at hstep
  split at hstep
  · cases hstep
  rename_i task queue hqueue
  cases hstep
  refine ⟨{ hslots with }, hthreads.main, ?_, ?_, ?_⟩
  · intro other
    by_cases heq : other = worker
    · have hall := hthreads.workers worker
      rw [hqueue] at hall
      simp only [heq, update_self]
      exact hall
    · simp only [update_of_ne heq]
      exact hthreads.workers other
  · intro other before index cb after hbefore
    by_cases heq : other = worker
    · simp only [heq, update_self] at hbefore ⊢
      exact hthreads.pending worker (task :: before) index cb after (by rw [hqueue, hbefore]; rfl)
    · simp only [update_of_ne heq] at hbefore ⊢
      exact hthreads.pending other before index cb after hbefore
  · intro r hr cb hexpected
    rcases mem_append.mp hr with hr | hr
    · exact hthreads.correct r hr cb hexpected
    · cases task with
      | read index expected =>
        obtain rfl := mem_singleton.mp hr
        obtain rfl : expected = some cb := hexpected
        exact hthreads.pending worker [] index cb queue hqueue
      | setThreadLocal | clear => cases hr

theorem Holds.step {e : Event Worker Object} (h : Holds s) (hstep : step s e = some s') :
    Holds s' := by
  cases e with
  | allocateSlot =>
    cases hstep
    exact h.allocateSlot
  | set slot cb =>
    rw [SlotReuse.step] at hstep
    split at hstep
    · rename_i hslot
      cases hstep
      exact h.set hslot cb
    · cases hstep
  | runOnAllThreads slot =>
    rw [SlotReuse.step] at hstep
    split at hstep
    · rename_i hslot
      cases hstep
      exact h.runOnAllThreads hslot
    · cases hstep
  | destroySlot slot =>
    rw [SlotReuse.step] at hstep
    split at hstep
    · rename_i hslot
      cases hstep
      exact h.removeSlot hslot
    · cases hstep
  | deliver worker => exact h.deliver hstep

end Invariant

end Meliproxy.Envoy.ThreadLocal.SlotReuse
