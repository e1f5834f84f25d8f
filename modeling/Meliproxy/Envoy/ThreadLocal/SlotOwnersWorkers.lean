import Meliproxy.Envoy.ThreadLocal.SlotOwners

/-!
# What a worker has to do

The tasks of a worker run in the order in which they were posted. So its data is known for the
time when a task will run: each queued update finds the object of its owner, and while a worker has
an update of a provider to run, a listener holds the provider that will not be removed before.
-/

namespace Meliproxy.Envoy.ThreadLocal

open Lib List Function

variable {Key Value : Type}

variable (data : Nat → Option (ThreadLocalObject Value))

def ownersOf (index : Nat) : Option Nat :=
  (data index).map ThreadLocalObject.owner

theorem ownersOf_set (index : Nat)
    (object : Option (ThreadLocalObject Value)) : ownersOf (Function.update data index object) =
      Function.update (ownersOf data) index (object.map ThreadLocalObject.owner) := by
  funext i
  by_cases hi : i = index
  · subst hi
    simp [ownersOf]
  · simp [ownersOf, hi]

variable (owners : Nat → Option Nat)

def placed : Task Value → Nat → Option Nat
  | .setThreadLocal index owner => Function.update owners index (some owner)
  | .clearSlot index => Function.update owners index none
  | _ => owners

def placedBy (tasks : List (Task Value)) : Nat → Option Nat :=
  tasks.foldl placed owners

theorem placedBy_concat (tasks : List (Task Value))
    (task : Task Value) :
    placedBy owners (tasks ++ [task]) = placed (placedBy owners tasks) task := by
  rw [placedBy, foldl_append]
  rfl

/-- A listener holds the provider and will not be removed before these tasks have run. -/
def Waited (listeners : List ListenerImpl) (tasks : List (Task Value)) (tag : Nat) : Prop :=
  ∃ listener ∈ listeners, tag ∈ listener.providers ∧
    (listener.isRemoving = false ∨ .removeListener listener.tag ∈ tasks)

def IsProvider (owners : List (SlotOwner Key Value)) (tag : Nat) : Prop :=
  ∃ owner ∈ owners, owner.tag = tag ∧ owner.key.isSome = true

def WorkerThread.Queued (worker : WorkerThread Value) (tag : Nat)
    (front back : List (Task Value)) : Prop :=
  ∃ value, worker.queue = front ++ .update tag value :: back

variable {tag : Nat} {front back : List (Task Value)}

theorem WorkerThread.Queued.mem {worker : WorkerThread Value} (h : worker.Queued tag front back) :
    ∃ value, Task.update tag value ∈ worker.queue := by
  obtain ⟨value, hqueue⟩ := h
  exact ⟨value, hqueue ▸ mem_append_right _ mem_cons_self⟩

variable {task : Task Value}

theorem WorkerThread.Queued.mem_of_back {worker : WorkerThread Value}
    (h : worker.Queued tag front back) (htask : task ∈ back) : task ∈ worker.queue := by
  obtain ⟨value, hqueue⟩ := h
  rw [hqueue]
  exact mem_append_right _ (mem_cons_of_mem _ htask)

structure WorkerOk (owners : List (SlotOwner Key Value)) (listeners : List ListenerImpl)
    (posted : List (Nat × Value)) (worker : WorkerThread Value) : Prop where
  placed : ∀ owner ∈ owners,
    placedBy (ownersOf worker.data) worker.queue owner.index = some owner.tag
  ready : ∀ tag front back, worker.Queued tag front back → ∃ owner ∈ owners,
    owner.tag = tag ∧ placedBy (ownersOf worker.data) front owner.index = some tag
  waited : ∀ tag front back, worker.Queued tag front back → IsProvider owners tag →
    Waited listeners back tag
  delivered : worker.ran ++ worker.queue.filterMap Task.update? = posted

variable {owners owners' : List (SlotOwner Key Value)} {listeners listeners' : List ListenerImpl}
  {posted : List (Nat × Value)} {worker : WorkerThread Value}

theorem concat_split {α : Type} {queue front back : List α} {task task' : α}
    (h : queue ++ [task] = front ++ task' :: back) : (queue = front ∧ task = task' ∧ back = []) ∨
      ∃ back', back = back' ++ [task] ∧ queue = front ++ task' :: back' := by
  rcases eq_nil_or_concat back with rfl | ⟨back', last, rfl⟩
  · obtain ⟨hfront, htask⟩ := append_inj' h rfl
    exact .inl ⟨hfront, singleton_inj.mp htask, rfl⟩
  · rw [concat_eq_append, ← cons_append, ← append_assoc] at h
    obtain ⟨hqueue, htask⟩ := append_inj' h rfl
    rw [concat_eq_append, singleton_inj.mp htask]
    exact .inr ⟨back', rfl, hqueue⟩

theorem queued_post (h : { worker with queue := worker.queue ++ [task] }.Queued tag front back) :
    (worker.queue = front ∧ back = [] ∧ ∃ value, task = .update tag value) ∨
      ∃ back', back = back' ++ [task] ∧ worker.Queued tag front back' := by
  obtain ⟨value, hqueue⟩ := h
  rcases concat_split hqueue with ⟨hfront, htask, hback⟩ | ⟨back', hback, hqueue⟩
  · exact .inl ⟨hfront, hback, value, htask⟩
  · exact .inr ⟨back', hback, value, hqueue⟩

theorem Waited.concat {tasks : List (Task Value)} (h : Waited listeners tasks tag)
    (task : Task Value) : Waited listeners (tasks ++ [task]) tag := by
  obtain ⟨listener, hmem, hholds, hwait⟩ := h
  exact ⟨listener, hmem, hholds, hwait.imp_right (mem_append_left _)⟩

section

variable (h : WorkerOk owners listeners posted worker)
include h

theorem WorkerOk.post (task : Task Value)
    (htask : task.update? = none) (hplaced : ∀ owner ∈ owners', ThreadLocal.placed
      (placedBy (ownersOf worker.data) worker.queue) task owner.index = some owner.tag)
    (hkept : ∀ tag front back, worker.Queued tag front back → ∀ owner ∈ owners, owner.tag = tag →
      owner ∈ owners')
    (hold : ∀ tag front back, worker.Queued tag front back → IsProvider owners' tag →
      IsProvider owners tag)
    (hwaited : ∀ tag front back, worker.Queued tag front back → Waited listeners back tag →
      Waited listeners' (back ++ [task]) tag) :
    WorkerOk owners' listeners' posted { worker with queue := worker.queue ++ [task] } where
  placed := by
    intro owner howner
    rw [placedBy_concat]
    exact hplaced owner howner
  ready := by
    intro tag front back hqueued
    rcases queued_post hqueued with ⟨_, _, value, rfl⟩ | ⟨back', rfl, hbefore⟩
    · cases htask
    · obtain ⟨owner, howner, htag, hready⟩ := h.ready tag front back' hbefore
      exact ⟨owner, hkept tag front back' hbefore owner howner htag, htag, hready⟩
  waited := by
    intro tag front back hqueued hprovider
    rcases queued_post hqueued with ⟨_, _, value, rfl⟩ | ⟨back', rfl, hbefore⟩
    · cases htask
    · exact hwaited tag front back' hbefore
        (h.waited tag front back' hbefore (hold tag front back' hbefore hprovider))
  delivered := by
    rw [← h.delivered, filterMap_append]
    simp [htask]

theorem WorkerOk.postUpdate {owner : SlotOwner Key Value} (howner : owner ∈ owners) (value : Value)
    (hwaited : IsProvider owners owner.tag → ∃ listener ∈ listeners,
      owner.tag ∈ listener.providers ∧ listener.isRemoving = false) :
    WorkerOk owners listeners (posted ++ [(owner.tag, value)])
      { worker with queue := worker.queue ++ [.update owner.tag value] } where
  placed := by
    intro other hother
    rw [placedBy_concat]
    exact h.placed other hother
  ready := by
    intro tag front back hqueued
    rcases queued_post hqueued with ⟨rfl, -, value', htask⟩ | ⟨back', rfl, hbefore⟩
    · obtain ⟨rfl, -⟩ := Task.update.inj htask
      exact ⟨owner, howner, rfl, h.placed owner howner⟩
    · exact h.ready tag front back' hbefore
  waited := by
    intro tag front back hqueued hprovider
    rcases queued_post hqueued with ⟨rfl, -, value', htask⟩ | ⟨back', rfl, hbefore⟩
    · obtain ⟨rfl, -⟩ := Task.update.inj htask
      obtain ⟨listener, hmem, hholds, hkept⟩ := hwaited hprovider
      exact ⟨listener, hmem, hholds, .inl hkept⟩
    · exact (h.waited tag front back' hbefore hprovider).concat _
  delivered := by
    rw [← h.delivered, filterMap_append, append_assoc]
    rfl

theorem WorkerOk.changeListeners
    (hwaited : ∀ tag front back, worker.Queued tag front back → IsProvider owners tag →
      Waited listeners back tag → Waited listeners' back tag) :
    WorkerOk owners listeners' posted worker :=
  { h with waited := fun tag front back hqueued hprovider =>
    hwaited tag front back hqueued hprovider (h.waited tag front back hqueued hprovider) }

end

variable {data : Nat → Option (ThreadLocalObject Value)}

theorem ownersOf_update {index : Nat} {object object' : ThreadLocalObject Value}
    (h : data index = some object) (howner : object'.owner = object.owner) :
    ownersOf (Function.update data index (some object')) = ownersOf data := by
  rw [ownersOf_set, Option.map_some, howner, update_eq_self_iff, ownersOf, h]
  rfl

theorem WorkerOk.run {queue : List (Task Value)}
    (h : WorkerOk owners listeners posted { worker with queue := task :: queue })
    (hdata : ownersOf data = ThreadLocal.placed (ownersOf worker.data) task) :
    WorkerOk owners listeners posted
      ⟨queue, data, worker.ran ++ task.update?.toList⟩ where
  placed := by
    intro owner howner
    rw [hdata]
    exact h.placed owner howner
  ready := by
    rintro tag front back ⟨value, rfl⟩
    obtain ⟨owner, howner, htag, hready⟩ := h.ready tag (task :: front) back ⟨value, rfl⟩
    rw [hdata]
    exact ⟨owner, howner, htag, hready⟩
  waited := by
    rintro tag front back ⟨value, rfl⟩ hprovider
    exact h.waited tag (task :: front) back ⟨value, rfl⟩ hprovider
  delivered := by
    rw [← h.delivered, append_assoc]
    cases htask : task.update? with
    | none => rw [filterMap_cons_none htask]; rfl
    | some update => rw [filterMap_cons_some htask]; rfl

/-!
## What holds of the owners of slots

Each owner has its slot, on the main thread and on every worker once its tasks have run, and a
listener holds each provider. The removals that the main thread waits for are those that are queued
or posted back. Owners are made, and those that nobody needs are destroyed.
-/

namespace Threads

variable {Key Value : Type}

def isRemoval (listenerTag : Nat) : Task Value → Bool
  | .removeListener tag => tag = listenerTag
  | _ => false

/-- The workers that have a listener to remove, and those that have told the main thread. -/
def removals (s : Threads Key Value) (listenerTag : Nat) : Nat :=
  (s.workers.map fun worker => worker.queue.countP (isRemoval listenerTag)).sum +
    s.posts.count listenerTag

def pendingRemovals (s : Threads Key Value) (listenerTag : Nat) : Nat :=
  match s.phaseOf listenerTag with
  | some (.removing workersPendingRemoval) => workersPendingRemoval
  | _ => 0

/-- The owners in `extra` are providers that a listener is about to hold, or that are about to be
destroyed. -/
structure Inv (extra : List Nat) (s : Threads Key Value) : Prop where
  safe : s.failed = false
  tags : (s.owners.map SlotOwner.tag).Nodup
  fresh : ∀ owner ∈ s.owners, owner.tag < s.nextOwner
  keys : ∀ owner ∈ s.owners, ∀ other ∈ s.owners, owner.key.isSome = true →
    owner.key = other.key → owner = other
  slots : ∀ owner ∈ s.owners, s.slots[owner.index]? = some (some owner.tag)
  main : ∀ owner ∈ s.owners, ownersOf s.mainData owner.index = some owner.tag
  listenerTags : (s.listeners.map ListenerImpl.tag).Nodup
  freshListeners : ∀ listener ∈ s.listeners, listener.tag < s.nextListener
  provided : ∀ listener ∈ s.listeners, ∀ tag ∈ listener.providers, IsProvider s.owners tag
  held : ∀ owner ∈ s.owners, owner.key.isSome = true →
    s.isHeld owner.tag = true ∨ owner.tag ∈ extra
  removals : ∀ listenerTag, s.pendingRemovals listenerTag = s.removals listenerTag
  workers : ∀ worker ∈ s.workers, WorkerOk s.owners s.listeners s.posted worker

variable {s : Threads Key Value} {extra extra' : List Nat}

theorem inv_create (concurrency : Nat) : (create concurrency : Threads Key Value).Inv [] where
  safe := rfl
  tags := nodup_nil
  fresh := nofun
  keys := nofun
  slots := nofun
  main := nofun
  listenerTags := nodup_nil
  freshListeners := nofun
  provided := nofun
  held := nofun
  removals := by
    intro listenerTag
    simp [removals, pendingRemovals, phaseOf, create]
  workers := by
    intro worker hworker
    obtain rfl := eq_of_mem_replicate hworker
    refine ⟨nofun, ?_, ?_, rfl⟩
    · rintro tag front back ⟨value, hqueue⟩
      simp at hqueue
    · rintro tag front back ⟨value, hqueue⟩
      simp at hqueue

theorem find_of_nodup {α : Type} {f : α → Nat} {l : List α} (h : (l.map f).Nodup) {a : α}
    (ha : a ∈ l) : l.find? (fun b => f b = f a) = some a := by
  cases hfind : l.find? (fun b => f b = f a) with
  | none => exact absurd (find?_eq_none.mp hfind a ha) (by simp)
  | some b =>
    have hsame : f b = f a := by simpa using find?_some hfind
    rw [inj_on_of_nodup_map h (mem_of_find?_eq_some hfind) ha hsame]

variable {owner other : SlotOwner Key Value}

theorem owner_eq (h : s.Inv extra) (howner : owner ∈ s.owners) (hother : other ∈ s.owners)
    (htag : other.tag = owner.tag) : other = owner := inj_on_of_nodup_map h.tags hother howner htag

theorem find_owner (h : s.Inv extra) (howner : owner ∈ s.owners) :
    s.owners.find? (fun other => other.tag = owner.tag) = some owner := find_of_nodup h.tags howner

theorem isHeld_iff {tag : Nat} :
    s.isHeld tag = true ↔ ∃ listener ∈ s.listeners, tag ∈ listener.providers := by
  simp [isHeld]

theorem Inv.extend (h : s.Inv extra) (hextra : ∀ owner ∈ s.owners, owner.key.isSome = true →
    owner.tag ∈ extra → owner.tag ∈ extra') : s.Inv extra' :=
  { h with
    held := fun owner howner hkey =>
      (h.held owner howner hkey).imp_right (hextra owner howner hkey) }

theorem freeIndex_ne (h : s.Inv extra) (howner : owner ∈ s.owners) : owner.index ≠ s.freeIndex := by
  intro hindex
  have hslot := h.slots owner howner
  obtain ⟨hlt, hget⟩ := List.getElem?_eq_some_iff.mp hslot
  simp only [hindex, freeIndex] at hlt hget
  have hfree := findIdx_getElem (w := hlt)
  rw [hget] at hfree
  cases hfree

theorem removals_pos {worker : WorkerThread Value} {listenerTag : Nat}
    (hworker : worker ∈ s.workers) (htask : .removeListener listenerTag ∈ worker.queue) :
    0 < s.removals listenerTag := by
  apply Nat.lt_of_lt_of_le _ (Nat.le_add_right _ _)
  rw [List.sum_pos_iff_exists_pos_nat]
  refine ⟨_, mem_map_of_mem hworker, ?_⟩
  rw [countP_pos_iff]
  exact ⟨_, htask, by simp [isRemoval]⟩

variable (s)

theorem removals_post (task : Task Value) (listenerTag : Nat) : (s.post task).removals listenerTag =
      s.removals listenerTag + if isRemoval listenerTag task then s.workers.length else 0 := by
  have hsum (workers : List (WorkerThread Value)) :
      ((workers.map fun worker => { worker with queue := worker.queue ++ [task] }).map fun worker =>
        worker.queue.countP (isRemoval listenerTag)).sum =
      (workers.map fun worker => worker.queue.countP (isRemoval listenerTag)).sum +
        if isRemoval listenerTag task then workers.length else 0 := by
    induction workers with
    | nil => simp
    | cons worker workers ih =>
      simp only [map_cons, sum_cons, countP_append, countP_singleton, ih, length_cons]
      split <;> omega
  simp only [removals, post, hsum]
  omega

variable (key : Option Key)

theorem removals_createOwner (listenerTag : Nat) :
    (s.createOwner key).removals listenerTag = s.removals listenerTag := by
  simp only [createOwner, removals_post, isRemoval, Bool.false_eq_true, if_false]
  rfl

theorem removals_destroyOwner (owner : SlotOwner Key Value)
    (listenerTag : Nat) : (s.destroyOwner owner).removals listenerTag = s.removals listenerTag := by
  simp only [destroyOwner, removals_post, isRemoval, Bool.false_eq_true, if_false]
  rfl

theorem createOwner_slots_new :
    (s.createOwner key).slots[s.freeIndex]? = some (some s.nextOwner) := by
  change (if s.freeIndex < s.slots.length then s.slots.set s.freeIndex (some s.nextOwner)
    else s.slots ++ [some s.nextOwner])[s.freeIndex]? = _
  by_cases hlt : s.freeIndex < s.slots.length
  · rw [if_pos hlt, getElem?_set_self hlt]
  · have hlength : s.freeIndex = s.slots.length :=
      Nat.le_antisymm findIdx_le_length (Nat.le_of_not_lt hlt)
    rw [if_neg hlt, hlength, getElem?_concat_length]

theorem createOwner_slots_ne {index : Nat}
    (h : index ≠ s.freeIndex) : (s.createOwner key).slots[index]? = s.slots[index]? := by
  change (if s.freeIndex < s.slots.length then s.slots.set s.freeIndex (some s.nextOwner)
    else s.slots ++ [some s.nextOwner])[index]? = _
  by_cases hlt : s.freeIndex < s.slots.length
  · rw [if_pos hlt, getElem?_set_ne h.symm]
  · have hlength : s.freeIndex = s.slots.length :=
      Nat.le_antisymm findIdx_le_length (Nat.le_of_not_lt hlt)
    rw [if_neg hlt]
    by_cases hindex : index < s.slots.length
    · exact getElem?_append_left hindex
    · rw [getElem?_eq_none (by rw [length_append, length_singleton]; omega),
        getElem?_eq_none (Nat.le_of_not_lt hindex)]

variable {s}

theorem Inv.createOwner (h : s.Inv extra) (key : Option Key)
    (hkey : ∀ owner ∈ s.owners, owner.key.isSome = true → owner.key ≠ key) :
    (s.createOwner key).Inv (s.nextOwner :: extra) := by
  have hmem {owner : SlotOwner Key Value} (howner : owner ∈ (s.createOwner key).owners) :
      owner ∈ s.owners ∨ owner = ⟨s.nextOwner, key, s.freeIndex, none⟩ :=
    (mem_append.mp howner).imp_right mem_singleton.mp
  have hnew : s.nextOwner ∉ s.owners.map SlotOwner.tag := by
    intro hmem
    obtain ⟨owner, howner, htag⟩ := mem_map.mp hmem
    have hlt := h.fresh owner howner
    omega
  have hmain (index : Nat) : ownersOf (s.createOwner key).mainData index =
      Function.update (ownersOf s.mainData) s.freeIndex (some s.nextOwner) index :=
    congrFun (ownersOf_set s.mainData s.freeIndex _) index
  constructor
  · exact h.safe
  · change ((s.owners ++ [_]).map SlotOwner.tag).Nodup
    rw [map_append]
    refine List.nodup_append.mpr ⟨h.tags, nodup_singleton _, ?_⟩
    rintro tag htag _ hlast rfl
    obtain rfl := mem_singleton.mp hlast
    exact hnew htag
  · intro owner howner
    change owner.tag < s.nextOwner + 1
    rcases hmem howner with howner | rfl
    · have hlt := h.fresh owner howner
      omega
    · exact Nat.lt_succ_self _
  · intro owner howner other hother hsome hsame
    rcases hmem howner with howner | rfl
    · rcases hmem hother with hother | rfl
      · exact h.keys owner howner other hother hsome hsame
      · exact absurd hsame (hkey owner howner hsome)
    · rcases hmem hother with hother | rfl
      · exact absurd hsame.symm (hkey other hother (hsame ▸ hsome))
      · rfl
  · intro owner howner
    rcases hmem howner with howner | rfl
    · exact (createOwner_slots_ne s key (freeIndex_ne h howner)).trans (h.slots owner howner)
    · exact createOwner_slots_new s key
  · intro owner howner
    rcases hmem howner with howner | rfl
    · exact (hmain owner.index).trans
        ((update_of_ne (freeIndex_ne h howner) _ _).trans (h.main owner howner))
    · exact (hmain s.freeIndex).trans (update_self _ _ _)
  · exact h.listenerTags
  · exact h.freshListeners
  · intro listener hlistener tag htag
    obtain ⟨owner, howner, hprovider⟩ := h.provided listener hlistener tag htag
    exact ⟨owner, mem_append_left _ howner, hprovider⟩
  · intro owner howner hsome
    rcases hmem howner with howner | rfl
    · exact (h.held owner howner hsome).imp_right (mem_cons_of_mem _)
    · exact .inr mem_cons_self
  · intro listenerTag
    exact (h.removals listenerTag).trans (removals_createOwner s key listenerTag).symm
  · intro worker hworker
    obtain ⟨worker, hbefore, rfl⟩ := mem_map.mp hworker
    have hok := h.workers worker hbefore
    apply hok.post _ rfl
    · intro owner howner
      rcases hmem howner with howner | rfl
      · exact (update_of_ne (freeIndex_ne h howner) _ _).trans (hok.placed owner howner)
      · exact update_self _ _ _
    · exact fun tag front back _ owner howner _ => mem_append_left _ howner
    · rintro tag front back hqueued ⟨owner, howner, rfl, hprovider⟩
      rcases hmem howner with howner | rfl
      · exact ⟨owner, howner, rfl, hprovider⟩
      · obtain ⟨other, hother, htag, -⟩ := hok.ready _ front back hqueued
        exact absurd (mem_map.mpr ⟨other, hother, htag⟩) hnew
    · exact fun tag front back _ hwaited => hwaited.concat _

theorem mem_destroyOwner :
    other ∈ (s.destroyOwner owner).owners ↔ other ∈ s.owners ∧ other.tag ≠ owner.tag := by
  change other ∈ s.owners.filter _ ↔ _
  rw [mem_filter, decide_eq_true_iff]

theorem index_ne (h : s.Inv extra) (howner : owner ∈ s.owners) (hother : other ∈ s.owners)
    (htag : other.tag ≠ owner.tag) : other.index ≠ owner.index := by
  intro hindex
  have hslot := h.slots other hother
  rw [hindex, h.slots owner howner] at hslot
  exact htag (Option.some.inj (Option.some.inj hslot)).symm

theorem Inv.destroyOwner (h : s.Inv extra) (howner : owner ∈ s.owners)
    (hidle : ¬ s.IsQueued owner.tag) (hfree : ¬ s.isHeld owner.tag = true) :
    (s.destroyOwner owner).Inv extra := by
  have hmain (index : Nat) : ownersOf (s.destroyOwner owner).mainData index =
      Function.update (ownersOf s.mainData) owner.index none index :=
    congrFun (ownersOf_set s.mainData owner.index none) index
  constructor
  · exact h.safe
  · exact h.tags.sublist (filter_sublist.map _)
  · intro other hother
    exact h.fresh other (mem_destroyOwner.mp hother).1
  · intro one hone other hother hsome hsame
    exact h.keys one (mem_destroyOwner.mp hone).1 other (mem_destroyOwner.mp hother).1 hsome hsame
  · intro other hother
    obtain ⟨hbefore, htag⟩ := mem_destroyOwner.mp hother
    exact (getElem?_set_ne (index_ne h howner hbefore htag).symm).trans
      (h.slots other hbefore)
  · intro other hother
    obtain ⟨hbefore, htag⟩ := mem_destroyOwner.mp hother
    exact (hmain other.index).trans
      ((update_of_ne (index_ne h howner hbefore htag) _ _).trans (h.main other hbefore))
  · exact h.listenerTags
  · exact h.freshListeners
  · intro listener hlistener tag htag
    obtain ⟨other, hother, hsame, hkey⟩ := h.provided listener hlistener tag htag
    refine ⟨other, mem_destroyOwner.mpr ⟨hother, ?_⟩, hsame, hkey⟩
    intro heq
    exact hfree (isHeld_iff.mpr ⟨listener, hlistener, by rwa [← heq, hsame]⟩)
  · intro other hother hsome
    exact h.held other (mem_destroyOwner.mp hother).1 hsome
  · intro listenerTag
    exact (h.removals listenerTag).trans (removals_destroyOwner s owner listenerTag).symm
  · intro worker hworker
    obtain ⟨worker, hbefore, rfl⟩ := mem_map.mp hworker
    have hok := h.workers worker hbefore
    apply hok.post _ rfl
    · intro other hother
      obtain ⟨hmem, htag⟩ := mem_destroyOwner.mp hother
      exact (update_of_ne (index_ne h howner hmem htag) _ _).trans (hok.placed other hmem)
    · rintro tag front back hqueued other hother rfl
      refine mem_destroyOwner.mpr ⟨hother, fun heq => hidle ?_⟩
      obtain ⟨value, hvalue⟩ := hqueued.mem
      exact ⟨worker, hbefore, value, heq ▸ hvalue⟩
    · rintro tag front back hqueued ⟨other, hother, hprovider⟩
      exact ⟨other, (mem_destroyOwner.mp hother).1, hprovider⟩
    · exact fun tag front back _ hwaited => hwaited.concat _

theorem Inv.destroyOwners {owners : List (SlotOwner Key Value)}
    (howners : owners.Pairwise fun owner other => owner.tag ≠ other.tag) (h : s.Inv extra)
    (hall : ∀ owner ∈ owners, owner ∈ s.owners ∧ ¬ s.IsQueued owner.tag ∧
      ¬ s.isHeld owner.tag = true) : (owners.foldl Threads.destroyOwner s).Inv extra ∧ ∀ other ∈
      (owners.foldl Threads.destroyOwner s).owners, other ∈ s.owners ∧ ∀ owner ∈ owners,
        other.tag ≠ owner.tag := by
  induction owners generalizing s with
  | nil => exact ⟨h, fun other hother => ⟨hother, nofun⟩⟩
  | cons owner owners ih =>
    obtain ⟨howner, hidle, hfree⟩ := hall owner mem_cons_self
    obtain ⟨hne, hrest⟩ := pairwise_cons.mp howners
    have hafter : ∀ other ∈ owners, other ∈ (s.destroyOwner owner).owners ∧
        ¬ (s.destroyOwner owner).IsQueued other.tag ∧ ¬ s.isHeld other.tag = true := by
      intro other hother
      obtain ⟨hmem, hidle, hfree⟩ := hall other (mem_cons_of_mem owner hother)
      refine ⟨mem_destroyOwner.mpr ⟨hmem, (hne other hother).symm⟩, ?_, hfree⟩
      rintro ⟨_, hworker, value, hvalue⟩
      obtain ⟨worker, hbefore, rfl⟩ := mem_map.mp hworker
      rcases mem_append.mp hvalue with hvalue | hvalue
      · exact hidle ⟨worker, hbefore, value, hvalue⟩
      · cases mem_singleton.mp hvalue
    obtain ⟨hinv, hleft⟩ := ih hrest (h.destroyOwner howner hidle hfree) hafter
    refine ⟨hinv, fun other hother => ?_⟩
    obtain ⟨hmem, htags⟩ := hleft other hother
    obtain ⟨hbefore, htag⟩ := mem_destroyOwner.mp hmem
    exact ⟨hbefore, forall_mem_cons.mpr ⟨htag, htags⟩⟩

end Threads

end Meliproxy.Envoy.ThreadLocal
