import Meliproxy.Envoy.Server.ListenerRuns

/-!
# Which listeners a step keeps

`Kept` says that a step brings no listener, and no warming one before the workers have started.
Until then a step that is no update does not let go of a listener either, which is `Holds`.
-/

namespace Meliproxy.Envoy.Server.ListenerManager

open Lib List

variable {Name Address Body : Type} {s s' s'' : ListenerManager Name Address Body}
  {existing : Option (ListenerImpl Name Address Body)} {tasks : List Task}

structure Kept (s s' : ListenerManager Name Address Body) : Prop where
  next : s'.nextListenerTag = s.nextListenerTag
  listeners : ∀ listener ∈ s'.listeners, ∃ old ∈ s.listeners,
    old.listenerTag = listener.listenerTag
  warming : s.warming = [] → s'.warming = []
  named : s.Named → s'.Named

def Holds (s s' : ListenerManager Name Address Body) : Prop :=
  ∀ listener ∈ s.listeners, ∃ after ∈ s'.listeners, after.listenerTag = listener.listenerTag

theorem Kept.refl (s : ListenerManager Name Address Body) : Kept s s :=
  ⟨rfl, fun listener hmem => ⟨listener, hmem, rfl⟩, id, id⟩

theorem Kept.trans (h : Kept s s') (h' : Kept s' s'') : Kept s s'' := by
  refine ⟨h'.next.trans h.next, fun listener hmem => ?_,
    fun hwarming => h'.warming (h.warming hwarming),
    fun hnamed => h'.named (h.named hnamed)⟩
  obtain ⟨middle, hmiddle, htag⟩ := h'.listeners listener hmem
  obtain ⟨old, hold, htag'⟩ := h.listeners middle hmiddle
  exact ⟨old, hold, htag'.trans htag⟩

theorem mem_listeners {listener : ListenerImpl Name Address Body} : listener ∈ s.listeners ↔
    listener ∈ s.active ∨ listener ∈ s.warming ∨ ∃ d ∈ s.draining, d.listener = listener := by
  rw [listeners, mem_append, mem_append, mem_map, or_assoc]

theorem listeners_of_tags (htags : ∀ listenerTag ∈ s'.listeners.map ListenerImpl.listenerTag,
    listenerTag ∈ s.listeners.map ListenerImpl.listenerTag) :
    ∀ listener ∈ s'.listeners, ∃ old ∈ s.listeners, old.listenerTag = listener.listenerTag :=
  fun _ hmem => mem_map.mp (htags _ (mem_map_of_mem hmem))

theorem Moved.listeners (h : Moved s s' existing tasks)
    (hactive : ∀ listener ∈ s'.active, listener ∈ s.active ∨ listener ∈ s.warming)
    (hwarming : ∀ listener ∈ s'.warming, listener ∈ s.warming) :
    ∀ listener ∈ s'.listeners, ∃ old ∈ s.listeners, old.listenerTag = listener.listenerTag := by
  intro listener hmem
  refine ⟨listener, mem_listeners.mpr ?_, rfl⟩
  rcases mem_listeners.mp hmem with hmem | hmem | ⟨d, hd, rfl⟩
  · exact (hactive listener hmem).imp_right .inl
  · exact .inr (.inl (hwarming listener hmem))
  · rw [h.draining] at hd
    rcases mem_append.mp hd with hd | hd
    · obtain ⟨drained, hdrained, rfl⟩ := mem_map.mp hd
      exact .inl (h.existing_mem drained (Option.mem_toList.mp hdrained))
    · exact .inr (.inr ⟨d, hd, rfl⟩)

theorem Kept.startWorkers (hstill : s.workersStarted = false) (hwarming : s.warming = []) :
    ∃ s', s.startWorkers = some s' ∧ Kept s s' ∧ s'.workersStarted = true := by
  have hguard : ¬(s.workersStarted || !s.warming.isEmpty) = true := by
    rw [hstill, hwarming]
    exact Bool.false_ne_true
  exact ⟨_, if_neg hguard, ⟨rfl, fun listener hmem => ⟨listener, hmem, rfl⟩, id,
    fun hnamed => ⟨hnamed.active, hnamed.warming, nofun⟩⟩, rfl⟩

variable (s)

theorem Kept.drainComplete (listenerTag : Nat) :
    Kept s (s.drainComplete listenerTag) ∧ Holds s (s.drainComplete listenerTag) ∧
      (s.drainComplete listenerTag).workersStarted = s.workersStarted := by
  rcases drainComplete_cases s listenerTag with ⟨-, heq⟩ | ⟨d, -, -, -, heq⟩
  · rw [heq]
    exact ⟨.refl s, fun listener hmem => ⟨listener, hmem, rfl⟩, rfl⟩
  · have htags : (s.closed listenerTag).listeners.map ListenerImpl.listenerTag =
        s.listeners.map ListenerImpl.listenerTag := by
      rw [listeners_tags, listeners_tags, closed_drainingTags]
      rfl
    rw [heq]
    exact ⟨⟨rfl, listeners_of_tags fun tag hmem => htags ▸ hmem, id, fun hnamed =>
      { hnamed with }⟩, listeners_of_tags fun tag hmem =>
        htags.symm ▸ hmem, rfl⟩

theorem Kept.completed (listenerTag : Nat) :
    Kept s ((s.complete listenerTag).drainComplete listenerTag) ∧
      Holds s ((s.complete listenerTag).drainComplete listenerTag) ∧
      ((s.complete listenerTag).drainComplete listenerTag).workersStarted = s.workersStarted := by
  obtain ⟨completed, heq⟩ := complete_eq s listenerTag
  rw [heq]
  obtain ⟨hkept, hholds, hworkers⟩ := Kept.drainComplete { s with completed := completed } listenerTag
  exact ⟨⟨hkept.next, hkept.listeners, hkept.warming, fun hnamed => hkept.named { hnamed with }⟩,
    hholds, hworkers⟩

theorem Kept.runWorker (worker : Nat) (success : Bool) :
    Kept s (s.runWorker worker success) ∧ Holds s (s.runWorker worker success) ∧
      (s.runWorker worker success).workersStarted = s.workersStarted := by
  have hsame (listener : ListenerImpl Name Address Body) (hmem : listener ∈ s.listeners) :
      ∃ old ∈ s.listeners, old.listenerTag = listener.listenerTag := ⟨listener, hmem, rfl⟩
  rcases runWorker_cases s worker success with heq | ⟨task, rest, -, heq⟩
  · rw [heq]
    exact ⟨.refl s, hsame, rfl⟩
  · rw [heq]
    exact ⟨⟨rfl, hsame, id, fun hnamed => { hnamed with }⟩,
      hsame, rfl⟩

theorem Kept.confirm (worker listenerTag : Nat) : Kept s (s.confirm worker listenerTag) :=
  ⟨rfl, fun listener hmem => ⟨listener, hmem, rfl⟩, id, fun hnamed => { hnamed with }⟩

theorem Kept.destroy (listenerTag : Nat) :
    Kept s (s.destroy listenerTag) ∧ (s.destroy listenerTag).workersStarted = s.workersStarted := by
  rw [ListenerManager.destroy]
  split
  · exact ⟨.refl s, rfl⟩
  · exact ⟨⟨rfl, fun listener hmem => ⟨listener, hmem, rfl⟩, id, fun hnamed => { hnamed with }⟩, rfl⟩

variable {s}

theorem Kept.onRemoved {listenerTag : Nat} (h : s.onRemoved listenerTag = some s') :
    Kept s s' ∧ s'.workersStarted = s.workersStarted := by
  rw [ListenerManager.onRemoved] at h
  split at h
  · cases h
  split at h
  · cases h
  · cases h
    refine ⟨⟨rfl, fun listener hmem => ⟨listener, mem_listeners.mpr ?_, rfl⟩, id, fun hnamed =>
      { hnamed with }⟩, rfl⟩
    refine (mem_listeners.mp hmem).imp_right fun hmem => hmem.imp_right ?_
    rintro ⟨d, hd, heq⟩
    exact ⟨d, (mem_filter.mp hd).1, heq⟩
  · cases h
    refine ⟨⟨rfl, fun listener hmem => ⟨listener, mem_listeners.mpr ?_, rfl⟩, id, fun hnamed =>
      { hnamed with }⟩, rfl⟩
    refine (mem_listeners.mp hmem).imp_right fun hmem => hmem.imp_right ?_
    rintro ⟨d, hd, heq⟩
    obtain ⟨before, hbefore, rfl⟩ := mem_map.mp hd
    refine ⟨before, hbefore, Eq.trans ?_ heq⟩
    split <;> rfl

section Names

variable [DecidableEq Name] {name : Name} {listenerTag : Nat}
variable {listener newListener : ListenerImpl Name Address Body}

theorem removeListener_next : (s.removeListener name).nextListenerTag = s.nextListenerTag := by
  rw [removeListener]
  split
  · rfl
  · cases getListenerByName s.active name <;> rfl

theorem Kept.removeListener (s : ListenerManager Name Address Body) (name : Name) :
    Kept s (s.removeListener name) := by
  refine ⟨removeListener_next, Moved.listeners removeListener_moved (fun listener hmem => ?_)
    fun listener hmem => ?_, fun hwarming => ?_, Named.removeListener⟩
  · rw [removeListener_active] at hmem
    exact .inl (mem_filter.mp hmem).1
  · rw [removeListener_warming] at hmem
    exact (mem_filter.mp hmem).1
  · rw [removeListener_warming, hwarming]
    rfl

theorem Holds.removeListener (hnamed : s.Named) (hstill : s.workersStarted = false) (name : Name) :
    Holds s (s.removeListener name) := by
  intro listener hmem
  refine ⟨listener, mem_listeners.mpr ?_, rfl⟩
  rcases mem_listeners.mp hmem with hmem | hmem | ⟨d, hd, rfl⟩
  · rcases mem_tag_cases hmem hnamed.active name with hkept | hfound
    · rw [removeListener_active]
      exact .inl hkept
    · refine .inr (.inr ⟨⟨listener, s.workers.length, true⟩, ?_, rfl⟩)
      rw [removeListener_moved.draining, hfound]
      exact mem_append_left _ mem_cons_self
  · rw [hnamed.unstarted hstill] at hmem
    cases hmem
  · refine .inr (.inr ⟨d, ?_, rfl⟩)
    rw [removeListener_moved.draining]
    exact mem_append_right _ hd

variable (s)

theorem Kept.onListenerWarmed (listenerTag : Nat) : Kept s (s.onListenerWarmed listenerTag) := by
  rcases s.onListenerWarmed_cases listenerTag with hsame | ⟨listener, hfound⟩
  · rw [hsame]
    exact .refl s
  · obtain ⟨hactive, hwarming⟩ := onListenerWarmed_lists hfound
    have hmem : listener ∈ s.warming := (find_tag hfound).1
    have hnext : (s.onListenerWarmed listenerTag).nextListenerTag = s.nextListenerTag := by
      rw [ListenerManager.onListenerWarmed, hfound]
      dsimp only [enqueue]
      cases getListenerByName s.active listener.name <;> rfl
    refine ⟨hnext, Moved.listeners (onListenerWarmed_moved hfound) (fun other hother => ?_)
      fun other hother => ?_, fun hempty => ?_, Named.onListenerWarmed⟩
    · rw [hactive] at hother
      rcases mem_activate hother with rfl | hother
      · exact .inr hmem
      · exact .inl hother
    · rw [hwarming] at hother
      exact (mem_filter.mp hother).1
    · rw [hempty] at hmem
      cases hmem

omit [DecidableEq Name] in
theorem Kept.annotate (stats : ListenerManagerStats)
    (requests : List (Request Name Address Body)) :
    Kept s { s with stats := stats, requests := requests } :=
  ⟨rfl, fun listener hmem => ⟨listener, hmem, rfl⟩, id, fun hnamed =>
    { hnamed with }⟩

omit [DecidableEq Name] in
theorem Kept.markFailure (listenerTag : Nat) : Kept s (s.markFailure listenerTag) := by
  have hactive : (s.markFailure listenerTag).activeTags = s.activeTags := marked_tags s.active
  have hwarming : (s.markFailure listenerTag).warmingTags = s.warmingTags := marked_tags s.warming
  refine ⟨rfl, listeners_of_tags fun tag hmem => ?_, fun hempty => ?_,
    fun hnamed => ⟨?_, ?_, fun hunstarted => ?_⟩⟩
  · rwa [listeners_tags, hactive, hwarming, markFailure_drainingTags, ← listeners_tags] at hmem
  · exact congrArg (List.map (marked listenerTag)) hempty
  · exact (marked_names s.active).symm ▸ hnamed.active
  · exact (marked_names s.warming).symm ▸ hnamed.warming
  · exact congrArg (List.map (marked listenerTag)) (hnamed.unstarted hunstarted)

variable {s}

theorem Kept.onAdded {success : Bool} (h : s.onAdded listenerTag success = some s') :
    Kept s s' ∧ s'.workersStarted = s.workersStarted := by
  have hsame (listener : ListenerImpl Name Address Body) (hmem : listener ∈ s.listeners) :
      ∃ old ∈ s.listeners, old.listenerTag = listener.listenerTag := ⟨listener, hmem, rfl⟩
  rw [ListenerManager.onAdded] at h
  split at h
  · cases h
  rename_i listener _
  split at h
  · cases h
    exact ⟨⟨rfl, hsame, id, fun hnamed => { hnamed with }⟩, rfl⟩
  split at h
  · cases h
    exact ⟨.refl s, rfl⟩
  · cases h
    exact ⟨((Kept.markFailure s listenerTag).trans (.annotate _ _ _)).trans (.removeListener _ _),
      removeListener_frame.2⟩

theorem Kept.runPost (h : s.runPost = some s') :
    Kept s s' ∧ s'.workersStarted = s.workersStarted := by
  have hpopped (rest : List Post) : Kept s { s with posts := rest } :=
    ⟨rfl, fun listener hmem => ⟨listener, hmem, rfl⟩, id, fun hnamed =>
      { hnamed with }⟩
  rw [ListenerManager.runPost] at h
  split at h
  · cases h
    exact ⟨.refl s, rfl⟩
  rename_i post rest _
  split at h
  · obtain ⟨hkept, hstarted⟩ := Kept.onAdded h
    exact ⟨((hpopped rest).trans (.annotate _ _ _)).trans hkept, hstarted⟩
  · obtain ⟨after, hafter, rfl⟩ := Option.map_eq_some_iff.mp h
    obtain ⟨hkept, hstarted⟩ := Kept.onRemoved hafter
    obtain ⟨hdestroyed, hsame⟩ := Kept.destroy after _
    exact ⟨(((hpopped rest).trans (.confirm _ _ _)).trans hkept).trans hdestroyed,
      hsame.trans hstarted⟩

theorem Placed.listeners {placed : ListenerManager Name Address Body}
    (h : Placed s newListener placed) (hnamed : s.Named) :
    (∀ listener ∈ placed.listeners, listener ∈ s.listeners ∨ listener = newListener) ∧
      (s.workersStarted = false → ∀ listener ∈ s.listeners, listener ∈ placed.listeners ∨
        getListenerByName s.active newListener.name = some listener) := by
  have hreplaced {listeners : List (ListenerImpl Name Address Body)}
      {listener : ListenerImpl Name Address Body} (hmem : listener ∈ listeners)
      (hnodup : (listeners.map ListenerImpl.name).Nodup) :
      listener ∈ replaceByName listeners newListener ∨
        getListenerByName listeners newListener.name = some listener := by
    by_cases hname : listener.name = newListener.name
    · exact .inr (hname ▸ getListenerByName_of_mem hnodup hmem)
    · exact .inl (mem_map.mpr ⟨listener, hmem, if_neg hname⟩)
  simp only [mem_listeners]
  cases h with
  | replaceWarming existing hwarming =>
    refine ⟨fun listener hmem => ?_, fun hstill => ?_⟩
    · rcases hmem with hmem | hmem | hmem
      · exact .inl (.inl hmem)
      · exact (mem_replaceByName hmem).symm.imp_left fun hmem => .inr (.inl hmem)
      · exact .inl (.inr (.inr hmem))
    · rw [hnamed.unstarted hstill] at hwarming
      cases hwarming
  | addWarming hstarted =>
    refine ⟨fun listener hmem => ?_, fun hstill => absurd (hstarted.symm.trans hstill) nofun⟩
    rcases hmem with hmem | hmem | hmem
    · exact .inl (.inl hmem)
    · rcases mem_append.mp hmem with hmem | hmem
      · exact .inl (.inr (.inl hmem))
      · exact .inr (mem_singleton.mp hmem)
    · exact .inl (.inr (.inr hmem))
  | replaceActive existing =>
    refine ⟨fun listener hmem => ?_, fun hstill listener hmem => ?_⟩
    · rcases hmem with hmem | hmem
      · exact (mem_replaceByName hmem).symm.imp_left .inl
      · exact .inl (.inr hmem)
    · rcases hmem with hmem | hmem
      · exact (hreplaced hmem hnamed.active).imp_left .inl
      · exact .inl (.inr hmem)
  | addActive =>
    refine ⟨fun listener hmem => ?_, fun hstill listener hmem => .inl ?_⟩
    · rcases hmem with hmem | hmem
      · rcases mem_append.mp hmem with hmem | hmem
        · exact .inl (.inl hmem)
        · exact .inr (mem_singleton.mp hmem)
      · exact .inl (.inr hmem)
    · exact hmem.imp_left (mem_append_left _)

variable [DecidableEq Address] {update : Update Name Address Body}

theorem addOrUpdateListener_lists (hnamed : s.Named) (hwaits : update.initializes = false) :
    (s.addOrUpdateListener update).1.Named ∧
    (s.addOrUpdateListener update).1.workersStarted = s.workersStarted ∧
    s.nextListenerTag ≤ (s.addOrUpdateListener update).1.nextListenerTag ∧
    ((s.addOrUpdateListener update).1.listeners = s.listeners ∨
      (s.addOrUpdateListener update).1.nextListenerTag = s.nextListenerTag + 1 ∧
      (∀ listener ∈ (s.addOrUpdateListener update).1.listeners,
        listener ∈ s.listeners ∨ listener.listenerTag = s.nextListenerTag) ∧
      (s.workersStarted = false → ∀ listener ∈ s.listeners,
        listener ∈ (s.addOrUpdateListener update).1.listeners ∨
        getListenerByName s.active update.name = some listener)) := by
  rcases addOrUpdateListener_cases s update with ⟨-, heq⟩ | heq |
    ⟨socketAddress, placed, added, hplaced, heq⟩
  · rw [heq]
    exact ⟨{ hnamed with }, rfl, Nat.le_refl _, .inl rfl⟩
  · rw [heq]
    exact ⟨{ hnamed with }, rfl, Nat.le_succ _, .inl rfl⟩
  · have hskipped : ({ s with nextListenerTag := s.nextListenerTag + 1 } :
        ListenerManager Name Address Body).Named := { hnamed with }
    have hafter := hplaced.named hskipped
    have hstarted : placed.workersStarted = s.workersStarted := by cases hplaced <;> rfl
    have hnext : placed.nextListenerTag = s.nextListenerTag + 1 := by cases hplaced <;> rfl
    obtain ⟨hold, hkept⟩ := hplaced.listeners hskipped
    rw [heq, finishUpdate]
    rw [if_neg (by simp [hwaits])]
    refine ⟨{ hafter with }, hstarted, ?_, .inr ⟨hnext, ?_, hkept⟩⟩
    · exact hnext ▸ Nat.le_succ _
    · exact fun listener hmem => (hold listener hmem).imp_right (congrArg ListenerImpl.listenerTag)

end Names

end Meliproxy.Envoy.Server.ListenerManager
