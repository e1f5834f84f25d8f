import Meliproxy.Envoy.Server.ListenerDraining

/-!
# Listeners move

Every operation on names moves listeners between the lists: one that is placed, one that is warm, one
that starts to drain. `Sound` is what all of them keep.
-/

namespace Meliproxy.Envoy.Server.ListenerManager

open Lib List

variable {Name Address Body : Type} {s s' : ListenerManager Name Address Body}
  {listenerTag : Nat} {existing : Option (ListenerImpl Name Address Body)} {tasks : List Task}

def drainingEntries (s : ListenerManager Name Address Body)
    (existing : Option (ListenerImpl Name Address Body)) : List (DrainingListener Name Address Body) :=
  existing.toList.map fun listener => ⟨listener, s.workers.length, true⟩

/-- A state after a move: `existing` drains and `tasks` are queued. -/
structure Moved (s s' : ListenerManager Name Address Body)
    (existing : Option (ListenerImpl Name Address Body)) (tasks : List Task) : Prop where
  draining : s'.draining = s.drainingEntries existing ++ s.draining
  drained : s'.drained = s.drained
  completed : s'.completed = s.completed
  workers : s'.workers = s.workers.map (· ++ tasks)
  posts : s'.posts = s.posts
  confirmed : s'.confirmed = s.confirmed
  destroyed : s'.destroyed = s.destroyed
  started : s.workersStarted = true → s'.workersStarted = true
  existing_mem : ∀ listener, existing = some listener → listener ∈ s.active

theorem Moved.drainingTags (h : Moved s s' existing tasks) :
    s'.drainingTags = existing.toList.map ListenerImpl.listenerTag ++ s.drainingTags := by
  rw [ListenerManager.drainingTags, h.draining, map_append, drainingEntries, map_map]
  rfl

theorem Moved.closingTags (h : Moved s s' existing tasks) : s'.closingTags = s.closingTags := by
  rw [ListenerManager.closingTags, h.draining, filter_append, drainingEntries]
  cases existing <;> rfl

theorem Tagged.not_closed (h : s.Tagged) (hmem : listenerTag ∈ s.activeTags ++ s.warmingTags) :
    listenerTag ∉ s.drainingTags ++ s.destroyed := fun hdrained =>
  (List.nodup_append.mp h.nodup).2.2 _ hmem _ hdrained rfl

theorem Tagged.not_confirmed (h : s.Tagged) (hmem : listenerTag ∈ s.activeTags ++ s.warmingTags) :
    listenerTag ∉ s.closingTags ++ s.destroyed := fun hclosed => by
  refine h.not_closed hmem ?_
  rcases mem_append.mp hclosed with hclosing | hdestroyed
  · obtain ⟨d, hd, -, htag⟩ := mem_closingTags.mp hclosing
    exact mem_append_left _ (mem_drainingTags.mpr ⟨d, hd, htag⟩)
  · exact mem_append_right _ hdestroyed

section

variable (h : Moved s s' existing tasks)
include h

theorem Moved.flow (hflow : s.Flow) (htagged : s.Tagged)
    (hlive : s.workersStarted = true → ∀ listenerTag ∈ s.activeTags,
      listenerTag ∈ s'.activeTags ++ existing.toList.map ListenerImpl.listenerTag)
    (hadded : ∀ listenerTag, tasks.filter (fun task => task.listenerTag = listenerTag) = [] ∨
      tasks.filter (fun task => task.listenerTag = listenerTag) = [.addListener listenerTag] ∧
      s'.workersStarted = true ∧ listenerTag ∈ s'.activeTags ∧
      listenerTag ∈ s.activeTags ++ s.warmingTags ∧
      (s.workersStarted = true → listenerTag ∉ s.activeTags)) : s'.Flow := by
  refine hflow.advance h.workers h.posts h.confirmed h.destroyed h.closingTags h.started
    (fun hstarted other hmem => ?_) fun other => ?_
  · rw [h.drainingTags, ← append_assoc]
    rcases mem_append.mp hmem with hactive | hdraining
    · exact mem_append_left _ (hlive hstarted other hactive)
    · exact mem_append_right _ hdraining
  · rcases hadded other with hnone | ⟨hadd, hstarted, hactive, hbefore, hquiet⟩
    · exact .inl hnone
    · refine .inr ⟨hadd, hstarted, mem_append_left _ hactive,
        htagged.not_confirmed hbefore, fun hstarted hmem => ?_⟩
      rcases mem_append.mp hmem with hactive | hdraining
      · exact hquiet hstarted hactive
      · exact htagged.not_closed hbefore (mem_append_left _ hdraining)

theorem Moved.counted (hcounted : s.Counted) (hflow : s.Flow)
    (htagged : s.Tagged) : s'.Counted := by
  refine hcounted.advance (by rw [h.workers, length_map]) h.confirmed h.destroyed fun d hd => ?_
  rw [h.draining] at hd
  rcases mem_append.mp hd with hnew | hold
  · obtain ⟨listener, hlistener, rfl⟩ := mem_map.mp hnew
    have hmem : listener.listenerTag ∈ s.activeTags :=
      mem_map_of_mem (h.existing_mem listener (Option.mem_toList.mp hlistener))
    exact .inr ⟨rfl, fun worker hconfirmed =>
      htagged.not_confirmed (mem_append_left _ hmem) (hflow.confirmed _ _ hconfirmed)⟩
  · exact .inl ⟨d, hold, rfl, rfl⟩

theorem Moved.drains : Drains s s' (existing.toList.map ListenerImpl.listenerTag) := by
  refine ⟨?_, ?_, h.drained, h.completed⟩
  · rw [h.drainingTags, h.destroyed, append_assoc]
  · rw [h.closingTags, h.destroyed]
    exact fun _ hmem => hmem

theorem Moved.tagged (htagged : s.Tagged)
    (hnext : s'.nextListenerTag = s.nextListenerTag) (hcount : ∀ listenerTag,
      s'.activeTags.count listenerTag + s'.warmingTags.count listenerTag +
          (existing.toList.map ListenerImpl.listenerTag).count listenerTag ≤
        s.activeTags.count listenerTag + s.warmingTags.count listenerTag) : s'.Tagged := by
  refine htagged.shrink (Nat.le_of_eq hnext.symm) fun listenerTag => ?_
  have hboth := hcount listenerTag
  simp only [tags, h.drainingTags, h.destroyed, count_append]
  omega

end

/-- The listeners that cease to be active begin to drain. -/
def Retires (s s' : ListenerManager Name Address Body) : Prop :=
  ∃ gone, Drains s s' gone ∧
    (s.activeTags.filter fun listenerTag => listenerTag ∉ s'.activeTags).Perm gone

theorem left_perm {before after gone : List Nat} (hnodup : before.Nodup)
    (hsub : ∀ listenerTag ∈ gone, listenerTag ∈ before) (hcount : ∀ listenerTag ∈ before,
      before.count listenerTag = gone.count listenerTag + after.count listenerTag) :
    (before.filter fun listenerTag => listenerTag ∉ after).Perm gone := by
  refine perm_iff_count.mpr fun listenerTag => ?_
  by_cases hbefore : listenerTag ∈ before
  · have hone := count_eq_one_of_mem hnodup hbefore
    have hsum := hcount listenerTag hbefore
    by_cases hafter : listenerTag ∈ after
    · have hpos := count_pos_iff.mpr hafter
      rw [count_eq_zero.mpr (by simp [hafter])]
      omega
    · rw [count_filter (by simpa using hafter)]
      have hzero := count_eq_zero.mpr hafter
      omega
  · rw [count_eq_zero.mpr fun hmem => hbefore (mem_filter.mp hmem).1,
      count_eq_zero.mpr fun hmem => hbefore (hsub listenerTag hmem)]

theorem left_still (hactive : s'.active = s.active) :
    (s.activeTags.filter fun listenerTag => listenerTag ∉ s'.activeTags) = [] := by
  have hsame : s'.activeTags = s.activeTags := by rw [activeTags, activeTags, hactive]
  rw [hsame]
  exact filter_eq_nil_iff.mpr fun listenerTag hmem => by simpa using hmem

theorem retire_still (hactive : s'.active = s.active) : s.retire s' = s' := by
  rw [retire, left_still hactive, append_nil]

theorem Retires.still (h : Drains s s' []) (hactive : s'.active = s.active) : Retires s s' := by
  refine ⟨[], h, ?_⟩
  rw [left_still hactive]

theorem Retires.request (h : Retires s s') (requests : List (Request Name Address Body)) :
    Retires s (s'.request requests) := by
  obtain ⟨gone, hdrains, hleft⟩ := h
  exact ⟨gone, { hdrains with }, hleft⟩

/-- The same listeners are active and draining. -/
structure Same (s s' : ListenerManager Name Address Body) : Prop where
  activeTags : s'.activeTags = s.activeTags
  drainingTags : s'.drainingTags = s.drainingTags
  closingTags : s'.closingTags = s.closingTags
  destroyed : s'.destroyed = s.destroyed
  drained : s'.drained = s.drained
  completed : s'.completed = s.completed

theorem Same.drains (h : Same s s') : Drains s s' [] := by
  refine ⟨?_, ?_, h.drained, h.completed⟩
  · rw [h.drainingTags, h.destroyed]
    exact .refl _
  · rw [h.closingTags, h.destroyed]
    exact fun _ hmem => hmem

theorem Same.retires {after : ListenerManager Name Address Body} (h : Same s s')
    (hretires : Retires s' after) : Retires s after := by
  obtain ⟨gone, ⟨hperm, hclosing, hdrained, hcompleted⟩, hleft⟩ := hretires
  rw [h.drainingTags, h.destroyed] at hperm
  rw [h.closingTags, h.destroyed] at hclosing
  rw [h.activeTags] at hleft
  exact ⟨gone, ⟨hperm, hclosing, hdrained.trans h.drained, hcompleted.trans h.completed⟩, hleft⟩

/-- What holds of the lists and the queues together. -/
structure Sound [DecidableEq Name] (s : ListenerManager Name Address Body) : Prop where
  named : s.Named
  flow : s.Flow
  counted : s.Counted
  tagged : s.Tagged

section Names

variable [DecidableEq Name] {listener newListener : ListenerImpl Name Address Body} {name : Name}
  {listeners : List (ListenerImpl Name Address Body)}

theorem count_erase (hnodup : (listeners.map ListenerImpl.name).Nodup) (name : Name)
    (listenerTag : Nat) : (listeners.map ListenerImpl.listenerTag).count listenerTag =
      ((getListenerByName listeners name).toList.map ListenerImpl.listenerTag).count listenerTag +
      ((eraseByName listeners name).map ListenerImpl.listenerTag).count listenerTag := by
  cases hfound : getListenerByName listeners name with
  | none =>
    have hkept : eraseByName listeners name = listeners := filter_eq_self.mpr fun other hother => by
      simpa using getListenerByName_eq_none.mp hfound other hother
    rw [hkept]
    simp
  | some listener =>
    obtain ⟨hmem, rfl⟩ := mem_of_getListenerByName hfound
    rw [((perm_eraseByName hnodup hmem).map _).count_eq, ← count_append]
    rfl

theorem count_activate (hnodup : (listeners.map ListenerImpl.name).Nodup)
    (newListener : ListenerImpl Name Address Body) (listenerTag : Nat) :
    ((activate listeners newListener).map ListenerImpl.listenerTag).count listenerTag =
      [newListener.listenerTag].count listenerTag +
      ((eraseByName listeners newListener.name).map ListenerImpl.listenerTag).count listenerTag := by
  rw [activate, ← count_append]
  split
  · rename_i listener hfound
    obtain ⟨hmem, hname⟩ := mem_of_getListenerByName hfound
    exact ((perm_replaceByName hnodup hmem hname).map _).count_eq _
  · rename_i hnone
    have hkept : eraseByName listeners newListener.name = listeners :=
      filter_eq_self.mpr fun other hother => by
        simpa using getListenerByName_eq_none.mp hnone other hother
    rw [hkept, map_append]
    exact perm_append_comm.count_eq _

theorem mem_tag_cases {other : ListenerImpl Name Address Body} (hmem : other ∈ listeners)
    (hnodup : (listeners.map ListenerImpl.name).Nodup) (name : Name) :
    other ∈ eraseByName listeners name ∨ getListenerByName listeners name = some other := by
  by_cases hname : other.name = name
  · subst hname
    exact .inr (getListenerByName_of_mem hnodup hmem)
  · exact .inl (mem_filter.mpr ⟨hmem, by simpa using hname⟩)

theorem removeListener_moved :
    Moved s (s.removeListener name) (getListenerByName s.active name) [] := by
  have hmem (listener : ListenerImpl Name Address Body)
      (hfound : getListenerByName s.active name = some listener) : listener ∈ s.active :=
    (mem_of_getListenerByName hfound).1
  rw [removeListener]
  split
  · rename_i hactive
    exact ⟨by rw [hactive]; rfl, rfl, rfl, by simp, rfl, rfl, rfl, id, hmem⟩
  · cases hactive : getListenerByName s.active name with
    | none => exact ⟨rfl, rfl, rfl, by simp [updateWarmingActiveGauges], rfl, rfl, rfl, id, by simp⟩
    | some listener => exact ⟨rfl, rfl, rfl, by simp [drainListener, updateWarmingActiveGauges], rfl,
        rfl, rfl, id, fun other hother => hmem other (hactive.trans hother)⟩

theorem Sound.removeListener (h : s.Sound) : (s.removeListener name).Sound := by
  have hmoved := @removeListener_moved _ _ _ s _ name
  refine ⟨h.named.removeListener, ?_, hmoved.counted h.counted h.flow h.tagged, ?_⟩
  · refine hmoved.flow h.flow h.tagged (fun _ other hother => ?_) fun _ => .inl rfl
    obtain ⟨listener, hlistener, rfl⟩ := mem_map.mp hother
    rw [activeTags, removeListener_active]
    rcases mem_tag_cases hlistener h.named.active name with hkept | hfound
    · exact mem_append_left _ (mem_map_of_mem hkept)
    · exact mem_append_right _ (mem_map_of_mem (Option.mem_toList.mpr hfound))
  · have hnext : (s.removeListener name).nextListenerTag = s.nextListenerTag := by
      rw [ListenerManager.removeListener]
      split
      · rfl
      · cases getListenerByName s.active name <;> rfl
    refine hmoved.tagged h.tagged hnext fun other => ?_
    rw [activeTags, warmingTags, removeListener_active, removeListener_warming, activeTags, warmingTags,
      count_erase h.named.active name, count_erase h.named.warming name]
    omega

theorem Sound.activeTags_nodup (h : s.Sound) : s.activeTags.Nodup :=
  (List.nodup_append.mp (List.nodup_append.mp h.tagged.nodup).1).1

theorem Sound.retires_removeListener (h : s.Sound) (name : Name) :
    Retires s (s.removeListener name) := by
  refine ⟨_, removeListener_moved.drains, left_perm h.activeTags_nodup (fun other hother => ?_)
    fun other _ => ?_⟩
  · obtain ⟨listener, hlistener, rfl⟩ := mem_map.mp hother
    exact mem_map_of_mem (mem_of_getListenerByName (Option.mem_toList.mp hlistener)).1
  · rw [activeTags, activeTags, removeListener_active]
    exact count_erase h.named.active name other

theorem onListenerWarmed_moved
    (hfound : s.warming.find? (fun listener => listener.listenerTag = listenerTag) = some listener) :
    Moved s (s.onListenerWarmed listenerTag) (getListenerByName s.active listener.name)
      [.addListener listenerTag] := by
  have hmem (active : ListenerImpl Name Address Body)
      (hactive : getListenerByName s.active listener.name = some active) : active ∈ s.active :=
    (mem_of_getListenerByName hactive).1
  rw [onListenerWarmed, hfound]
  dsimp only [enqueue]
  cases hactive : getListenerByName s.active listener.name with
  | none => exact ⟨rfl, rfl, rfl, rfl, rfl, rfl, rfl, id, by simp⟩
  | some active =>
    exact ⟨by simp [drainListener, updateWarmingActiveGauges, drainingEntries], rfl, rfl, rfl, rfl,
      rfl, rfl, id, fun other hother => hmem other (hactive.trans hother)⟩

theorem Sound.onListenerWarmed (h : s.Sound) : (s.onListenerWarmed listenerTag).Sound := by
  rcases s.onListenerWarmed_cases listenerTag with hsame | ⟨listener, hfound⟩
  · rw [hsame]
    exact h
  · have hmoved := onListenerWarmed_moved hfound
    obtain ⟨hactive, hwarming⟩ := onListenerWarmed_lists hfound
    obtain ⟨hmem, htag⟩ := find_tag hfound
    have hwarm : listenerTag ∈ s.warmingTags := htag ▸ mem_map_of_mem hmem
    have hstarted : s.workersStarted = true := by
      by_contra hunstarted
      rw [h.named.unstarted (Bool.eq_false_iff.mpr hunstarted)] at hmem
      cases hmem
    have hcold : listenerTag ∉ s.activeTags := fun hactive =>
      (List.nodup_append.mp (List.nodup_append.mp h.tagged.nodup).1).2.2 _ hactive _ hwarm rfl
    refine ⟨h.named.onListenerWarmed, ?_, hmoved.counted h.counted h.flow h.tagged, ?_⟩
    · refine hmoved.flow h.flow h.tagged (fun _ other hother => ?_) fun other => ?_
      · have hpos := count_pos_iff.mpr hother
        rw [activeTags, count_erase h.named.active listener.name] at hpos
        refine count_pos_iff.mp ?_
        rw [activeTags, hactive, count_append, count_activate h.named.active]
        omega
      · by_cases hother : listenerTag = other
        · subst hother
          refine .inr ⟨by simp [Task.listenerTag], ?_, count_pos_iff.mp ?_,
            mem_append_right _ hwarm, fun _ => hcold⟩
          · exact hmoved.started hstarted
          · rw [activeTags, hactive, count_activate h.named.active, htag, count_singleton_self]
            omega
        · exact .inl (by simp [Task.listenerTag, hother])
    · have hnext : (s.onListenerWarmed listenerTag).nextListenerTag = s.nextListenerTag := by
        rw [ListenerManager.onListenerWarmed, hfound]
        dsimp only [enqueue]
        cases getListenerByName s.active listener.name <;> rfl
      refine hmoved.tagged h.tagged hnext fun other => ?_
      rw [activeTags, warmingTags, hactive, hwarming, activeTags, warmingTags,
        count_erase h.named.active listener.name, count_erase h.named.warming listener.name,
        count_activate h.named.active, getListenerByName_of_mem h.named.warming hmem]
      simp only [Option.toList_some, map_cons, map_nil]
      omega

theorem Sound.retires_onListenerWarmed (h : s.Sound) (listenerTag : Nat) :
    Retires s (s.onListenerWarmed listenerTag) := by
  rcases s.onListenerWarmed_cases listenerTag with hsame | ⟨listener, hfound⟩
  · rw [hsame]
    exact .still ⟨.refl _, fun _ hmem => hmem, rfl, rfl⟩ rfl
  · obtain ⟨hactive, -⟩ := onListenerWarmed_lists hfound
    obtain ⟨hmem, htag⟩ := find_tag hfound
    have hwarm : listener.listenerTag ∈ s.warmingTags := mem_map_of_mem hmem
    refine ⟨_, (onListenerWarmed_moved hfound).drains, left_perm h.activeTags_nodup
      (fun other hother => ?_) fun other hother => ?_⟩
    · obtain ⟨old, hold, rfl⟩ := mem_map.mp hother
      exact mem_map_of_mem (mem_of_getListenerByName (Option.mem_toList.mp hold)).1
    · have hne : listener.listenerTag ≠ other := fun heq =>
        (List.nodup_append.mp (List.nodup_append.mp h.tagged.nodup).1).2.2 _ (heq ▸ hother) _ hwarm rfl
      rw [activeTags, activeTags, hactive, count_activate h.named.active, count_cons_of_ne hne,
        count_nil, Nat.zero_add]
      exact count_erase h.named.active listener.name other

theorem Sound.annotate (h : s.Sound) (stats : ListenerManagerStats)
    (requests : List (Request Name Address Body)) :
    ({ s with stats := stats, requests := requests } : ListenerManager Name Address Body).Sound :=
  ⟨{ h.named with }, { h.flow with }, { h.counted with }, { h.tagged with }⟩

theorem Sound.startWorkers (h : s.Sound) (hunstarted : s.workersStarted = false) :
    ∃ s', s.startWorkers = some s' ∧ s'.Sound ∧ s'.active = s.active ∧ s'.warming = s.warming ∧
      s'.requests = s.requests ∧ Same s s' := by
  have hwarming : s.warming = [] := h.named.unstarted hunstarted
  have hguard : ¬(s.workersStarted || !s.warming.isEmpty) = true := by
    rw [hunstarted, hwarming]
    exact Bool.false_ne_true
  refine ⟨_, if_neg hguard, ?_, rfl, rfl, rfl, ⟨rfl, rfl, rfl, rfl, rfl, rfl⟩⟩
  have hmoved : Moved s { s with
      workersStarted := true
      workers := s.workers.map (· ++ s.active.map fun listener => .addListener listener.listenerTag) }
      none (s.active.map fun listener => .addListener listener.listenerTag) :=
    ⟨rfl, rfl, rfl, rfl, rfl, rfl, rfl, fun _ => rfl, nofun⟩
  have hnodup : s.activeTags.Nodup := (List.nodup_append.mp (List.nodup_append.mp h.tagged.nodup).1).1
  have hstill : ¬s.workersStarted = true := by simp [hunstarted]
  refine ⟨⟨h.named.active, h.named.warming, nofun⟩, ?_, hmoved.counted h.counted h.flow h.tagged,
    { h.tagged with }⟩
  refine hmoved.flow h.flow h.tagged (fun hstarted => absurd hstarted hstill) fun other => ?_
  have hadds : (s.active.map fun listener => Task.addListener listener.listenerTag).filter
      (fun task => task.listenerTag = other) =
      (s.activeTags.filter fun listenerTag => listenerTag = other).map .addListener := by
    rw [activeTags, filter_map, filter_map, map_map]
    rfl
  rw [hadds]
  by_cases hmem : other ∈ s.activeTags
  · refine .inr ⟨?_, rfl, hmem, mem_append_left _ hmem, fun hstarted => absurd hstarted hstill⟩
    rw [filter_eq, count_eq_one_of_mem hnodup hmem]
    rfl
  · refine .inl ?_
    rw [filter_eq, count_eq_zero.mpr hmem]
    rfl

def marked (listenerTag : Nat) (listener : ListenerImpl Name Address Body) :
    ListenerImpl Name Address Body :=
  if listener.listenerTag = listenerTag then { listener with sawListenerCreateFailure := true }
  else listener

omit [DecidableEq Name] in
theorem marked_same : (marked listenerTag listener).listenerTag = listener.listenerTag ∧
    (marked listenerTag listener).name = listener.name ∧
    (marked listenerTag listener).config = listener.config := by
  rw [marked]
  split <;> exact ⟨rfl, rfl, rfl⟩

theorem current_markFailure :
    (s.markFailure listenerTag).current name = (s.current name).map (marked listenerTag) := by
  have hfind (listeners : List (ListenerImpl Name Address Body)) :
      getListenerByName (listeners.map (marked listenerTag)) name =
        (getListenerByName listeners name).map (marked listenerTag) := by
    rw [getListenerByName, getListenerByName, find?_map]
    simp only [Function.comp_def, marked_same.2.1]
  rw [current, current]
  refine (congrArg₂ Option.or (hfind s.warming) (hfind s.active)).trans ?_
  cases getListenerByName s.warming name <;> rfl

omit [DecidableEq Name] in
theorem marked_tags (listeners : List (ListenerImpl Name Address Body)) :
    (listeners.map (marked listenerTag)).map ListenerImpl.listenerTag =
      listeners.map ListenerImpl.listenerTag := by
  rw [map_map]
  exact map_congr_left fun _ _ => marked_same.1

omit [DecidableEq Name] in
theorem marked_names (listeners : List (ListenerImpl Name Address Body)) :
    (listeners.map (marked listenerTag)).map ListenerImpl.name = listeners.map ListenerImpl.name := by
  rw [map_map]
  exact map_congr_left fun _ _ => marked_same.2.1

omit [DecidableEq Name] in
theorem markFailure_drainingTags : (s.markFailure listenerTag).drainingTags = s.drainingTags := by
  rw [drainingTags, drainingTags, markFailure, map_map]
  exact map_congr_left fun _ _ => marked_same.1

omit [DecidableEq Name] in
theorem markFailure_closingTags : (s.markFailure listenerTag).closingTags = s.closingTags := by
  rw [closingTags, closingTags, markFailure, filter_map, map_map]
  exact map_congr_left fun _ _ => marked_same.1

theorem Sound.markFailure (h : s.Sound) (listenerTag : Nat) : (s.markFailure listenerTag).Sound := by
  have hactive : (s.markFailure listenerTag).activeTags = s.activeTags := marked_tags s.active
  have hwarming : (s.markFailure listenerTag).warmingTags = s.warmingTags := marked_tags s.warming
  refine ⟨⟨?_, ?_, fun hunstarted => ?_⟩, ?_, ?_, ?_⟩
  · exact (marked_names s.active).symm ▸ h.named.active
  · exact (marked_names s.warming).symm ▸ h.named.warming
  · exact (congrArg _ (h.named.unstarted hunstarted) : _ = [].map (marked listenerTag))
  · refine @Flow.advance _ _ _ s _ [] h.flow (by simp [ListenerManager.markFailure]) rfl rfl rfl
      markFailure_closingTags id (fun _ other hlive => ?_) fun _ => .inl rfl
    rw [hactive, markFailure_drainingTags]
    exact hlive
  · refine h.counted.advance rfl rfl rfl fun d hd => ?_
    obtain ⟨before, hbefore, rfl⟩ := mem_map.mp hd
    exact .inl ⟨before, hbefore, marked_same.1.symm, rfl⟩
  · refine h.tagged.shrink (Nat.le_refl _) fun other => Nat.le_of_eq ?_
    rw [tags, tags, hactive, hwarming, markFailure_drainingTags]
    rfl

variable {placed : ListenerManager Name Address Body}

section

variable (h : Placed { s with nextListenerTag := s.nextListenerTag + 1 } newListener placed)
include h

theorem Placed.moved : Moved s placed none [] := by
  cases h <;> exact ⟨rfl, rfl, rfl, by simp, rfl, rfl, rfl, id, nofun⟩

theorem Placed.count (hnamed : s.Named) (other : Nat) :
    placed.activeTags.count other + placed.warmingTags.count other ≤
      [newListener.listenerTag].count other + s.activeTags.count other +
        s.warmingTags.count other := by
  cases h with
  | replaceWarming existing hwarming =>
    have hcount := count_activate hnamed.warming newListener other
    rw [activate, hwarming] at hcount
    have herase := count_erase hnamed.warming newListener.name other
    dsimp only [activeTags, warmingTags] at hcount herase ⊢
    omega
  | addWarming hstarted hwarming =>
    simp only [activeTags, warmingTags, map_append, count_append, map_cons, map_nil]
    omega
  | replaceActive existing hstarted hwarming hactive =>
    have hcount := count_activate hnamed.active newListener other
    rw [activate, hactive] at hcount
    have herase := count_erase hnamed.active newListener.name other
    dsimp only [activeTags, warmingTags] at hcount herase ⊢
    omega
  | addActive hstarted hwarming hactive =>
    simp only [activeTags, warmingTags, map_append, count_append, map_cons, map_nil]
    omega

end

theorem Sound.skip (h : s.Sound) :
    ({ s with nextListenerTag := s.nextListenerTag + 1 } : ListenerManager Name Address Body).Sound :=
  ⟨{ h.named with }, { h.flow with }, { h.counted with },
    ⟨h.tagged.nodup, fun other hmem => Nat.lt_succ_of_lt (h.tagged.below other hmem)⟩⟩

theorem Placed.sound (h : s.Sound)
    (hplaced : Placed { s with nextListenerTag := s.nextListenerTag + 1 } newListener placed)
    (htag : newListener.listenerTag = s.nextListenerTag) : placed.Sound := by
  have hmoved := hplaced.moved
  refine ⟨hplaced.named h.skip.named, ?_, hmoved.counted h.counted h.flow h.tagged, ?_⟩
  · refine hmoved.flow h.flow h.tagged (fun hstarted other hmem => ?_) fun _ => .inl rfl
    refine mem_append_left _ ?_
    cases hplaced with
    | replaceWarming | addWarming => exact hmem
    | replaceActive existing hunstarted _ _ => cases hstarted.symm.trans hunstarted
    | addActive hunstarted _ _ => cases hstarted.symm.trans hunstarted
  · have hnext : placed.nextListenerTag = s.nextListenerTag + 1 := by cases hplaced <;> rfl
    refine h.tagged.grow hnext fun other => ?_
    have hcount := hplaced.count h.named other
    rw [htag] at hcount
    rw [← singleton_append]
    simp only [tags, hmoved.drainingTags, hmoved.destroyed, count_append, Option.toList_none,
      map_nil, count_nil]
    omega

end Names

end Meliproxy.Envoy.Server.ListenerManager
