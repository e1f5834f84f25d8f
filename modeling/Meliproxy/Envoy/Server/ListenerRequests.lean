import Meliproxy.Envoy.Server.ListenerManager

/-!
# Lists of listeners by name

What `getListenerByName` finds after a list has changed, and the listeners of the changed list up to
their order.
-/

namespace Meliproxy.Envoy.Server.ListenerManager

open Lib List Option

variable {Name Address Body : Type} [DecidableEq Name]
  {listeners : List (ListenerImpl Name Address Body)}
  {listener newListener : ListenerImpl Name Address Body} {name : Name}

theorem mem_of_getListenerByName (h : getListenerByName listeners name = some listener) :
    listener ∈ listeners ∧ listener.name = name :=
  ⟨mem_of_find?_eq_some h, by simpa using find?_some h⟩

theorem getListenerByName_eq_none :
    getListenerByName listeners name = none ↔ ∀ listener ∈ listeners, listener.name ≠ name := by
  rw [getListenerByName, find?_eq_none]
  simp

theorem getListenerByName_of_mem (hnodup : (listeners.map ListenerImpl.name).Nodup)
    (hmem : listener ∈ listeners) : getListenerByName listeners listener.name = some listener := by
  cases hfound : getListenerByName listeners listener.name with
  | none => exact absurd rfl (getListenerByName_eq_none.mp hfound listener hmem)
  | some other =>
    obtain ⟨hother, hname⟩ := mem_of_getListenerByName hfound
    rw [inj_on_of_nodup_map hnodup hother hmem hname]

theorem getListenerByName_erase_self : getListenerByName (eraseByName listeners name) name = none := by
  refine getListenerByName_eq_none.mpr fun listener hmem => ?_
  simpa using (mem_filter.mp hmem).2

theorem getListenerByName_erase_ne {other : Name} (hne : other ≠ name) :
    getListenerByName (eraseByName listeners name) other = getListenerByName listeners other := by
  rw [getListenerByName, getListenerByName, eraseByName, find?_filter]
  congr 1
  funext listener
  by_cases hname : listener.name = other
  · simp [hname, hne]
  · simp [hname]

theorem getListenerByName_replace_self (hexists : getListenerByName listeners newListener.name ≠ none) :
    getListenerByName (replaceByName listeners newListener) newListener.name = some newListener := by
  induction listeners with
  | nil => exact absurd rfl hexists
  | cons first rest ih =>
    rw [replaceByName, map_cons]
    by_cases hname : first.name = newListener.name
    · rw [if_pos hname, getListenerByName, find?_cons_of_pos (by simp)]
    · rw [if_neg hname, getListenerByName, find?_cons_of_neg (by simpa using hname)]
      rw [getListenerByName, find?_cons_of_neg (by simpa using hname)] at hexists
      exact ih hexists

theorem getListenerByName_replace_ne (hne : name ≠ newListener.name) :
    getListenerByName (replaceByName listeners newListener) name = getListenerByName listeners name := by
  induction listeners with
  | nil => rfl
  | cons first rest ih =>
    rw [replaceByName, map_cons, getListenerByName, getListenerByName]
    by_cases hname : first.name = newListener.name
    · rw [if_pos hname, find?_cons_of_neg (by simpa using hne.symm),
        find?_cons_of_neg (by simpa [hname] using hne.symm)]
      exact ih
    · rw [if_neg hname]
      by_cases hfirst : first.name = name
      · rw [find?_cons_of_pos (by simpa using hfirst), find?_cons_of_pos (by simpa using hfirst)]
      · rw [find?_cons_of_neg (by simpa using hfirst), find?_cons_of_neg (by simpa using hfirst)]
        exact ih

theorem getListenerByName_append_ne (hne : name ≠ newListener.name) :
    getListenerByName (listeners ++ [newListener]) name = getListenerByName listeners name := by
  rw [getListenerByName, find?_append, find?_cons_of_neg (by simpa using hne.symm),
    find?_nil, or_none]
  rfl

theorem getListenerByName_append_self (hnew : getListenerByName listeners newListener.name = none) :
    getListenerByName (listeners ++ [newListener]) newListener.name = some newListener := by
  rw [getListenerByName, find?_append]
  rw [getListenerByName] at hnew
  rw [hnew, find?_cons_of_pos (by simp)]
  rfl

theorem perm_eraseByName (hnodup : (listeners.map ListenerImpl.name).Nodup)
    (hmem : listener ∈ listeners) : listeners.Perm (listener :: eraseByName listeners listener.name) := by
  induction listeners with
  | nil => exact absurd hmem not_mem_nil
  | cons first rest ih =>
    obtain ⟨hfirst, hrest⟩ := nodup_cons.mp hnodup
    rcases mem_cons.mp hmem with rfl | hmem
    · have hkept : eraseByName rest listener.name = rest := by
        refine filter_eq_self.mpr fun other hother => ?_
        have hne : other.name ≠ listener.name := fun heq => hfirst (heq ▸ List.mem_map_of_mem hother)
        simpa using hne
      rw [eraseByName, filter_cons_of_neg (by simp), ← eraseByName, hkept]
    · have hne : first.name ≠ listener.name := fun heq => hfirst (heq ▸ List.mem_map_of_mem hmem)
      rw [eraseByName, filter_cons_of_pos (by simpa using hne), ← eraseByName]
      exact ((ih hrest hmem).cons first).trans (List.Perm.swap ..)

theorem perm_replaceByName (hnodup : (listeners.map ListenerImpl.name).Nodup)
    (hmem : listener ∈ listeners) (hname : listener.name = newListener.name) :
    (replaceByName listeners newListener).Perm
      (newListener :: eraseByName listeners newListener.name) := by
  induction listeners with
  | nil => exact absurd hmem not_mem_nil
  | cons first rest ih =>
    obtain ⟨hfirst, hrest⟩ := nodup_cons.mp hnodup
    rw [replaceByName, map_cons]
    rcases mem_cons.mp hmem with rfl | hmem
    · have hother (other : ListenerImpl Name Address Body) (hother : other ∈ rest) :
          other.name ≠ newListener.name := fun heq =>
        hfirst (hname.trans heq.symm ▸ List.mem_map_of_mem hother)
      have hkept : eraseByName rest newListener.name = rest :=
        filter_eq_self.mpr fun other hmem => by simpa using hother other hmem
      have hreplaced : rest.map (fun listener =>
          if listener.name = newListener.name then newListener else listener) = rest := by
        conv_rhs => rw [← List.map_id rest]
        exact map_congr_left fun other hmem => if_neg (hother other hmem)
      rw [if_pos hname, hreplaced, eraseByName, filter_cons_of_neg (by simpa using hname),
        ← eraseByName, hkept]
    · have hne : first.name ≠ newListener.name := fun heq =>
        hfirst (heq.trans hname.symm ▸ List.mem_map_of_mem hmem)
      rw [if_neg hne, eraseByName, filter_cons_of_pos (by simpa using hne), ← eraseByName]
      exact ((ih hrest hmem).cons first).trans (List.Perm.swap ..)

theorem mem_replaceByName (h : listener ∈ replaceByName listeners newListener) :
    listener = newListener ∨ listener ∈ listeners := by
  obtain ⟨old, hold, rfl⟩ := mem_map.mp h
  split
  · exact .inl rfl
  · exact .inr hold

theorem names_replaceByName :
    (replaceByName listeners newListener).map ListenerImpl.name = listeners.map ListenerImpl.name := by
  rw [replaceByName, List.map_map]
  refine map_congr_left fun listener _ => ?_
  rw [Function.comp_apply]
  split
  · rename_i hname
    exact hname.symm
  · rfl

/-!
## The listener a request leaves behind

`current` is the listener that is warming, or active if none is warming, and `wanted` what the
requests say it is: the last one wins, and only the failure of its own listener undoes it. Warming
moves a listener without changing what is current.
-/

variable {s s' : ListenerManager Name Address Body} {other : Name} {listenerTag : Nat}

/-- The configuration a name is left with by a request, and the listener that answers to it. -/
def applyRequest (name : Name) (wanted : Option (ListenerConfig Name Address Body × Nat)) :
    Request Name Address Body → Option (ListenerConfig Name Address Body × Nat)
  | .addOrUpdate requested config listenerTag =>
    if requested = name then some (config, listenerTag) else wanted
  | .remove requested => if requested = name then none else wanted
  | .failed listenerTag => wanted.filter fun wanted => wanted.2 ≠ listenerTag

variable (requests : List (Request Name Address Body))

def wanted (name : Name) :
    Option (ListenerConfig Name Address Body × Nat) := requests.foldl (applyRequest name) none

theorem wanted_concat (request : Request Name Address Body) : wanted (requests ++ [request]) name =
      applyRequest name (wanted requests name) request := by
  rw [wanted, foldl_append]
  rfl

/-- No name is taken twice, and nothing warms before the workers have started. -/
structure Named (s : ListenerManager Name Address Body) : Prop where
  active : (s.active.map ListenerImpl.name).Nodup
  warming : (s.warming.map ListenerImpl.name).Nodup
  unstarted : s.workersStarted = false → s.warming = []

omit [DecidableEq Name] in
theorem Named.congr (h : s.Named) (hactive : s'.active = s.active) (hwarming : s'.warming = s.warming)
    (hstarted : s'.workersStarted = s.workersStarted) : s'.Named :=
  ⟨hactive ▸ h.active, hwarming ▸ h.warming, fun hunstarted =>
    hwarming ▸ h.unstarted (hstarted ▸ hunstarted)⟩

theorem current_congr (hactive : s'.active = s.active) (hwarming : s'.warming = s.warming) :
    s'.current name = s.current name := by
  rw [current, current, hactive, hwarming]

theorem current_eq_none : s.current name = none ↔
    getListenerByName s.warming name = none ∧ getListenerByName s.active name = none :=
  or_eq_none_iff

theorem mem_of_current (h : s.current name = some listener) :
    listener ∈ s.active ++ s.warming ∧ listener.name = name := by
  rcases or_eq_some_iff.mp h with hfound | ⟨-, hfound⟩
  · exact ⟨mem_append_right _ (mem_of_getListenerByName hfound).1,
      (mem_of_getListenerByName hfound).2⟩
  · exact ⟨mem_append_left _ (mem_of_getListenerByName hfound).1,
      (mem_of_getListenerByName hfound).2⟩

variable {listeners : List (ListenerImpl Name Address Body)}

section

variable (h : (listeners.map ListenerImpl.name).Nodup)
include h

theorem nodup_eraseByName :
    ((eraseByName listeners name).map ListenerImpl.name).Nodup := h.sublist (filter_sublist.map _)

theorem nodup_replaceByName :
    ((replaceByName listeners newListener).map ListenerImpl.name).Nodup := by
  rw [names_replaceByName]
  exact h

theorem nodup_append (hnew : getListenerByName listeners newListener.name = none) :
    ((listeners ++ [newListener]).map ListenerImpl.name).Nodup := by
  rw [map_append]
  refine h.append (nodup_singleton _) fun taken hmem hname => ?_
  obtain ⟨listener, hlistener, rfl⟩ := List.mem_map.mp hmem
  exact getListenerByName_eq_none.mp hnew listener hlistener (mem_singleton.mp hname)

end

theorem removeListener_active : (s.removeListener name).active = eraseByName s.active name := by
  rw [removeListener]
  split
  · rename_i hactive
    exact (filter_eq_self.mpr fun listener hmem => by
      simpa using getListenerByName_eq_none.mp hactive listener hmem).symm
  · cases hactive : getListenerByName s.active name with
    | some listener => rfl
    | none =>
      exact (filter_eq_self.mpr fun listener hmem => by
        simpa using getListenerByName_eq_none.mp hactive listener hmem).symm

theorem removeListener_warming : (s.removeListener name).warming = eraseByName s.warming name := by
  rw [removeListener]
  split
  · rename_i hwarming _
    exact (filter_eq_self.mpr fun listener hmem => by
      simpa using getListenerByName_eq_none.mp hwarming listener hmem).symm
  · cases getListenerByName s.active name <;> rfl

theorem removeListener_frame : (s.removeListener name).requests = s.requests ∧
    (s.removeListener name).workersStarted = s.workersStarted := by
  rw [removeListener]
  split
  · exact ⟨rfl, rfl⟩
  · cases getListenerByName s.active name <;> exact ⟨rfl, rfl⟩

theorem Named.removeListener (h : s.Named) : (s.removeListener name).Named := by
  refine ⟨?_, ?_, fun hunstarted => ?_⟩
  · rw [removeListener_active]
    exact nodup_eraseByName h.active
  · rw [removeListener_warming]
    exact nodup_eraseByName h.warming
  · rw [removeListener_frame.2] at hunstarted
    rw [removeListener_warming, h.unstarted hunstarted]
    rfl

theorem current_removeListener_self : (s.removeListener name).current name = none := by
  rw [current_eq_none, removeListener_active, removeListener_warming]
  exact ⟨getListenerByName_erase_self, getListenerByName_erase_self⟩

theorem current_removeListener_ne (hne : other ≠ name) :
    (s.removeListener name).current other = s.current other := by
  rw [current, current, removeListener_active, removeListener_warming,
    getListenerByName_erase_ne hne, getListenerByName_erase_ne hne]

omit [DecidableEq Name] in
theorem find_tag
    (h : listeners.find? (fun listener => listener.listenerTag = listenerTag) = some listener) :
    listener ∈ listeners ∧ listener.listenerTag = listenerTag :=
  ⟨mem_of_find?_eq_some h, by simpa using find?_some h⟩

variable (active : List (ListenerImpl Name Address Body))

def activate (listener : ListenerImpl Name Address Body) : List (ListenerImpl Name Address Body) :=
  match getListenerByName active listener.name with
  | some _ => replaceByName active listener
  | none => active ++ [listener]

theorem onListenerWarmed_lists
    (hfound : s.warming.find? (fun listener => listener.listenerTag = listenerTag) = some listener) :
    (s.onListenerWarmed listenerTag).active = activate s.active listener ∧
    (s.onListenerWarmed listenerTag).warming = eraseByName s.warming listener.name := by
  rw [onListenerWarmed, hfound, activate]
  cases hactive : getListenerByName s.active listener.name with
  | some existing => simp [hactive, enqueue, drainListener, updateWarmingActiveGauges]
  | none => simp [hactive, enqueue, updateWarmingActiveGauges]

theorem onListenerWarmed_cases (s : ListenerManager Name Address Body) (listenerTag : Nat) :
    s.onListenerWarmed listenerTag = s ∨ ∃ listener,
      s.warming.find? (fun listener => listener.listenerTag = listenerTag) = some listener := by
  rw [onListenerWarmed]
  cases s.warming.find? fun listener => listener.listenerTag = listenerTag with
  | none => exact .inl rfl
  | some listener => exact .inr ⟨listener, rfl⟩

theorem onListenerWarmed_frame : (s.onListenerWarmed listenerTag).requests = s.requests ∧
    (s.onListenerWarmed listenerTag).workersStarted = s.workersStarted := by
  rw [onListenerWarmed]
  split
  · exact ⟨rfl, rfl⟩
  · rename_i listener _
    rw [enqueue]
    dsimp only
    cases getListenerByName s.active listener.name <;> exact ⟨rfl, rfl⟩

theorem getListenerByName_activate_self :
    getListenerByName (activate active listener) listener.name = some listener := by
  rw [activate]
  split
  · rename_i hfound
    exact getListenerByName_replace_self (by rw [hfound]; exact some_ne_none _)
  · rename_i hnone
    exact getListenerByName_append_self hnone

theorem getListenerByName_activate_ne (hne : name ≠ listener.name) :
    getListenerByName (activate active listener) name = getListenerByName active name := by
  rw [activate]
  split
  · exact getListenerByName_replace_ne hne
  · exact getListenerByName_append_ne hne

variable {active : List (ListenerImpl Name Address Body)}

theorem mem_activate (h : listener ∈ activate active newListener) : listener = newListener ∨
    listener ∈ active := by
  rw [activate] at h
  split at h
  · exact mem_replaceByName h
  · rcases mem_append.mp h with h | h
    · exact .inr h
    · exact .inl (mem_singleton.mp h)

theorem nodup_activate (h : (active.map ListenerImpl.name).Nodup) :
    ((activate active listener).map ListenerImpl.name).Nodup := by
  rw [activate]
  split
  · exact nodup_replaceByName h
  · rename_i hnone
    exact nodup_append h hnone

theorem Named.onListenerWarmed (h : s.Named) : (s.onListenerWarmed listenerTag).Named := by
  rcases s.onListenerWarmed_cases listenerTag with hsame | ⟨listener, hfound⟩
  · rw [hsame]
    exact h
  · obtain ⟨hactive, hwarming⟩ := onListenerWarmed_lists hfound
    refine ⟨?_, ?_, fun hunstarted => ?_⟩
    · rw [hactive]
      exact nodup_activate h.active
    · rw [hwarming]
      exact nodup_eraseByName h.warming
    · rw [onListenerWarmed_frame.2] at hunstarted
      rw [hwarming, h.unstarted hunstarted]
      rfl

theorem Named.current_onListenerWarmed (h : s.Named) :
    (s.onListenerWarmed listenerTag).current name = s.current name := by
  rcases s.onListenerWarmed_cases listenerTag with hsame | ⟨listener, hfound⟩
  · rw [hsame]
  · obtain ⟨hactive, hwarming⟩ := onListenerWarmed_lists hfound
    rw [current, current, hactive, hwarming]
    by_cases hname : name = listener.name
    · subst hname
      rw [getListenerByName_erase_self, getListenerByName_activate_self,
        getListenerByName_of_mem h.warming (find_tag hfound).1]
      rfl
    · rw [getListenerByName_erase_ne hname, getListenerByName_activate_ne _ hname]

theorem mem_onListenerWarmed
    (h : listener ∈ (s.onListenerWarmed listenerTag).active ++ (s.onListenerWarmed listenerTag).warming) :
    listener ∈ s.active ++ s.warming := by
  rcases s.onListenerWarmed_cases listenerTag with hsame | ⟨warmed, hfound⟩
  · rw [hsame] at h
    exact h
  · obtain ⟨hactive, hwarming⟩ := onListenerWarmed_lists hfound
    rw [hactive, hwarming] at h
    rcases mem_append.mp h with h | h
    · rcases mem_activate h with rfl | h
      · exact mem_append_right _ (find_tag hfound).1
      · exact mem_append_left _ h
    · exact mem_append_right _ (mem_filter.mp h).1

/-- Where a new listener goes: in the place of the warming one, to the warming ones, and before the
workers have started in the place of the active one or to the active ones. -/
inductive Placed (s : ListenerManager Name Address Body)
    (newListener : ListenerImpl Name Address Body) : ListenerManager Name Address Body → Prop where
  | replaceWarming (existing : ListenerImpl Name Address Body)
      (hwarming : getListenerByName s.warming newListener.name = some existing) :
      Placed s newListener { s with warming := replaceByName s.warming newListener }
  | addWarming (hstarted : s.workersStarted = true)
      (hwarming : getListenerByName s.warming newListener.name = none) :
      Placed s newListener { s with warming := s.warming ++ [newListener] }
  | replaceActive (existing : ListenerImpl Name Address Body)
      (hstarted : s.workersStarted = false)
      (hwarming : getListenerByName s.warming newListener.name = none)
      (hactive : getListenerByName s.active newListener.name = some existing) :
      Placed s newListener { s with active := replaceByName s.active newListener }
  | addActive (hstarted : s.workersStarted = false)
      (hwarming : getListenerByName s.warming newListener.name = none)
      (hactive : getListenerByName s.active newListener.name = none) :
      Placed s newListener { s with active := s.active ++ [newListener] }

variable {placed : ListenerManager Name Address Body}

section

variable (h : Placed s newListener placed)
include h

theorem Placed.named (hnamed : s.Named) : placed.Named := by
  cases h with
  | replaceWarming existing hwarming =>
    refine ⟨hnamed.active, nodup_replaceByName hnamed.warming, fun hunstarted => ?_⟩
    have hempty : s.warming = [] := hnamed.unstarted hunstarted
    rw [hempty] at hwarming
    cases hwarming
  | addWarming hstarted hwarming =>
    refine ⟨hnamed.active, nodup_append hnamed.warming hwarming, fun hunstarted => ?_⟩
    cases hstarted.symm.trans hunstarted
  | replaceActive existing hstarted hwarming hactive =>
    exact ⟨nodup_replaceByName hnamed.active, hnamed.warming, hnamed.unstarted⟩
  | addActive hstarted hwarming hactive =>
    exact ⟨nodup_append hnamed.active hactive, hnamed.warming, hnamed.unstarted⟩

theorem Placed.current_self : placed.current newListener.name = some newListener := by
  rw [current]
  cases h with
  | replaceWarming existing hwarming =>
    rw [getListenerByName_replace_self (by rw [hwarming]; exact some_ne_none _)]
    rfl
  | addWarming hstarted hwarming =>
    rw [getListenerByName_append_self hwarming]
    rfl
  | replaceActive existing hstarted hwarming hactive =>
    rw [hwarming, none_or, getListenerByName_replace_self (by rw [hactive]; exact some_ne_none _)]
  | addActive hstarted hwarming hactive =>
    rw [hwarming, none_or, getListenerByName_append_self hactive]

theorem Placed.current_ne (hne : name ≠ newListener.name) :
    placed.current name = s.current name := by
  rw [current, current]
  cases h with
  | replaceWarming existing hwarming => rw [getListenerByName_replace_ne hne]
  | addWarming hstarted hwarming => rw [getListenerByName_append_ne hne]
  | replaceActive existing hstarted hwarming hactive => rw [getListenerByName_replace_ne hne]
  | addActive hstarted hwarming hactive => rw [getListenerByName_append_ne hne]

theorem Placed.mem (hmem : listener ∈ placed.active ++ placed.warming) :
    listener = newListener ∨ listener ∈ s.active ++ s.warming := by
  rw [mem_append] at hmem ⊢
  cases h with
  | replaceWarming existing hwarming =>
    rcases hmem with hmem | hmem
    · exact .inr (.inl hmem)
    · exact (mem_replaceByName hmem).imp_right .inr
  | addWarming hstarted hwarming =>
    rcases hmem with hmem | hmem
    · exact .inr (.inl hmem)
    · rcases mem_append.mp hmem with hmem | hmem
      · exact .inr (.inr hmem)
      · exact .inl (mem_singleton.mp hmem)
  | replaceActive existing hstarted hwarming hactive =>
    rcases hmem with hmem | hmem
    · exact (mem_replaceByName hmem).imp_right .inl
    · exact .inr (.inr hmem)
  | addActive hstarted hwarming hactive =>
    rcases hmem with hmem | hmem
    · rcases mem_append.mp hmem with hmem | hmem
      · exact .inr (.inl hmem)
      · exact .inl (mem_singleton.mp hmem)
    · exact .inr (.inr hmem)

end

section Update

variable [DecidableEq Address] {update : Update Name Address Body}

theorem addOrUpdateListener_cases (s : ListenerManager Name Address Body)
    (update : Update Name Address Body) :
    ((isDuplicate update (getListenerByName s.warming update.name) ||
        isDuplicate update (getListenerByName s.active update.name)) = true ∧
      s.addOrUpdateListener update = (s, some false)) ∨
    s.addOrUpdateListener update = ({ s with nextListenerTag := s.nextListenerTag + 1 }, none) ∨
    ∃ socketAddress placed added,
      Placed { s with nextListenerTag := s.nextListenerTag + 1 }
        (update.newListener s.nextListenerTag socketAddress) placed ∧
      s.addOrUpdateListener update =
        (placed.finishUpdate update s.nextListenerTag added, some true) := by
  rw [addOrUpdateListener]
  dsimp only
  split
  · rename_i hduplicate
    exact .inl ⟨hduplicate, rfl⟩
  · refine .inr ?_
    split
    · exact .inl rfl
    split
    · exact .inl rfl
    split
    · rename_i existing hwarming
      exact .inr ⟨existing.socketAddress, _, _, .replaceWarming existing hwarming, rfl⟩
    · rename_i existing hwarming hactive
      refine .inr ⟨existing.socketAddress, _, _, ?_, rfl⟩
      split
      · rename_i hstarted
        exact .addWarming hstarted hwarming
      · rename_i hstarted
        exact .replaceActive existing (Bool.eq_false_iff.mpr hstarted) hwarming hactive
    · rename_i hwarming hactive
      split
      · exact .inl rfl
      split
      · exact .inl rfl
      · rename_i socketAddress _
        refine .inr ⟨socketAddress, _, _, ?_, rfl⟩
        split
        · rename_i hstarted
          exact .addWarming hstarted hwarming
        · rename_i hstarted
          exact .addActive (Bool.eq_false_iff.mpr hstarted) hwarming hactive

end Update

end Meliproxy.Envoy.Server.ListenerManager
