import Meliproxy.Logs.Watch

/-!
# The records of the watcher

`Keyed` is the invariant of `byHour` with its records as objects: an object keeps its date
and hour, so the references of `finalData` are to objects of different hours. `view` forgets
the objects, and what is left are the records of `ByHour.aggregateLogs`.
-/

namespace Meliproxy.Logs

open Lib List

def Record.slot (r : Record) : Slot := ⟨r.date, r.hour⟩

theorem slot_add (r : Record) (line : Line) : (r.add line).slot = r.slot := by
  unfold Record.add Record.addTimes
  cases outcome line <;> grind [Record.countOutcome, Record.slot]

theorem slot_getEmptyRecord (m : Int) : (getEmptyRecord m).slot = slotOf m := rfl

namespace Hashes

variable {h : Hashes} {slot : Slot}

def slots (h : Hashes) : List Slot := h.objects.map Record.slot

/-- Every key of `byHour` is there once, and leads to a record of that date and hour. -/
structure Keyed (h : Hashes) : Prop where
  days : h.days.Nodup
  keys : (h.entries.map Prod.fst).Nodup
  objects : ∀ e ∈ h.entries, h.slots[e.2]? = some e.1

theorem find_eq_none (h : Hashes) (slot : Slot) (hfind : h.find slot = none) :
    slot ∉ h.entries.map Prod.fst := by
  intro hmem
  obtain ⟨e, he, rfl⟩ := mem_map.mp hmem
  have hnone := List.lookup_eq_none_iff.mp hfind e he
  simp at hnone

theorem keyed_reset (h : Hashes) : h.reset.Keyed := by
  refine ⟨nodup_nil, nodup_nil, ?_⟩
  intro e he
  cases he

theorem keyed_addDay (hk : h.Keyed) (day : Int) : (h.addDay day).Keyed := by
  unfold addDay
  split
  · exact hk
  · rename_i hday
    refine ⟨?_, hk.keys, hk.objects⟩
    exact List.Nodup.append hk.days (nodup_singleton day)
      (disjoint_singleton.mpr hday)

theorem slots_create (h : Hashes) (slot : Slot) (record : Record) :
    (h.create slot record).slots = h.slots ++ [record.slot] := by
  simp [create, slots]

theorem keyed_create (hk : h.Keyed) (hfind : h.find slot = none) {record : Record}
    (hrecord : record.slot = slot) : (h.create slot record).Keyed := by
  refine ⟨hk.days, ?_, ?_⟩
  · have habsent := find_eq_none h slot hfind
    simp only [create, map_append, map_cons, map_nil]
    exact List.Nodup.append hk.keys (nodup_singleton slot)
      (disjoint_singleton.mpr habsent)
  · intro e he
    rw [slots_create]
    rcases mem_append.mp he with he | he
    · have hobject := hk.objects e he
      obtain ⟨hlt, -⟩ := List.getElem?_eq_some_iff.mp hobject
      rw [getElem?_append_left hlt]
      exact hobject
    · obtain rfl := mem_singleton.mp he
      have hlength : h.objects.length = h.slots.length := by simp [slots]
      simp [hlength, hrecord]

theorem keyed_fill (hk : h.Keyed) (cursor : Int) : (h.fill cursor).Keyed := by
  have hday := keyed_addDay hk (slotOf cursor).day
  simp only [fill]
  split
  · exact hday
  · rename_i hfind
    refine keyed_create hday ?_ (slot_getEmptyRecord cursor)
    simpa using hfind

theorem slots_fill (h : Hashes) (cursor : Int) : ∃ more, (h.fill cursor).slots = h.slots ++ more := by
  have hday : (h.addDay (slotOf cursor).day).slots = h.slots := by
    unfold addDay
    split <;> rfl
  simp only [fill]
  split
  · exact ⟨[], by rw [hday, append_nil]⟩
  · exact ⟨_, by rw [slots_create, hday]⟩

theorem keyed_fillHourGaps (hk : h.Keyed) (now : Int) : (h.fillHourGaps now).Keyed := by
  unfold fillHourGaps
  generalize List.range (hoursBefore now) = cursors
  induction cursors generalizing h with
  | nil => exact hk
  | cons n cursors ih => exact ih (keyed_fill hk _)

theorem slots_fillHourGaps (h : Hashes) (now : Int) :
    ∃ more, (h.fillHourGaps now).slots = h.slots ++ more := by
  unfold fillHourGaps
  generalize List.range (hoursBefore now) = cursors
  induction cursors generalizing h with
  | nil => exact ⟨[], (append_nil _).symm⟩
  | cons n cursors ih =>
    obtain ⟨first, hfirst⟩ := slots_fill h (n * hourMs)
    obtain ⟨more, hmore⟩ := ih (h.fill (n * hourMs))
    refine ⟨first ++ more, ?_⟩
    rw [foldl_cons, hmore, hfirst, append_assoc]

theorem slots_modify (h : Hashes) (i : Nat) (line : Line) :
    ({ h with objects := h.objects.modify i (·.add line) } : Hashes).slots = h.slots := by
  unfold slots
  apply ext_getElem?
  intro j
  simp only [getElem?_map, getElem?_modify]
  cases h.objects[j]? with
  | none => rfl
  | some r =>
    by_cases hij : i = j
    · simp [hij, slot_add]
    · simp [hij]

theorem keyed_addLine (hk : h.Keyed) {line : Line} {h' : Hashes}
    (hline : h.addLine line = .ok h') : h'.Keyed := by
  unfold addLine at hline
  split at hline
  · cases hline
  · rename_i m hm
    split at hline
    · split at hline
      · rename_i i hfind
        cases hline
        refine ⟨hk.days, hk.keys, ?_⟩
        intro e he
        rw [slots_modify]
        exact hk.objects e he
      · rename_i hfind
        cases hline
        exact keyed_create hk hfind (slot_add _ _)
    · cases hline

theorem perm_objectKeys (entries : List (Slot × Nat)) : (objectKeys entries).Perm entries := by
  unfold objectKeys
  refine ((perm_insertionSort _ _).append_right _).trans ?_
  have hsplit := filter_append_perm (fun e : Slot × Nat => decide (10 ≤ e.1.hour)) entries
  refine .trans (.append_left _ (.of_eq ?_)) hsplit
  apply filter_congr
  intro e he
  simp only [decide_not, ← not_le]

def Distinct (slots : List Slot) (refs : List Nat) : Prop :=
  (∀ i ∈ refs, i < slots.length) ∧ (refs.map fun i => slots[i]?).Nodup

theorem distinct_append {slots : List Slot} {refs : List Nat} (hd : Distinct slots refs)
    (more : List Slot) : Distinct (slots ++ more) refs := by
  refine ⟨?_, ?_⟩
  · intro i hi
    have := hd.1 i hi
    rw [length_append]
    omega
  · have hsame : refs.map (fun i => (slots ++ more)[i]?) = refs.map fun i => slots[i]? := by
      apply map_congr_left
      intro i hi
      exact getElem?_append_left (hd.1 i hi)
    rw [hsame]
    exact hd.2

theorem finalData_distinct (hk : h.Keyed) : Distinct h.slots h.finalData := by
  have hentry : ∀ day, ∀ e ∈ objectKeys (h.entries.filter fun e => e.1.day = day),
      e ∈ h.entries ∧ e.1.day = day := by
    intro day e he
    have hmem := (perm_objectKeys _).mem_iff.mp he
    simpa using mem_filter.mp hmem
  refine ⟨?_, ?_⟩
  · intro i hi
    obtain ⟨day, -, hi⟩ := mem_flatMap.mp hi
    obtain ⟨e, he, rfl⟩ := mem_map.mp hi
    obtain ⟨hlt, -⟩ := List.getElem?_eq_some_iff.mp (hk.objects e (hentry day e he).1)
    exact hlt
  · have hslots : (h.finalData.map fun i => h.slots[i]?) =
        h.days.flatMap fun day =>
          (objectKeys (h.entries.filter fun e => e.1.day = day)).map fun e => some e.1 := by
      unfold finalData
      rw [map_flatMap]
      congr 1
      funext day
      rw [map_map]
      apply map_congr_left
      intro e he
      exact hk.objects e (hentry day e he).1
    rw [hslots, nodup_flatMap]
    refine ⟨?_, ?_⟩
    · intro day _
      rw [((perm_objectKeys _).map _).nodup_iff]
      have hkeys := hk.keys.map (Option.some_injective _)
      rw [map_map] at hkeys
      exact hkeys.sublist (filter_sublist.map _)
    · refine hk.days.imp ?_
      intro day day' hne
      refine disjoint_left.mpr ?_
      intro slot hslot hslot'
      obtain ⟨e, he, rfl⟩ := mem_map.mp hslot
      obtain ⟨e', he', hsame⟩ := mem_map.mp hslot'
      apply hne
      rw [← (hentry day e he).2, ← (hentry day' e' he').2, Option.some.inj hsame]

end Hashes

/-- `byHour`: the days that have a hash, and the records in these. -/
structure ByHour where
  days : Int → Bool
  records : Slot → Option Record

namespace ByHour

variable (b : ByHour)

def set (slot : Slot) (record : Record) : ByHour :=
  { b with records := Function.update b.records slot (some record) }

def fill (cursor : Int) : ByHour :=
  let b := { b with days := Function.update b.days (slotOf cursor).day true }
  if (b.records (slotOf cursor)).isSome then b
  else b.set (slotOf cursor) (getEmptyRecord cursor)

def fillHourGaps (now : Int) : ByHour :=
  (List.range (Hashes.hoursBefore now)).foldl (fun b (n : Nat) => b.fill (n * hourMs))
    ⟨fun _ => false, fun _ => none⟩

def addLine (line : Line) : Except Failure ByHour :=
  match line.datetimeMoment with
  | none => .error .typeError
  | some m =>
    if b.days (slotOf m).day then
      .ok (b.set (slotOf m) (((b.records (slotOf m)).getD (getEmptyRecord m)).add line))
    else .error .typeError

variable (moment : JsString → Option Int)

def handleLine (b : ByHour) (line : JsString) : Except Failure ByHour :=
  if line = [] then .ok b
  else do
    let line ← parseLine moment line
    b.addLine line

/-- The callback of `readFile`: the lines of a file, in their order. -/
def handleFile (b : ByHour) (data : Bytes) : Except Failure ByHour :=
  ((Utf8.decode data).splitOn '\n').foldlM (handleLine moment) b

/-- `aggregateLogs` up to the last line: the files in the order in which their reads complete. -/
def aggregateLogs (now : Int) (files : List Bytes) : Except Failure ByHour :=
  files.foldlM (handleFile moment) (fillHourGaps now)

end ByHour

namespace Hashes

variable {h : Hashes} {slot : Slot}

def view (h : Hashes) : ByHour where
  days day := day ∈ h.days
  records slot := (h.find slot).bind fun i => h.objects[i]?

theorem view_records (h : Hashes) (slot : Slot) :
    h.view.records slot = (h.find slot).bind fun i => h.objects[i]? := rfl

theorem object_of_find (hk : h.Keyed) {i : Nat} (hfind : h.find slot = some i) :
    ∃ r, h.objects[i]? = some r ∧ r.slot = slot := by
  obtain ⟨l, l', heq, -⟩ := lookup_eq_some_iff.mp hfind
  have hslot := hk.objects (slot, i) (by simp [heq])
  rw [slots, getElem?_map] at hslot
  exact Option.map_eq_some_iff.mp hslot

theorem view_addDay (h : Hashes) (day : Int) :
    (h.addDay day).view = { h.view with days := Function.update h.view.days day true } := by
  refine congrArg₂ ByHour.mk (funext fun d => ?_) (funext fun slot => ?_)
  · simp only [addDay, view, Function.update_apply]
    split <;> split <;> simp_all
  · simp only [addDay, view, find]
    split <;> rfl

theorem view_create (hk : h.Keyed) (hfind : h.find slot = none) (record : Record) :
    (h.create slot record).view = h.view.set slot record := by
  refine congrArg (ByHour.mk h.view.days) (funext fun slot' => ?_)
  simp only [view, create, find, lookup_append, Function.update_apply] at hfind ⊢
  split
  · rename_i heq
    simp [heq, hfind]
  · rename_i hne
    cases hfind' : h.entries.lookup slot' with
    | none => simp [lookup_cons, beq_false_of_ne hne]
    | some i =>
      obtain ⟨r, hr, -⟩ := object_of_find hk hfind'
      simp [getElem?_append_left (List.getElem?_eq_some_iff.mp hr).1]

theorem view_fill (hk : h.Keyed) (cursor : Int) : (h.fill cursor).view = h.view.fill cursor := by
  have hday := keyed_addDay hk (slotOf cursor).day
  have hfill : h.view.fill cursor =
      if ((h.addDay (slotOf cursor).day).view.records (slotOf cursor)).isSome then
        (h.addDay (slotOf cursor).day).view
      else (h.addDay (slotOf cursor).day).view.set (slotOf cursor) (getEmptyRecord cursor) := by
    rw [view_addDay]
    rfl
  rw [hfill, fill]
  generalize h.addDay (slotOf cursor).day = h at hday
  cases hfind : h.find (slotOf cursor) with
  | none => simp [view_create hday hfind, view_records, hfind]
  | some i =>
    obtain ⟨r, hr, -⟩ := object_of_find hday hfind
    simp [view_records, hfind, hr]

theorem view_fillHourGaps (h : Hashes) (now : Int) :
    (h.reset.fillHourGaps now).view = .fillHourGaps now := by
  have hempty : h.reset.view = ⟨fun _ => false, fun _ => none⟩ := by simp [view, reset, find]
  have hk := keyed_reset h
  unfold fillHourGaps ByHour.fillHourGaps
  rw [← hempty]
  generalize h.reset = h, List.range (hoursBefore now) = cursors at hk
  induction cursors generalizing h with
  | nil => rfl
  | cons n cursors ih => rw [foldl_cons, ih _ (keyed_fill hk _), view_fill hk, foldl_cons]

theorem view_modify (hk : h.Keyed) {i : Nat} (hfind : h.find slot = some i) {r : Record}
    (hr : h.objects[i]? = some r) (line : Line) :
    ({ h with objects := h.objects.modify i (·.add line) } : Hashes).view =
      h.view.set slot (r.add line) := by
  refine congrArg (ByHour.mk h.view.days) (funext fun slot' => ?_)
  change (h.find slot').bind _ = _
  rw [Function.update_apply]
  split
  · rename_i heq
    simp [heq, hfind, hr]
  · rename_i hne
    cases hfind' : h.find slot' with
    | none => simp [view, hfind']
    | some j =>
      obtain ⟨r', hr', hslot'⟩ := object_of_find hk hfind'
      obtain ⟨r₀, hr₀, hslot⟩ := object_of_find hk hfind
      have hij : i ≠ j := by
        rintro rfl
        cases hr₀.symm.trans hr'
        exact hne (hslot'.symm.trans hslot)
      simp [getElem?_modify, hij, view, hfind']

theorem view_addLine (hk : h.Keyed) (line : Line) :
    (h.addLine line).map view = h.view.addLine line := by
  unfold addLine ByHour.addLine
  cases line.datetimeMoment with
  | none => rfl
  | some m =>
    by_cases hday : (slotOf m).day ∈ h.days
    · have hday' : h.view.days (slotOf m).day = true := decide_eq_true hday
      simp only [hday, hday', if_true]
      cases hfind : h.find (slotOf m) with
      | none => simp [Except.map, view_records, hfind, view_create hk hfind]
      | some i =>
        obtain ⟨r, hr, -⟩ := object_of_find hk hfind
        simp [Except.map, view_records, hfind, hr, view_modify hk hfind hr]
    · have hday' : ¬ h.view.days (slotOf m).day = true := by simpa [view] using hday
      simp only [if_neg hday, if_neg hday']
      rfl

end Hashes

end Meliproxy.Logs
