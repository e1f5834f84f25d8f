import Mathlib.Data.List.Basic
import Mathlib.Tactic.Ring

/-!
# Texts that end each name with a separator

A list of names is written by putting the separator after every one of them. The
separator may occur inside a name, so the text only remembers the pieces between
separators, not which name each piece belongs to. `terminated_append_inj` says
exactly how much of the list survives.
-/

namespace Lib

open List

universe u
variable {α : Type u} [DecidableEq α]

variable (sep : α)

def terminated (names : List (List α)) : List α :=
  names.flatMap fun name => name ++ [sep]

/-- The pieces of all names, in order, with the grouping into names forgotten. -/
def pieces (names : List (List α)) : List (List α) :=
  names.flatMap (List.splitOn sep)

def grouping (names : List (List α)) : List Nat :=
  names.map fun name => (name.splitOn sep).length

theorem splitOn_injective {xs ys : List α} (h : xs.splitOn sep = ys.splitOn sep) :
    xs = ys := by
  rw [← @intercalate_splitOn _ xs _ _ sep, h, intercalate_splitOn]

theorem splitOn_terminated (names : List (List α)) (rest : List α) :
    (terminated sep names ++ rest).splitOn sep = pieces sep names ++ rest.splitOn sep := by
  induction names with
  | nil => rfl
  | cons name names ih =>
    have htext : terminated sep (name :: names) ++ rest =
        name ++ sep :: (terminated sep names ++ rest) := by simp [terminated]
    rw [htext, splitOn_append_cons_self, ih]
    simp [pieces]

theorem splitOn_terminated_append (names : List (List α)) {last : List α}
    (hlast : sep ∉ last) :
    (terminated sep names ++ last).splitOn sep = pieces sep names ++ [last] := by
  rw [splitOn_terminated, splitOn_eq_singleton hlast]

theorem pieces_of_notMem {sep : α} {names : List (List α)} (h : ∀ name ∈ names, sep ∉ name) :
    pieces sep names = names := by
  induction names with
  | nil => rfl
  | cons name names ih =>
    have hhead := splitOn_eq_singleton (h name mem_cons_self)
    rw [pieces, flatMap_cons, hhead]
    exact congrArg (name :: ·) (ih fun n hn => h n (mem_cons_of_mem name hn))

theorem splitOn_eq_cons (sep : α) (xs : List α) :
    ∃ tail, xs.splitOn sep = xs.takeWhile (· ≠ sep) :: tail ∧ (sep ∉ xs → tail = []) := by
  induction xs with
  | nil => exact ⟨[], rfl, fun _ => rfl⟩
  | cons x xs ih =>
    obtain ⟨tail, htail, hnone⟩ := ih
    by_cases hx : x = sep
    · subst hx
      refine ⟨xs.splitOn x, ?_, fun h => absurd mem_cons_self h⟩
      have hcons := splitOn_append_cons_self (α := α) (a := x) [] xs
      rw [nil_append] at hcons
      rw [hcons, takeWhile_cons_of_neg (by simp)]
      rfl
    · refine ⟨tail, ?_, fun h => hnone fun hmem => h (mem_cons_of_mem x hmem)⟩
      rw [splitOn_cons_eq_if_modifyHead, if_neg (by simpa using hx), htail,
        takeWhile_cons_of_pos (by simpa using hx)]
      rfl

theorem splitOn_append_of_notMem {sep : α} {start : List α} (h : sep ∉ start) (xs : List α) :
    (start ++ xs).splitOn sep = (xs.splitOn sep).modifyHead (start ++ ·) := by
  induction start with
  | nil => cases hs : xs.splitOn sep <;> simp [hs]
  | cons x start ih =>
    have hx : x ≠ sep := fun hx => h (hx ▸ mem_cons_self)
    rw [cons_append, splitOn_cons_eq_if_modifyHead, if_neg (by simpa using hx),
      ih fun hmem => h (mem_cons_of_mem x hmem), modifyHead_modifyHead]
    rfl

theorem notMem_of_mem_splitOn {sep : α} {xs piece : List α} (h : piece ∈ xs.splitOn sep) :
    sep ∉ piece := by
  induction xs generalizing piece with
  | nil =>
    rw [mem_singleton.mp h]
    exact not_mem_nil
  | cons x xs ih =>
    rw [splitOn_cons_eq_if_modifyHead] at h
    obtain ⟨tail, htail, -⟩ := splitOn_eq_cons sep xs
    split at h
    · rcases mem_cons.mp h with rfl | h
      · exact not_mem_nil
      · exact ih h
    · rename_i hx
      rw [htail, modifyHead_cons] at h
      rcases mem_cons.mp h with rfl | h
      · intro hmem
        rcases mem_cons.mp hmem with hmem | hmem
        · exact hx (by simp [hmem])
        · exact ih (htail ▸ mem_cons_self) hmem
      · exact ih (htail ▸ mem_cons_of_mem _ h)

theorem exists_mem_splitOn {sep x : α} {xs : List α} (hx : x ≠ sep) (h : x ∈ xs) :
    ∃ piece ∈ xs.splitOn sep, x ∈ piece := by
  induction xs with
  | nil => cases h
  | cons y xs ih =>
    rw [splitOn_cons_eq_if_modifyHead]
    split
    · rename_i hy
      have hne : x ≠ y := fun hxy => hx (hxy.trans (by simpa using hy))
      obtain ⟨piece, hp, hmem⟩ := ih ((mem_cons.mp h).resolve_left hne)
      exact ⟨piece, mem_cons_of_mem _ hp, hmem⟩
    · obtain ⟨tail, htail, -⟩ := splitOn_eq_cons sep xs
      rw [htail, modifyHead_cons]
      rcases mem_cons.mp h with rfl | h
      · exact ⟨_, mem_cons_self, mem_cons_self⟩
      · obtain ⟨piece, hp, hmem⟩ := ih h
        rw [htail] at hp
        rcases mem_cons.mp hp with rfl | hp
        · exact ⟨_, mem_cons_self, mem_cons_of_mem y hmem⟩
        · exact ⟨piece, mem_cons_of_mem _ hp, hmem⟩

theorem mem_of_mem_splitOn {sep x : α} {xs piece : List α} (h : piece ∈ xs.splitOn sep)
    (hx : x ∈ piece) : x ∈ xs := by
  induction xs generalizing piece with
  | nil =>
    rw [mem_singleton.mp h] at hx
    cases hx
  | cons y xs ih =>
    rw [splitOn_cons_eq_if_modifyHead] at h
    obtain ⟨tail, htail, -⟩ := splitOn_eq_cons sep xs
    split at h
    · rcases mem_cons.mp h with rfl | h
      · cases hx
      · exact mem_cons_of_mem y (ih h hx)
    · rw [htail, modifyHead_cons] at h
      rcases mem_cons.mp h with rfl | h
      · rcases mem_cons.mp hx with rfl | hx
        · exact mem_cons_self
        · exact mem_cons_of_mem y (ih (htail ▸ mem_cons_self) hx)
      · exact mem_cons_of_mem y (ih (htail ▸ mem_cons_of_mem _ h) hx)

theorem terminated_append_inj (sep : α) (names names' : List (List α)) {last last' : List α}
    (hlast : sep ∉ last) (hlast' : sep ∉ last') :
    terminated sep names ++ last = terminated sep names' ++ last' ↔
      pieces sep names = pieces sep names' ∧ last = last' := by
  constructor
  · intro h
    have hs := congrArg (List.splitOn sep) h
    rw [splitOn_terminated_append sep names hlast, splitOn_terminated_append sep names' hlast'] at hs
    obtain ⟨hp, hl⟩ := append_inj' hs rfl
    exact ⟨hp, singleton_inj.mp hl⟩
  · rintro ⟨hp, rfl⟩
    apply splitOn_injective sep
    rw [splitOn_terminated_append sep names hlast, splitOn_terminated_append sep names' hlast', hp]

theorem eq_of_pieces_grouping (sep : α) {names names' : List (List α)}
    (hp : pieces sep names = pieces sep names') (hg : grouping sep names = grouping sep names') :
    names = names' := by
  induction names generalizing names' with
  | nil =>
    cases names' with
    | nil => rfl
    | cons name' names' => simp [grouping] at hg
  | cons name names ih =>
    cases names' with
    | nil => simp [grouping] at hg
    | cons name' names' =>
      simp only [grouping, map_cons, List.cons.injEq] at hg
      simp only [pieces, flatMap_cons] at hp
      obtain ⟨hhead, htail⟩ := append_inj hp hg.1
      rw [splitOn_injective sep hhead, ih htail hg.2]

theorem grouping_ne_iff (sep : α) {names names' : List (List α)}
    (hp : pieces sep names = pieces sep names') :
    grouping sep names ≠ grouping sep names' ↔ names ≠ names' :=
  not_congr ⟨fun hg => eq_of_pieces_grouping sep hp hg, fun h => h ▸ rfl⟩

end Lib
