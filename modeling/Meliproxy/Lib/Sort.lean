import Mathlib.Data.List.Sort
import Mathlib.Tactic.Ring

/-!
# Sorting and grouping by keys

A list sorted by a key is increasing in the key, strictly if no two of its elements share one. In an
increasing list the elements whose key is at least a bound are those from the first such on. The
groups of the elements with the same key make up the list.
-/

namespace Lib

open List

variable {α β : Type} [LE β] [DecidableLE β]

variable (key : α → β)

def keyLe (a b : α) : Prop := key a ≤ key b

instance : DecidableRel (keyLe key) :=
  fun a b => inferInstanceAs (Decidable (key a ≤ key b))

def sortBy (l : List α) : List α := l.insertionSort (keyLe key)

theorem sortBy_perm (l : List α) : (sortBy key l).Perm l :=
  perm_insertionSort _ l

/-- The place of the first element whose key is at least the bound. -/
def lowerBound (bound : β) (l : List α) : Nat := l.findIdx fun a => bound ≤ key a

variable [Std.IsLinearOrder β]

theorem pairwise_le_sortBy (key : α → β) (l : List α) :
    (sortBy key l).Pairwise fun a b => key a ≤ key b := by
  have : IsTrans α (keyLe key) := ⟨fun _ _ _ hab hbc => Std.le_trans hab hbc⟩
  have : Std.Total (keyLe key) := ⟨fun a b => Std.le_total (a := key a) (b := key b)⟩
  exact pairwise_insertionSort (keyLe key) l

theorem le_iff_lowerBound_le {key : α → β} {l : List α} (h : l.Pairwise fun a b => key a ≤ key b)
    {bound : β} {i : Nat} {a : α} (ha : l[i]? = some a) :
    bound ≤ key a ↔ lowerBound key bound l ≤ i := by
  obtain ⟨hi, rfl⟩ := List.getElem?_eq_some_iff.mp ha
  constructor
  · intro hle
    by_contra hlt
    have hbefore := not_of_lt_findIdx (Nat.lt_of_not_le hlt)
    exact of_decide_eq_false hbefore hle
  · intro hle
    have hlt : lowerBound key bound l < l.length := Nat.lt_of_le_of_lt hle hi
    have hfirst : bound ≤ key l[lowerBound key bound l] :=
      of_decide_eq_true (findIdx_getElem (w := hlt))
    rcases Nat.lt_or_eq_of_le hle with hlt | heq
    · exact Std.le_trans hfirst (pairwise_iff_getElem.mp h _ _ _ hi hlt)
    · simpa only [← heq] using hfirst

variable [LT β] [Std.LawfulOrderLT β]

theorem pairwise_lt_sortBy (key : α → β) {l : List α} (h : (l.map key).Nodup) :
    ((sortBy key l).map key).Pairwise (· < ·) := by
  have hle := pairwise_le_sortBy key l
  have hne := ((sortBy_perm key l).map key).nodup_iff.mpr h
  rw [List.Nodup, pairwise_map] at hne
  rw [pairwise_map]
  exact (hle.and hne).imp fun h => Std.lt_of_le_of_ne h.1 h.2

section Groups

variable {κ : Type} [DecidableEq κ] {key : α → κ} {first : κ} {keys : List κ} {l : List α}

/-- The elements with the same key make one group each, and those with the first key come first. -/
structure GroupedBy (key : α → κ) (first : κ) (l : List α) (groups : List (List α)) : Prop where
  perm : groups.flatten.Perm l
  nonempty : [] ∉ groups
  keys : ∃ keys : List κ, (first :: keys).Nodup ∧
    groups = (first :: keys).map fun k => l.filter fun a => key a = k

theorem perm_flatten_groups (hnodup : keys.Nodup) :
    (keys.map fun k => l.filter fun a => key a = k).flatten.Perm
      (l.filter fun a => key a ∈ keys) := by
  induction keys with
  | nil => simp
  | cons k keys ih =>
    obtain ⟨hk, hnodup⟩ := nodup_cons.mp hnodup
    have hfirst : (l.filter fun a => key a ∈ k :: keys).filter (fun a => key a = k) =
        l.filter fun a => key a = k := by
      rw [filter_filter]
      refine filter_congr fun a _ => ?_
      by_cases heq : key a = k
      · simp [heq]
      · simp [heq]
    have hrest : (l.filter fun a => key a ∈ k :: keys).filter (fun a => !decide (key a = k)) =
        l.filter fun a => key a ∈ keys := by
      rw [filter_filter]
      refine filter_congr fun a _ => ?_
      by_cases heq : key a = k
      · simp [heq, hk]
      · simp [heq]
    have hsplit := filter_append_perm (fun a => decide (key a = k))
      (l.filter fun a => key a ∈ k :: keys)
    rw [hfirst, hrest] at hsplit
    rw [map_cons, flatten_cons]
    exact ((ih hnodup).append_left _).trans hsplit

theorem groupedBy_map (hnodup : (first :: keys).Nodup)
    (hkeys : ∀ k, k ∈ first :: keys ↔ k ∈ l.map key) :
    GroupedBy key first l ((first :: keys).map fun k => l.filter fun a => key a = k) where
  perm := by
    have hall : (l.filter fun a => key a ∈ first :: keys) = l :=
      filter_eq_self.mpr fun a ha =>
        decide_eq_true ((hkeys (key a)).mpr (mem_map_of_mem ha))
    have hgroups : ((first :: keys).map fun k => l.filter fun a => key a = k).flatten.Perm
        (l.filter fun a => key a ∈ first :: keys) := perm_flatten_groups hnodup
    rwa [hall] at hgroups
  nonempty := by
    intro hmem
    obtain ⟨k, hk, hempty⟩ := mem_map.mp hmem
    obtain ⟨a, ha, rfl⟩ := mem_map.mp ((hkeys k).mp hk)
    exact filter_eq_nil_iff.mp hempty a ha (decide_eq_true rfl)
  keys := ⟨keys, hnodup, rfl⟩

end Groups

end Lib
