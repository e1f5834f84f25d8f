import Mathlib.Algebra.BigOperators.Group.List.Basic
import Mathlib.Data.List.GetD
import Mathlib.Data.Nat.Count
import Mathlib.Tactic.Ring

/-!
# Draws from buckets

Buckets side by side, each as wide as its size. A draw below the sum of the sizes falls into one of
them, and into each for as many draws as its size says.
-/

namespace Lib

open List

/-- The bucket that a draw falls into, and the number of buckets for a draw past the last. -/
def bucket : List Nat → Nat → Nat
  | [], _ => 0
  | size :: sizes, draw => if draw < size then 0 else bucket sizes (draw - size) + 1

theorem count_congr {p q : Nat → Prop} [DecidablePred p] [DecidablePred q] {n : Nat}
    (h : ∀ k < n, p k ↔ q k) : Nat.count p n = Nat.count q n :=
  Nat.le_antisymm (Nat.count_mono_left fun k hk => (h k hk).mp)
    (Nat.count_mono_left fun k hk => (h k hk).mpr)

variable {sizes : List Nat} {draw i n : Nat}

theorem bucket_cons_add (size : Nat) (sizes : List Nat) (draw : Nat) :
    bucket (size :: sizes) (size + draw) = bucket sizes draw + 1 := by
  rw [bucket, if_neg (by omega), Nat.add_sub_cancel_left]

theorem bucket_lt_length (h : draw < sizes.sum) : bucket sizes draw < sizes.length := by
  induction sizes generalizing draw with
  | nil => cases h
  | cons size sizes ih =>
    rw [sum_cons] at h
    rw [bucket, length_cons]
    split
    · exact Nat.succ_pos _
    · exact Nat.succ_lt_succ (ih (by omega))

theorem size_bucket_pos (h : draw < sizes.sum) : 0 < sizes.getD (bucket sizes draw) 0 := by
  induction sizes generalizing draw with
  | nil => cases h
  | cons size sizes ih =>
    rw [sum_cons] at h
    rw [bucket]
    split
    · rename_i hlt
      exact Nat.lt_of_le_of_lt (Nat.zero_le _) hlt
    · exact ih (by omega)

theorem size_after_last (h : sizes.sum = n + 1) (hi : bucket sizes n < i) : sizes.getD i 0 = 0 := by
  induction sizes generalizing n i with
  | nil => rfl
  | cons size sizes ih =>
    rw [sum_cons] at h
    rw [bucket] at hi
    obtain ⟨j, rfl⟩ : ∃ j, i = j + 1 := ⟨i - 1, by omega⟩
    rw [getD_cons_succ]
    split at hi
    · have hsum : sizes.sum = 0 := by omega
      by_cases hj : j < sizes.length
      · rw [getD_eq_getElem sizes 0 hj]
        exact List.sum_eq_zero_iff_forall_eq_nat.mp hsum _ (getElem_mem hj)
      · rw [getD_eq_default sizes 0 (by omega)]
    · exact ih (n := n - size) (by omega) (by omega)

theorem count_bucket (sizes : List Nat) (i : Nat) :
    Nat.count (fun draw => bucket sizes draw = i) sizes.sum = sizes.getD i 0 := by
  induction sizes generalizing i with
  | nil => rfl
  | cons size sizes ih =>
    rw [sum_cons, Nat.count_add]
    cases i with
    | zero =>
      have hfirst : Nat.count (fun draw => bucket (size :: sizes) draw = 0) size = size := by
        rw [Nat.count_iff_forall]
        intro draw hdraw
        rw [bucket, if_pos hdraw]
      have hrest :
          Nat.count (fun draw => bucket (size :: sizes) (size + draw) = 0) sizes.sum = 0 := by
        rw [Nat.count_iff_forall_not]
        intro draw _
        rw [bucket_cons_add]
        omega
      rw [hfirst, hrest]
      rfl
    | succ i =>
      have hfirst : Nat.count (fun draw => bucket (size :: sizes) draw = i + 1) size = 0 := by
        rw [Nat.count_iff_forall_not]
        intro draw hdraw
        rw [bucket, if_pos hdraw]
        omega
      rw [hfirst, Nat.zero_add, getD_cons_succ, ← ih i]
      simp [bucket_cons_add]

theorem count_bucket_pred (h : sizes.sum = n + 1) (i : Nat) :
    Nat.count (fun draw => bucket sizes draw = i) n =
      sizes.getD i 0 - if bucket sizes n = i then 1 else 0 := by
  have hcount := count_bucket sizes i
  rw [h, Nat.count_succ] at hcount
  omega

end Lib
