import Mathlib.Data.List.Perm.Basic
import Mathlib.Tactic.Ring

/-!
# Counting in a list

How the number of elements with a flag changes when one element goes or its flag is set in a list
without duplicates, and when it is one at most.
-/

namespace Lib

open List

theorem countP_le_one {α : Type} {p : α → Bool} {l : List α}
    (h : l.Pairwise fun a b => p b = true → p a = false) : l.countP p ≤ 1 := by
  induction h with
  | nil => exact Nat.zero_le 1
  | @cons a l ha _ ih =>
    rw [countP_cons]
    cases hp : p a with
    | false => exact ih
    | true =>
      have hnone : l.countP p = 0 := countP_eq_zero.mpr fun b hb hpb =>
        absurd ((ha b hb hpb).symm.trans hp) (by decide)
      exact Nat.le_of_eq (by rw [hnone, if_pos rfl])

variable {α : Type} [DecidableEq α] {l : List α} {a : α} (p : α → Bool)

theorem countP_erase (hmem : a ∈ l) : l.countP p = (l.erase a).countP p + if p a then 1 else 0 := by
  rw [(perm_cons_erase hmem).countP_eq, countP_cons]

theorem countP_erase_update (hnodup : l.Nodup) (b : Bool) :
    (l.erase a).countP (Function.update p a b) = (l.erase a).countP p := by
  refine countP_congr fun other hother => ?_
  have hne : other ≠ a := fun heq => hnodup.not_mem_erase (heq ▸ hother)
  rw [Function.update_of_ne hne]

theorem countP_update (hnodup : l.Nodup) (hmem : a ∈ l) (b : Bool) :
    l.countP (Function.update p a b) = (l.erase a).countP p + if b then 1 else 0 := by
  rw [countP_erase _ hmem, countP_erase_update _ hnodup, Function.update_self]

end Lib
