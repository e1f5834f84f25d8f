import Mathlib.Data.List.Basic
import Mathlib.Tactic.Ring

/-!
# Replicas of a set whose elements are made by the replicas

An element is made at one replica, which has it at once, and is sent to an owner. The owner takes
it in and later gives it up, and tells all replicas both in a queue. `Settles` says what a
replica has of one element and what its queue still holds about it.
-/

namespace Lib

open List

/-- Where an element is in its life, seen from the owner. -/
inductive ElementPhase (ι : Type) where
  | unborn
  | posted (creator : ι)
  | live
  | gone

inductive OpKind where
  | add | remove

/-- What the owner tells the replicas. -/
structure Op (ε : Type) where
  kind : OpKind
  element : ε

variable {ι ε : Type} [DecidableEq ε]

def kindsOf (e : ε) (ops : List (Op ε)) : List OpKind :=
  ops.filterMap fun op => if op.element = e then some op.kind else none

inductive Settles (me : ι) : ElementPhase ι → Bool → List OpKind → Prop where
  | unborn : Settles me .unborn false []
  | mine : Settles me (.posted me) true []
  | other {creator : ι} (h : creator ≠ me) : Settles me (.posted creator) false []
  | live : Settles me .live true []
  | adding (present : Bool) : Settles me .live present [.add]
  | gone : Settles me .gone false []
  | removing : Settles me .gone true [.remove]
  | addingRemoving (present : Bool) : Settles me .gone present [.add, .remove]

namespace Settles

variable {me : ι} {phase : ElementPhase ι} {present : Bool} {kinds : List OpKind}

theorem deliver_add (h : Settles me phase present (.add :: kinds)) : Settles me phase true kinds := by
  cases h with
  | adding => exact .live
  | addingRemoving => exact .removing

theorem deliver_remove (h : Settles me phase present (.remove :: kinds)) :
    present = true ∧ Settles me phase false kinds := by
  cases h with
  | removing => exact ⟨rfl, .gone⟩

theorem confirm {creator : ι} (h : Settles me (.posted creator) present kinds) :
    Settles me .live present (kinds ++ [.add]) := by
  cases h with
  | mine => exact .adding true
  | other => exact .adding false

theorem retire (h : Settles me .live present kinds) :
    Settles me .gone present (kinds ++ [.remove]) := by
  cases h with
  | live => exact .removing
  | adding => exact .addingRemoving present

theorem unborn_iff (h : Settles me .unborn present kinds) : present = false ∧ kinds = [] := by
  cases h with
  | unborn => exact ⟨rfl, rfl⟩

theorem quiet (h : Settles me phase present []) :
    present = true ↔ phase = .live ∨ phase = .posted me := by
  cases h with
  | unborn | mine => simp
  | other hne => simpa using hne
  | live | gone => simp

end Settles

theorem kindsOf_append (e : ε) (ops ops' : List (Op ε)) :
    kindsOf e (ops ++ ops') = kindsOf e ops ++ kindsOf e ops' := filterMap_append

theorem kindsOf_cons_self (op : Op ε) (ops : List (Op ε)) :
    kindsOf op.element (op :: ops) = op.kind :: kindsOf op.element ops := by
  rw [kindsOf, filterMap_cons, if_pos rfl]
  rfl

theorem kindsOf_cons_ne {e : ε} {op : Op ε} (h : op.element ≠ e) (ops : List (Op ε)) :
    kindsOf e (op :: ops) = kindsOf e ops := by
  rw [kindsOf, filterMap_cons, if_neg h]
  rfl

theorem kindsOf_map {kind : OpKind} {elements : List ε} (hnodup : elements.Nodup) (e : ε) :
    kindsOf e (elements.map (Op.mk kind)) = if e ∈ elements then [kind] else [] := by
  induction elements with
  | nil => rfl
  | cons a elements ih =>
    obtain ⟨ha, hrest⟩ := nodup_cons.mp hnodup
    rw [map_cons]
    by_cases hae : a = e
    · subst hae
      have hself := kindsOf_cons_self (Op.mk kind a) (elements.map (Op.mk kind))
      rw [if_pos mem_cons_self]
      rw [ih hrest, if_neg ha] at hself
      exact hself
    · have hmem : e ∈ a :: elements ↔ e ∈ elements := by simp [Ne.symm hae]
      rw [kindsOf_cons_ne hae, ih hrest]
      simp only [hmem]

end Lib
