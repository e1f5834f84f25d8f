import Mathlib.Data.List.Basic
import Mathlib.Tactic.Ring

/-!
# Quotas on a growing counter

Hits on a shared counter, in the order in which it counts them. Some of them are
answered, and an answer is right when it compares the counter after the hit with the
limit. If all answers are right then the admitted hits fit in the limit, and nothing is
admitted any more after a refusal.
-/

namespace Lib

open List

structure Hit where
  amount : Nat
  answer : Option Bool

/-- Every answered hit was answered from the value of the counter after it. -/
def Answered (limit : Nat) : Int → List Hit → Prop
  | _, [] => True
  | count, hit :: rest =>
    (∀ admitted, hit.answer = some admitted →
      (admitted = true ↔ count + hit.amount ≤ limit)) ∧
    Answered limit (count + hit.amount) rest

def answers (hits : List Hit) : List (Nat × Bool) :=
  hits.filterMap fun hit => hit.answer.map fun admitted => (hit.amount, admitted)

def admittedSum (xs : List (Nat × Bool)) : Nat :=
  ((xs.filter Prod.snd).map Prod.fst).sum

def hitSum (hits : List Hit) : Nat := (hits.map Hit.amount).sum

theorem answers_append (hits hits' : List Hit) :
    answers (hits ++ hits') = answers hits ++ answers hits' := filterMap_append

variable (limit : Nat) (count : Int) (hits : List Hit)

theorem answered_append (hits hits' : List Hit) : Answered limit count (hits ++ hits') ↔
      Answered limit count hits ∧ Answered limit (count + hitSum hits) hits' := by
  induction hits generalizing count with
  | nil => simp [Answered, hitSum]
  | cons hit rest ih =>
    have hcount : count + hit.amount + hitSum rest = count + hitSum (hit :: rest) := by
      simp [hitSum, Int.add_assoc]
    simp [Answered, ih, hcount, and_assoc]

section

variable (h : Answered limit count hits)
include h

theorem refused_of_lt (hlt : limit < count) :
    ∀ x ∈ answers hits, x.2 = false := by
  induction hits generalizing count with
  | nil => simp [answers]
  | cons hit rest ih =>
    obtain ⟨hhead, htail⟩ := h
    have hrest := ih (count + hit.amount) htail (by omega)
    intro x hx
    cases hanswer : hit.answer with
    | none =>
      apply hrest
      simpa [answers, hanswer] using hx
    | some admitted =>
      have hright := hhead admitted hanswer
      simp only [answers, filterMap_cons, hanswer, Option.map_some, mem_cons] at hx
      rcases hx with rfl | hx
      · rw [← Bool.not_eq_true]
        intro hadmitted
        have := hright.mp hadmitted
        omega
      · exact hrest x hx

theorem admittedSum_le_of_answered :
    admittedSum (answers hits) = 0 ∨ count + admittedSum (answers hits) ≤ limit := by
  induction hits generalizing count with
  | nil => simp [answers, admittedSum]
  | cons hit rest ih =>
    obtain ⟨hhead, htail⟩ := h
    have hrest := ih (count + hit.amount) htail
    cases hanswer : hit.answer with
    | none =>
      have hsum : admittedSum (answers (hit :: rest)) = admittedSum (answers rest) := by
        simp [answers, hanswer]
      rw [hsum]
      omega
    | some admitted =>
      have hright := hhead admitted hanswer
      cases admitted with
      | false =>
        have hsum : admittedSum (answers (hit :: rest)) = admittedSum (answers rest) := by
          simp [answers, admittedSum, hanswer]
        rw [hsum]
        omega
      | true =>
        have hfits := hright.mp rfl
        have hsum : admittedSum (answers (hit :: rest)) =
            hit.amount + admittedSum (answers rest) := by
          simp [answers, admittedSum, hanswer]
        rw [hsum]
        omega

theorem pairwise_of_answered :
    (answers hits).Pairwise fun x y => x.2 = false → y.2 = false := by
  induction hits generalizing count with
  | nil => exact .nil
  | cons hit rest ih =>
    obtain ⟨hhead, htail⟩ := h
    have hrest := ih (count + hit.amount) htail
    cases hanswer : hit.answer with
    | none => simpa [answers, hanswer] using hrest
    | some admitted =>
      have hright := hhead admitted hanswer
      simp only [answers, filterMap_cons, hanswer, Option.map_some]
      refine .cons ?_ hrest
      intro y hy hrefused
      apply refused_of_lt limit (count + hit.amount) rest htail _ y hy
      have : ¬ count + hit.amount ≤ limit := fun hle => by simp [hright.mpr hle] at hrefused
      omega

end

end Lib
