import Mathlib.Algebra.Order.BigOperators.Group.Finset
import Mathlib.Tactic.Ring

/-!
# Runs of a transition function

`step` answers `none` for an event that cannot happen in the state. `AllMeet` says that
every event of a run meets a condition on the state before it. `run_invariant` is the induction
that a property kept by such steps holds after the run, `run_safe` that the run goes through.
-/

namespace Lib

open List Option

variable {σ ε : Type} (step : σ → ε → Option σ)

def run : σ → List ε → Option σ
  | s, [] => some s
  | s, e :: es => (step s e).bind fun s => run s es

def AllMeet (condition : σ → ε → Prop) : σ → List ε → Prop
  | _, [] => True
  | s, e :: es => condition s e ∧ ∀ s', step s e = some s' → AllMeet condition s' es

variable {step}

variable {condition : σ → ε → Prop}

instance decidableAllMeet [∀ s e, Decidable (condition s e)] :
    (s : σ) → (es : List ε) → Decidable (AllMeet step condition s es)
  | _, [] => isTrue trivial
  | s, e :: es =>
    match h : step s e with
    | none => decidable_of_iff (condition s e) (by simp [AllMeet, h])
    | some s' =>
      have : Decidable (AllMeet step condition s' es) := decidableAllMeet s' es
      decidable_of_iff (condition s e ∧ AllMeet step condition s' es) (by simp [AllMeet, h])

theorem allMeet_of_forall (h : ∀ s e, condition s e) (s : σ)
    (es : List ε) : AllMeet step condition s es := by
  induction es generalizing s with
  | nil => exact trivial
  | cons e es ih => exact ⟨h s e, fun s' _ => ih s'⟩

variable {inv : σ → Prop}

variable {es : List ε}

theorem run_invariant (hstep : ∀ s e s', inv s → condition s e → step s e = some s' → inv s')
    {s s' : σ} (hmeet : AllMeet step condition s es) (hs : inv s)
    (hrun : run step s es = some s') : inv s' := by
  induction es generalizing s with
  | nil =>
    cases hrun
    exact hs
  | cons e es ih =>
    obtain ⟨s₁, h₁, hrest⟩ := bind_eq_some_iff.mp hrun
    exact ih (hmeet.2 s₁ h₁) (hstep s e s₁ hs hmeet.1 h₁) hrest

theorem run_keeps (hstep : ∀ s e s', inv s → step s e = some s' → inv s')
    {s s' : σ} (hs : inv s) (hrun : run step s es = some s') : inv s' :=
  run_invariant (fun s e s' hs (_ : True) => hstep s e s' hs)
    (allMeet_of_forall (fun _ _ => trivial) s es) hs hrun

/-- Every step that meets the condition goes through, so the run does. -/
theorem run_safe (hstep : ∀ s e, inv s → condition s e → ∃ s', step s e = some s' ∧ inv s')
    {s : σ} (hs : inv s) (hmeet : AllMeet step condition s es) :
    ∃ s', run step s es = some s' ∧ inv s' := by
  induction es generalizing s with
  | nil => exact ⟨s, rfl, hs⟩
  | cons e es ih =>
    obtain ⟨s₁, h₁, hinv⟩ := hstep s e hs hmeet.1
    obtain ⟨s', h', hinv'⟩ := ih hinv (hmeet.2 s₁ h₁)
    exact ⟨s', by rw [run, h₁, bind_some, h'], hinv'⟩

/-- A run that goes through meets the condition, if a step that does not is stuck. -/
theorem allMeet_of_run {possible condition : σ → ε → Prop}
    (hstep : ∀ s e s', inv s → possible s e → step s e = some s' → condition s e ∧ inv s')
    {s s' : σ} (hs : inv s) (hmeet : AllMeet step possible s es)
    (hrun : run step s es = some s') : AllMeet step condition s es := by
  induction es generalizing s with
  | nil => exact trivial
  | cons e es ih =>
    obtain ⟨s₁, h₁, hrest⟩ := bind_eq_some_iff.mp hrun
    obtain ⟨he, hinv⟩ := hstep s e s₁ hs hmeet.1 h₁
    refine ⟨he, ?_⟩
    intro s₂ h₂
    cases h₁.symm.trans h₂
    exact ih hinv (hmeet.2 s₁ h₁) hrest

theorem allMeet_and {first second : σ → ε → Prop} {s : σ} (hfirst : AllMeet step first s es)
    (hsecond : AllMeet step second s es) :
    AllMeet step (fun s e => first s e ∧ second s e) s es := by
  induction es generalizing s with
  | nil => exact trivial
  | cons e es ih => exact ⟨⟨hfirst.1, hsecond.1⟩, fun s' hs' => ih (hfirst.2 s' hs') (hsecond.2 s' hs')⟩

theorem keeps_of_safe (hstep : ∀ s e, inv s → condition s e → ∃ s', step s e = some s' ∧ inv s')
    (s : σ) (e : ε)
    (s' : σ) (hs : inv s) (he : condition s e) (h : step s e = some s') : inv s' := by
  obtain ⟨_, h', hinv⟩ := hstep s e hs he
  cases h.symm.trans h'
  exact hinv

/-- Steps that are followed by those of a second, total system. -/
theorem run_simulates {τ : Type} (spec : τ → ε → τ) {R : σ → τ → Prop}
    (hstep : ∀ s t e s', R s t → condition s e → step s e = some s' → R s' (spec t e))
    {s s' : σ} {t : τ} (hmeet : AllMeet step condition s es) (hs : R s t)
    (hrun : run step s es = some s') : R s' (es.foldl spec t) := by
  induction es generalizing s t with
  | nil =>
    cases hrun
    exact hs
  | cons e es ih =>
    obtain ⟨s₁, h₁, hrest⟩ := bind_eq_some_iff.mp hrun
    exact ih (hmeet.2 s₁ h₁) (hstep s t e s₁ hs hmeet.1 h₁) hrest

theorem run_append (s : σ) (es es' : List ε) :
    run step s (es ++ es') = (run step s es).bind fun s => run step s es' := by
  induction es generalizing s with
  | nil => rfl
  | cons e es ih =>
    rw [cons_append, run, run, bind_assoc]
    exact congrArg _ (funext ih)

/-- The first step that does not meet the condition, up to which the invariant holds. -/
theorem first_unmet (hstep : ∀ s e s', inv s → condition s e → step s e = some s' → inv s')
    {s : σ} (hs : inv s) (hmeet : ¬ AllMeet step condition s es) :
    ∃ before e after s', es = before ++ e :: after ∧ AllMeet step condition s before ∧
      run step s before = some s' ∧ inv s' ∧ ¬ condition s' e := by
  induction es generalizing s with
  | nil => exact absurd trivial hmeet
  | cons e es ih =>
    by_cases he : condition s e
    · obtain ⟨s₁, h₁, hrest⟩ : ∃ s₁, step s e = some s₁ ∧ ¬ AllMeet step condition s₁ es := by
        by_contra hnone
        exact hmeet ⟨he, fun s₁ h₁ => by_contra fun hrest => hnone ⟨s₁, h₁, hrest⟩⟩
      obtain ⟨before, e', after, s', rfl, hbefore, hrun, hinv, hunmet⟩ :=
        ih (hstep s e s₁ hs he h₁) hrest
      refine ⟨e :: before, e', after, s', rfl, ⟨he, ?_⟩, by rw [run, h₁, bind_some, hrun], hinv,
        hunmet⟩
      intro s₂ h₂
      cases h₁.symm.trans h₂
      exact hbefore
    · exact ⟨[], e, es, s, rfl, trivial, rfl, hs, he⟩

theorem foldlM_safe {σ α : Type} {f : σ → α → Option σ} (inv : List α → σ → Prop)
    (hstep : ∀ a l s, inv (a :: l) s → ∃ s', f s a = some s' ∧ inv l s') {l : List α} {s : σ}
    (hs : inv l s) : ∃ s', l.foldlM f s = some s' ∧ inv [] s' := by
  induction l generalizing s with
  | nil => exact ⟨s, rfl, hs⟩
  | cons a l ih =>
    obtain ⟨s₁, h₁, hinv⟩ := hstep a l s hs
    obtain ⟨s', h', hinv'⟩ := ih hinv
    exact ⟨s', by rw [foldlM_cons, h₁]; exact h', hinv'⟩

theorem ok_of_bind {ε α β : Type} {x : Except ε α} {f : α → Except ε β} {b : β}
    (h : (x >>= f) = .ok b) : ∃ a, x = .ok a ∧ f a = .ok b := by
  cases x with
  | error e => cases h
  | ok a => exact ⟨a, rfl, h⟩

section Related

variable {α β : Type} {R : α → β → Prop} {l : List α} {l' : List β} {a : α} {b : β}

section

variable (h : List.Forall₂ R l l')
include h

theorem related_getElem? {i : Nat} (ha : l[i]? = some a) : ∃ b, l'[i]? = some b ∧ R a b := by
  induction h generalizing i with
  | nil => cases ha
  | cons hab _ ih =>
    cases i with
    | zero =>
      cases ha
      exact ⟨_, rfl, hab⟩
    | succ i => exact ih ha

theorem related_mem (ha : a ∈ l) : ∃ b ∈ l', R a b := by
  obtain ⟨i, hi⟩ := mem_iff_getElem?.mp ha
  obtain ⟨b, hb, hab⟩ := related_getElem? h hi
  exact ⟨b, mem_of_getElem? hb, hab⟩

theorem related_set (hab : R a b) (i : Nat) : List.Forall₂ R (l.set i a) (l'.set i b) := by
  induction h generalizing i with
  | nil => exact .nil
  | cons hcd htail ih =>
    cases i with
    | zero => exact .cons hab htail
    | succ i => exact .cons hcd (ih i)

theorem related_concat (hab : R a b) :
    List.Forall₂ R (l ++ [a]) (l' ++ [b]) := rel_append h (.cons hab .nil)

end

end Related

section History

variable {α : Type} {history : List α} {i : Nat} {a b : α}

theorem entry_of_concat (h : (history ++ [a])[i]? = some b) :
    history[i]? = some b ∨ (i = history.length ∧ b = a) := by
  rw [getElem?_append] at h
  split at h
  · exact .inl h
  · obtain ⟨hi, hb⟩ := List.getElem?_eq_some_iff.mp h
    simp only [length_singleton, getElem_singleton] at hi hb
    exact .inr ⟨by omega, hb.symm⟩

theorem entry_concat (h : history[i]? = some b) : (history ++ [a])[i]? = some b := by
  obtain ⟨hi, -⟩ := List.getElem?_eq_some_iff.mp h
  rw [getElem?_append_left hi]
  exact h

end History

theorem isChain_snoc {α : Type} {R : α → α → Prop} {entries : List α} {entry : α}
    (h : entries.IsChain R) (hlast : ∀ last ∈ entries.getLast?, R last entry) :
    (entries ++ [entry]).IsChain R := by
  apply isChain_append.mpr
  refine ⟨h, isChain_singleton entry, ?_⟩
  intro last hmem next hnext
  rw [head?_cons, mem_some] at hnext
  exact hnext ▸ hlast last hmem

end Lib
