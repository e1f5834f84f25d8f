import Mathlib.Data.List.Basic
import Mathlib.Tactic.Ring

/-!
# A keyed store that is brought up to date by a log

An update is about one key and turns what the store has there into something else, or fails.
`Leads log view target` says that the updates of the log, one after the other, go through and
turn `view` into `target`. Whoever writes to the target adds to the log at its end, and the view
takes updates at its head.
-/

namespace Lib

open List Option Function

variable {K V U : Type} [DecidableEq K] (key : U → Option K)
  (effect : U → Option V → Option (Option V))

def effectAt (k : K) (e : Option V) (u : U) : Option (Option V) :=
  if key u = some k then effect u e else some e

def replay (k : K) (log : List U) (e : Option V) : Option (Option V) :=
  log.foldlM (effectAt key effect k) e

def Leads (log : List U) (view target : K → Option V) : Prop :=
  ∀ k, replay key effect k log (view k) = some (target k)

variable {key effect} {k : K} {u : U} {log : List U} {v : Option V} {view target : K → Option V}

theorem effectAt_key (h : key u = some k) (e : Option V) :
    effectAt key effect k e u = effect u e := if_pos h

theorem effectAt_other (h : key u ≠ some k) (e : Option V) :
    effectAt key effect k e u = some e := if_neg h

theorem replay_append (k : K) (log₁ log₂ : List U) (e : Option V) :
    replay key effect k (log₁ ++ log₂) e =
      (replay key effect k log₁ e).bind (replay key effect k log₂) := foldlM_append

theorem replay_singleton (k : K) (u : U) (e : Option V) :
    replay key effect k [u] e = effectAt key effect k e u := by
  unfold replay
  rw [foldlM_cons]
  cases effectAt key effect k e u <;> rfl

theorem replay_concat_other (h : key u ≠ some k) (e : Option V) :
    replay key effect k (log ++ [u]) e = replay key effect k log e := by
  rw [replay_append]
  cases hlog : replay key effect k log e with
  | none => rfl
  | some e' => rw [bind_some, replay_singleton, effectAt_other h]

theorem replay_concat (h : key u = some k) {e e' : Option V}
    (hlog : replay key effect k log e = some e') :
    replay key effect k (log ++ [u]) e = effect u e' := by
  rw [replay_append, hlog, bind_some, replay_singleton, effectAt_key h]

theorem Leads.of_nil (h : Leads key effect [] view target) (k : K) : view k = target k :=
  Option.some.inj (h k)

theorem Leads.concat (h : Leads key effect log view target) (hkey : key u = some k)
    (hu : effect u (target k) = some v) :
    Leads key effect (log ++ [u]) view (Function.update target k v) := by
  intro k'
  obtain rfl | hne := Decidable.em (k' = k)
  · rw [replay_concat hkey (h k'), hu, update_self]
  · rw [replay_concat_other (fun he => hne (Option.some.inj (hkey.symm.trans he)).symm), h k',
      update_of_ne hne]

theorem Leads.head (h : Leads key effect (u :: log) view target) (hkey : key u = some k) :
    ∃ v, effect u (view k) = some v ∧ Leads key effect log (Function.update view k v) target := by
  have hk := h k
  unfold replay at hk
  rw [foldlM_cons, effectAt_key hkey] at hk
  obtain ⟨v, hv, hrest⟩ := bind_eq_some_iff.mp hk
  refine ⟨v, hv, fun k' => ?_⟩
  obtain rfl | hne := Decidable.em (k' = k)
  · rw [update_self]
    exact hrest
  · rw [update_of_ne hne]
    have hk' := h k'
    unfold replay at hk'
    rw [foldlM_cons,
      effectAt_other fun he => hne (Option.some.inj (hkey.symm.trans he)).symm] at hk'
    exact hk'

end Lib
