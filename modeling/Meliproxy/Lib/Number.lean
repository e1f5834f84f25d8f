import Mathlib.Data.Nat.Log
import Mathlib.Tactic.Ring

/-!
# Integers as doubles

What a language whose only numbers are doubles makes of an integer: one with more than 53
bits is rounded to the nearest that ends in enough zeros, a tie to the even one, and one out
of range is infinite. `Exact` integers stay what they are.
-/

namespace Lib

inductive Number where
  | nan
  | infinite (negative : Bool)
  | finite (value : Int)
  deriving DecidableEq

namespace Number

def ulp (n : Nat) : Nat := 2 ^ (n.log2 - 52)

def roundEven (n : Nat) : Nat :=
  if ulp n < 2 * (n % ulp n) ∨ 2 * (n % ulp n) = ulp n ∧ n / ulp n % 2 = 1 then
    (n / ulp n + 1) * ulp n
  else n / ulp n * ulp n

@[irreducible] def maxExponent : Nat := 1024

def ofInt (n : Int) : Number :=
  if roundEven n.natAbs < 2 ^ maxExponent then .finite (n.sign * roundEven n.natAbs)
  else .infinite (n < 0)

def Exact (n : Int) : Prop := ulp n.natAbs ∣ n.natAbs ∧ n.natAbs < 2 ^ maxExponent

theorem roundEven_eq_self_iff (n : Nat) : roundEven n = n ↔ ulp n ∣ n := by
  have hpos : 0 < ulp n := Nat.two_pow_pos _
  constructor
  · intro h
    unfold roundEven at h
    split at h
    · exact ⟨_, (h.symm.trans (Nat.mul_comm _ _))⟩
    · exact ⟨_, (h.symm.trans (Nat.mul_comm _ _))⟩
  · intro h
    have hmod : n % ulp n = 0 := Nat.mod_eq_zero_of_dvd h
    unfold roundEven
    rw [hmod, if_neg (by omega), Nat.div_mul_cancel h]

theorem ofInt_eq_finite_self_iff (n : Int) : ofInt n = .finite n ↔ Exact n := by
  have hsign : n.sign * (n.natAbs : Int) = n := Int.sign_mul_natAbs n
  constructor
  · intro h
    unfold ofInt at h
    split at h
    · rename_i hlt
      have heq : n.sign * (roundEven n.natAbs : Int) = n := Number.finite.inj h
      have hround : roundEven n.natAbs = n.natAbs := by
        obtain hzero | hne := Decidable.em (n = 0)
        · rw [hzero]
          rfl
        · have hs : n.sign ≠ 0 := fun h => hne (Int.sign_eq_zero_iff_zero.mp h)
          exact_mod_cast Int.eq_of_mul_eq_mul_left hs (heq.trans hsign.symm)
      exact ⟨(roundEven_eq_self_iff _).mp hround, hround ▸ hlt⟩
    · cases h
  · rintro ⟨hdvd, hlt⟩
    have hround := (roundEven_eq_self_iff _).mpr hdvd
    rw [ofInt, hround, if_pos hlt, hsign]

theorem exact_of_lt {n : Int} (h : n.natAbs < 2 ^ 53) : Exact n := by
  have hulp : ulp n.natAbs = 1 := by
    obtain hzero | hne := Decidable.em (n.natAbs = 0)
    · rw [hzero]
      rfl
    · have hlog : n.natAbs.log2 < 53 := (Nat.log2_lt hne).mpr h
      rw [ulp, show n.natAbs.log2 - 52 = 0 by omega, Nat.pow_zero]
  have hmax : 53 < maxExponent := by
    rw [maxExponent]
    decide
  exact ⟨hulp ▸ Nat.one_dvd _, Nat.lt_trans h (Nat.pow_lt_pow_right (by decide) hmax)⟩

end Number

end Lib
