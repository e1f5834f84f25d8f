import Mathlib.Algebra.Order.BigOperators.Group.Finset
import Mathlib.Tactic.Ring

/-!
# Byte strings and decimal numbers

The programs below work on strings of bytes. `ascii` turns a literal into such a
string. `decimal` and `formatInt` are the usual base-ten texts, and `readDecimal`
is the digit-by-digit accumulation that reads them back.
-/

namespace Lib

open List

abbrev Bytes := List UInt8

instance : LawfulBEq Bytes := inferInstance

def ascii (s : String) : Bytes := s.toList.map fun c => c.toNat.toUInt8

def decimal (n : Nat) : Bytes := (Nat.toDigits 10 n).map fun c => c.toNat.toUInt8

def formatInt (n : Int) : Bytes :=
  if n < 0 then 45 :: decimal n.natAbs else decimal n.natAbs

def readDecimal (bs : Bytes) (acc : Nat) : Nat :=
  bs.foldl (fun acc b => 10 * acc + (b.toNat - 48)) acc

theorem digit_bounds {c : Char} (h : c.isDigit = true) : 48 ≤ c.toNat ∧ c.toNat ≤ 57 := by
  rw [Char.isDigit_iff_toNat] at h
  exact h

theorem mem_decimal {n : Nat} {b : UInt8} (h : b ∈ decimal n) : 48 ≤ b.toNat ∧ b.toNat ≤ 57 := by
  obtain ⟨c, hc, rfl⟩ := mem_map.mp h
  have hd := digit_bounds (Nat.isDigit_of_mem_toDigits (by decide) (by decide) hc)
  have hb : c.toNat.toUInt8.toNat = c.toNat := by
    simp only [Nat.toUInt8, UInt8.toNat_ofNat']
    omega
  rw [hb]
  exact hd

theorem readDecimal_decimal (n : Nat) : readDecimal (decimal n) 0 = n := by
  have hfold : ∀ (cs : List Char) (acc : Nat), (∀ c ∈ cs, c.isDigit = true) →
      readDecimal (cs.map fun c => c.toNat.toUInt8) acc = Nat.ofDigitChars 10 cs acc := by
    intro cs
    induction cs with
    | nil => intro acc _; rfl
    | cons c cs ih =>
      intro acc h
      have hd := digit_bounds (h c mem_cons_self)
      have hb : c.toNat.toUInt8.toNat = c.toNat := by
        simp only [Nat.toUInt8, UInt8.toNat_ofNat']
        omega
      have ht := ih (10 * acc + (c.toNat - 48)) (fun x hx => h x (mem_cons_of_mem c hx))
      rw [Nat.ofDigitChars_cons]
      simpa [readDecimal, hb] using ht
  have hd : ∀ c ∈ Nat.toDigits 10 n, c.isDigit = true := fun c hc =>
    Nat.isDigit_of_mem_toDigits (by decide) (by decide) hc
  rw [decimal, hfold _ _ hd, Nat.ofDigitChars_ten_toDigits]

theorem decimal_injective {m n : Nat} (h : decimal m = decimal n) : m = n := by
  rw [← readDecimal_decimal m, h, readDecimal_decimal]

theorem mem_formatInt {n : Int} {b : UInt8} (h : b ∈ formatInt n) :
    b = 45 ∨ (48 ≤ b.toNat ∧ b.toNat ≤ 57) := by
  unfold formatInt at h
  split at h
  · rcases mem_cons.mp h with h | h
    · exact Or.inl h
    · exact Or.inr (mem_decimal h)
  · exact Or.inr (mem_decimal h)

theorem minus_notMem_decimal (n : Nat) : (45 : UInt8) ∉ decimal n := by
  intro h
  have := (mem_decimal h).1
  simp at this

theorem formatInt_injective {m n : Int} (h : formatInt m = formatInt n) : m = n := by
  unfold formatInt at h
  split at h <;> split at h
  · have := decimal_injective (List.cons.inj h).2
    omega
  · exact absurd (h ▸ mem_cons_self) (minus_notMem_decimal _)
  · exact absurd (h.symm ▸ mem_cons_self) (minus_notMem_decimal _)
  · have := decimal_injective h
    omega

end Lib
