import Mathlib.Data.Nat.Bitwise
import Mathlib.Tactic.Ring

/-!
# Bits in network order

The bits of a number of a given width, the highest first. The first bits of two numbers agree if
the numbers do after a shift.
-/

namespace Lib

open List

def bits (width value : Nat) : List Bool :=
  (List.range width).map fun i => value.testBit (width - 1 - i)

@[simp] theorem length_bits (width value : Nat) : (bits width value).length = width := by
  rw [bits, length_map, length_range]

theorem getElem_bits {width value i : Nat} (h : i < (bits width value).length) :
    (bits width value)[i] = value.testBit (width - 1 - i) := by
  rw [length_bits] at h
  simp [bits]

theorem bits_append (width width' high low : Nat) (h : low < 2 ^ width') :
    bits (width + width') (high * 2 ^ width' + low) = bits width high ++ bits width' low := by
  apply ext_getElem
  · simp
  · intro i hi hi'
    rw [length_bits] at hi
    rw [getElem_bits, getElem_append, Nat.mul_comm, Nat.testBit_two_pow_mul_add high h]
    by_cases hlt : i < width
    · rw [if_neg (by omega), dif_pos (by simpa using hlt), getElem_bits]
      congr 1
      omega
    · rw [if_pos (by omega), dif_neg (by simpa using hlt), getElem_bits]
      congr 1
      simp only [length_bits]
      omega

theorem take_bits_eq_iff {width n value value' : Nat} (hn : n ≤ width) (h : value < 2 ^ width)
    (h' : value' < 2 ^ width) : (bits width value).take n = (bits width value').take n ↔
      value >>> (width - n) = value' >>> (width - n) := by
  constructor
  · intro heq
    apply Nat.eq_of_testBit_eq
    intro i
    rw [Nat.testBit_shiftRight, Nat.testBit_shiftRight]
    by_cases hi : i < n
    · have hbit := congrArg (fun l => l[n - 1 - i]?) heq
      have hlt : n - 1 - i < n := by omega
      simp only [getElem?_take_of_lt hlt] at hbit
      rw [getElem?_eq_getElem (by rw [length_bits]; omega),
        getElem?_eq_getElem (by rw [length_bits]; omega), getElem_bits, getElem_bits] at hbit
      have hindex : width - 1 - (n - 1 - i) = width - n + i := by omega
      rw [hindex] at hbit
      exact Option.some.inj hbit
    · have hle : 2 ^ width ≤ 2 ^ (width - n + i) := Nat.pow_le_pow_right (by decide) (by omega)
      rw [Nat.testBit_eq_false_of_lt (Nat.lt_of_lt_of_le h hle),
        Nat.testBit_eq_false_of_lt (Nat.lt_of_lt_of_le h' hle)]
  · intro heq
    apply ext_getElem
    · simp
    · intro i hi hi'
      have hlt : i < n := by
        rw [length_take] at hi
        omega
      rw [getElem_take, getElem_take, getElem_bits, getElem_bits]
      have hbit := congrArg (fun value => value.testBit (n - 1 - i)) heq
      simp only [Nat.testBit_shiftRight] at hbit
      have hindex : width - n + (n - 1 - i) = width - 1 - i := by omega
      rwa [hindex] at hbit

theorem and_mask_shiftRight {width n value : Nat} (h : value < 2 ^ width) :
    (value &&& ((2 ^ width - 1) <<< n % 2 ^ width)) >>> n = value >>> n := by
  apply Nat.eq_of_testBit_eq
  intro i
  simp only [Nat.testBit_shiftRight, Nat.testBit_and, Nat.testBit_mod_two_pow,
    Nat.testBit_shiftLeft, Nat.testBit_two_pow_sub_one]
  by_cases hi : n + i < width
  · have hlow : i < width := by omega
    simp [hi, hlow]
  · have hle : 2 ^ width ≤ 2 ^ (n + i) := Nat.pow_le_pow_right (by decide) (by omega)
    rw [Nat.testBit_eq_false_of_lt (Nat.lt_of_lt_of_le h hle)]
    rfl

end Lib
