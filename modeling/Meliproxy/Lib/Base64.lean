import Meliproxy.Lib.Text

/-!
# Base64

Three bytes are four groups of six bits, and each group is a digit. A text that ends with one or
two bytes is filled up. What a whole number of triples becomes can be cut off in front.
-/

namespace Lib

open List

def sextet₁ (a : UInt8) : UInt8 := a >>> 2

def sextet₂ (a b : UInt8) : UInt8 := (a &&& 3) <<< 4 ||| b >>> 4

def sextet₃ (b c : UInt8) : UInt8 := (b &&& 15) <<< 2 ||| c >>> 6

def sextet₄ (c : UInt8) : UInt8 := c &&& 63

def octet₁ (u v : UInt8) : UInt8 := u <<< 2 ||| v >>> 4

def octet₂ (v w : UInt8) : UInt8 := v <<< 4 ||| w >>> 2

def octet₃ (w x : UInt8) : UInt8 := w <<< 6 ||| x

section Bits

variable (a b c : UInt8) {u v w x : UInt8}

theorem toNat_ofNat_mod {i : Nat} (hi : i < 8) : (UInt8.ofNat i).toNat % 8 = i := by
  rw [UInt8.toNat_ofNat']
  omega

theorem toNat_or_shiftLeft (i : Nat) (hi : i < 8) (h : v.toNat < 2 ^ i) :
    (u <<< UInt8.ofNat i ||| v).toNat = u.toNat * 2 ^ i % 256 + v.toNat := by
  have hpow : 256 = 2 ^ (8 - i) * 2 ^ i := by
    rw [← Nat.pow_add, Nat.sub_add_cancel (Nat.le_of_lt hi)]
  have hmod : u.toNat * 2 ^ i % 256 = (u.toNat % 2 ^ (8 - i)) <<< i := by
    rw [hpow, Nat.mul_mod_mul_right, Nat.shiftLeft_eq]
  have hshift : (u <<< UInt8.ofNat i).toNat = (u.toNat % 2 ^ (8 - i)) <<< i := by
    rw [UInt8.toNat_shiftLeft, toNat_ofNat_mod hi, Nat.shiftLeft_eq, hmod]
  rw [UInt8.toNat_or, hshift, hmod, Nat.shiftLeft_add_eq_or_of_lt h]

theorem toNat_and_mask (i : Nat) (hi : i < 8) :
    (a &&& UInt8.ofNat (2 ^ i - 1)).toNat = a.toNat % 2 ^ i := by
  have hle : 2 ^ i ≤ 2 ^ 8 := Nat.pow_le_pow_right (by decide) (Nat.le_of_lt hi)
  rw [UInt8.toNat_and, UInt8.toNat_ofNat', Nat.mod_eq_of_lt (by omega),
    Nat.and_two_pow_sub_one_eq_mod]

theorem toNat_shiftRight (i : Nat) (hi : i < 8) :
    (a >>> UInt8.ofNat i).toNat = a.toNat / 2 ^ i := by
  rw [UInt8.toNat_shiftRight, toNat_ofNat_mod hi, Nat.shiftRight_eq_div_pow]

theorem toNat_sextet₁ : (sextet₁ a).toNat = a.toNat / 4 := toNat_shiftRight a 2 (by decide)

theorem toNat_sextet₂ : (sextet₂ a b).toNat = a.toNat % 4 * 16 + b.toNat / 16 := by
  have hb : (b >>> 4).toNat = b.toNat / 16 := toNat_shiftRight b 4 (by decide)
  have ha : (a &&& 3).toNat = a.toNat % 4 := toNat_and_mask a 2 (by decide)
  have hlt := b.toNat_lt
  have h := toNat_or_shiftLeft (u := a &&& 3) (v := b >>> 4) 4 (by decide) (by omega)
  rw [ha, hb] at h
  exact h.trans (by omega)

theorem toNat_sextet₃ : (sextet₃ b c).toNat = b.toNat % 16 * 4 + c.toNat / 64 := by
  have hc : (c >>> 6).toNat = c.toNat / 64 := toNat_shiftRight c 6 (by decide)
  have hb : (b &&& 15).toNat = b.toNat % 16 := toNat_and_mask b 4 (by decide)
  have hlt := c.toNat_lt
  have h := toNat_or_shiftLeft (u := b &&& 15) (v := c >>> 6) 2 (by decide) (by omega)
  rw [hb, hc] at h
  exact h.trans (by omega)

theorem toNat_sextet₄ : (sextet₄ c).toNat = c.toNat % 64 := toNat_and_mask c 6 (by decide)

theorem toNat_octet₁ (hv : v.toNat < 64) :
    (octet₁ u v).toNat = u.toNat * 4 % 256 + v.toNat / 16 := by
  have hright : (v >>> 4).toNat = v.toNat / 16 := toNat_shiftRight v 4 (by decide)
  have h := toNat_or_shiftLeft (u := u) (v := v >>> 4) 2 (by decide) (by omega)
  rwa [hright] at h

theorem toNat_octet₂ (hw : w.toNat < 64) :
    (octet₂ v w).toNat = v.toNat * 16 % 256 + w.toNat / 4 := by
  have hright : (w >>> 2).toNat = w.toNat / 4 := toNat_shiftRight w 2 (by decide)
  have h := toNat_or_shiftLeft (u := v) (v := w >>> 2) 4 (by decide) (by omega)
  rwa [hright] at h

theorem toNat_octet₃ (hx : x.toNat < 64) :
    (octet₃ w x).toNat = w.toNat * 64 % 256 + x.toNat := toNat_or_shiftLeft 6 (by decide) hx

theorem sextet₁_lt : sextet₁ a < 64 := by
  have hlt := a.toNat_lt
  rw [UInt8.lt_iff_toNat_lt, toNat_sextet₁]
  change _ < 64
  omega

theorem sextet₂_lt : sextet₂ a b < 64 := by
  have hlt := b.toNat_lt
  rw [UInt8.lt_iff_toNat_lt, toNat_sextet₂]
  change _ < 64
  omega

theorem sextet₃_lt : sextet₃ b c < 64 := by
  have hlt := c.toNat_lt
  rw [UInt8.lt_iff_toNat_lt, toNat_sextet₃]
  change _ < 64
  omega

theorem sextet₄_lt : sextet₄ c < 64 := by
  rw [UInt8.lt_iff_toNat_lt, toNat_sextet₄]
  exact Nat.mod_lt _ (by decide)

theorem octet₁_sextets : octet₁ (sextet₁ a) (sextet₂ a b) = a := by
  have ha := a.toNat_lt
  have hb := b.toNat_lt
  apply UInt8.toNat.inj
  rw [toNat_octet₁ (UInt8.lt_iff_toNat_lt.mp (sextet₂_lt a b)), toNat_sextet₁, toNat_sextet₂]
  omega

theorem octet₂_sextets : octet₂ (sextet₂ a b) (sextet₃ b c) = b := by
  have hb := b.toNat_lt
  have hc := c.toNat_lt
  apply UInt8.toNat.inj
  rw [toNat_octet₂ (UInt8.lt_iff_toNat_lt.mp (sextet₃_lt b c)), toNat_sextet₂, toNat_sextet₃]
  omega

theorem octet₃_sextets : octet₃ (sextet₃ b c) (sextet₄ c) = c := by
  have hc := c.toNat_lt
  apply UInt8.toNat.inj
  rw [toNat_octet₃ (UInt8.lt_iff_toNat_lt.mp (sextet₄_lt c)), toNat_sextet₃, toNat_sextet₄]
  omega

variable (hu : u < 64) (hv : v < 64) (hw : w < 64) (hx : x < 64)
include hu hv

theorem sextet₁_octets : sextet₁ (octet₁ u v) = u := by
  rw [UInt8.lt_iff_toNat_lt] at hu hv
  change _ < 64 at hu hv
  apply UInt8.toNat.inj
  rw [toNat_sextet₁, toNat_octet₁ hv]
  omega

include hw

theorem sextet₂_octets : sextet₂ (octet₁ u v) (octet₂ v w) = v := by
  rw [UInt8.lt_iff_toNat_lt] at hu hv hw
  change _ < 64 at hu hv hw
  apply UInt8.toNat.inj
  rw [toNat_sextet₂, toNat_octet₁ hv, toNat_octet₂ hw]
  omega

omit hu
include hx

theorem sextet₃_octets : sextet₃ (octet₂ v w) (octet₃ w x) = w := by
  rw [UInt8.lt_iff_toNat_lt] at hv hw hx
  change _ < 64 at hv hw hx
  apply UInt8.toNat.inj
  rw [toNat_sextet₃, toNat_octet₂ hw, toNat_octet₃ hx]
  omega

omit hv

theorem sextet₄_octets : sextet₄ (octet₃ w x) = x := by
  rw [UInt8.lt_iff_toNat_lt] at hw hx
  change _ < 64 at hw hx
  apply UInt8.toNat.inj
  rw [toNat_sextet₄, toNat_octet₃ hx]
  omega

end Bits

variable (digit : UInt8 → UInt8) (pad : UInt8)

def base64 : Bytes → Bytes
  | [] => []
  | [a] => [digit (sextet₁ a), digit (sextet₂ a 0), pad, pad]
  | [a, b] => [digit (sextet₁ a), digit (sextet₂ a b), digit (sextet₃ b 0), pad]
  | a :: b :: c :: rest =>
    digit (sextet₁ a) :: digit (sextet₂ a b) :: digit (sextet₃ b c) :: digit (sextet₄ c) ::
      base64 rest

theorem length_base64 (bytes : Bytes) :
    (base64 digit pad bytes).length = (bytes.length + 2) / 3 * 4 := by
  induction bytes using base64.induct with
  | case1 => rfl
  | case2 | case3 => simp [base64]
  | case4 a b c rest ih =>
    simp only [base64, length_cons, ih]
    omega

theorem base64_append {bytes : Bytes} (h : 3 ∣ bytes.length) (bytes' : Bytes) :
    base64 digit pad (bytes ++ bytes') = base64 digit pad bytes ++ base64 digit pad bytes' := by
  induction bytes using base64.induct with
  | case1 => rfl
  | case2 a => simp at h
  | case3 a b => exact absurd h (by decide : ¬ 3 ∣ 2)
  | case4 a b c rest ih =>
    simp only [length_cons] at h
    simp [base64, ih (by omega)]

theorem base64_split (bytes : Bytes) {front back : Bytes}
    (h : base64 digit pad bytes = front ++ back) (hlength : 4 ∣ front.length) :
    ∃ bytes₁ bytes₂, bytes = bytes₁ ++ bytes₂ ∧ front = base64 digit pad bytes₁ ∧
      back = base64 digit pad bytes₂ := by
  obtain ⟨n, hn⟩ := hlength
  have htotal := congrArg List.length h
  rw [length_base64, length_append, hn] at htotal
  by_cases hle : 3 * n ≤ bytes.length
  · have htake : (bytes.take (3 * n)).length = 3 * n := length_take_of_le hle
    have hthree : 3 ∣ (bytes.take (3 * n)).length := by
      rw [htake]
      exact Nat.dvd_mul_right 3 n
    have hparts := base64_append digit pad hthree (bytes.drop (3 * n))
    rw [take_append_drop, h] at hparts
    have hfront : (base64 digit pad (bytes.take (3 * n))).length = front.length := by
      rw [length_base64, htake, hn]
      omega
    obtain ⟨h₁, h₂⟩ := append_inj hparts.symm hfront
    exact ⟨_, _, (take_append_drop (3 * n) bytes).symm, h₁.symm, h₂.symm⟩
  · -- The text ends in the last group of four, which the cut does not split.
    have hback : back = [] := length_eq_zero_iff.mp (by omega)
    rw [hback, append_nil] at h
    exact ⟨bytes, [], (append_nil bytes).symm, h.symm, hback⟩

theorem base64_eq_nil_iff {bytes : Bytes} : base64 digit pad bytes = [] ↔ bytes = [] := by
  rw [← length_eq_zero_iff, length_base64, ← length_eq_zero_iff]
  omega

end Lib
