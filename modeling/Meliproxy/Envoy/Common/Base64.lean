import Meliproxy.Lib.Base64

/-!
# The base64 coder

`Base64::encode` and `Base64::decode` of `common/base64.cc`. A `char` is signed, so that the
index of a byte above 127 is beyond the table; what is read there is not known.
-/

namespace Meliproxy.Envoy.Base64

open Lib List Option

def charTable : Bytes :=
  ascii "ABCDEFGHIJKLMNOPQRSTUVWXYZabcdefghijklmnopqrstuvwxyz0123456789+/"

def reverseLookupTable : List UInt8 :=
  [64, 64, 64, 64, 64, 64, 64, 64, 64, 64, 64, 64, 64, 64, 64, 64, 64, 64, 64, 64, 64, 64, 64,
    64, 64, 64, 64, 64, 64, 64, 64, 64, 64, 64, 64, 64, 64, 64, 64, 64, 64, 64, 64, 62, 64, 64,
    64, 63, 52, 53, 54, 55, 56, 57, 58, 59, 60, 61, 64, 64, 64, 64, 64, 64, 64, 0, 1, 2, 3, 4, 5,
    6, 7, 8, 9, 10, 11, 12, 13, 14, 15, 16, 17, 18, 19, 20, 21, 22, 23, 24, 25, 64, 64, 64, 64,
    64, 64, 26, 27, 28, 29, 30, 31, 32, 33, 34, 35, 36, 37, 38, 39, 40, 41, 42, 43, 44, 45, 46,
    47, 48, 49, 50, 51, 64, 64, 64, 64, 64, 64, 64, 64, 64, 64, 64, 64, 64, 64, 64, 64, 64, 64,
    64, 64, 64, 64, 64, 64, 64, 64, 64, 64, 64, 64, 64, 64, 64, 64, 64, 64, 64, 64, 64, 64, 64,
    64, 64, 64, 64, 64, 64, 64, 64, 64, 64, 64, 64, 64, 64, 64, 64, 64, 64, 64, 64, 64, 64, 64,
    64, 64, 64, 64, 64, 64, 64, 64, 64, 64, 64, 64, 64, 64, 64, 64, 64, 64, 64, 64, 64, 64, 64,
    64, 64, 64, 64, 64, 64, 64, 64, 64, 64, 64, 64, 64, 64, 64, 64, 64, 64, 64, 64, 64, 64, 64,
    64, 64, 64, 64, 64, 64, 64, 64, 64, 64, 64, 64, 64, 64, 64, 64, 64, 64, 64, 64, 64, 64, 64]

def char (v : UInt8) : UInt8 := charTable.getD v.toNat 0

def reverseLookup (c : UInt8) : Option UInt8 :=
  if c < 128 then reverseLookupTable[c.toNat]? else none

def encodeBase (curChar : UInt8) (pos : Nat) (nextC : UInt8) (ret : Bytes) : UInt8 × Bytes :=
  match pos % 3 with
  | 0 => ((curChar &&& 3) <<< 4, ret ++ [char (curChar >>> 2)])
  | 1 => ((curChar &&& 15) <<< 2, ret ++ [char (nextC ||| curChar >>> 4)])
  | _ => (0, ret ++ [char (nextC ||| curChar >>> 6), char (curChar &&& 63)])

def encodeLast (pos : Nat) (lastChar : UInt8) (ret : Bytes) : Bytes :=
  match pos % 3 with
  | 1 => ret ++ [char lastChar, 61, 61]
  | 2 => ret ++ [char lastChar, 61]
  | _ => ret

def encodeLoop (pos : Nat) (nextC : UInt8) (ret : Bytes) : Bytes → Bytes
  | [] => encodeLast pos nextC ret
  | curChar :: input =>
    let (nextC, ret) := encodeBase curChar pos nextC ret
    encodeLoop (pos + 1) nextC ret input

def encode (input : Bytes) : Bytes := encodeLoop 0 0 [] input

def firstPaddingIndex (input : Bytes) : Nat :=
  if input[input.length - 1]? = some 61 then
    if input[input.length - 2]? = some 61 then input.length - 2 else input.length - 1
  else input.length

def decodeLoop (firstPaddingIndex curRead : Nat) (result : Bytes) : Bytes → Option Bytes
  | a :: b :: c :: d :: input => do
    let a ← reverseLookup a
    let b ← reverseLookup b
    if a = 64 ∨ b = 64 then some []
    else
      let result := result ++ [a <<< 2 ||| b >>> 4]
      let c ← reverseLookup c
      if c = 64 then
        if firstPaddingIndex ≠ curRead + 2 then some []
        else if b &&& 15 ≠ 0 then some []
        else some result
      else
        let result := result ++ [b <<< 4 ||| c >>> 2]
        let d ← reverseLookup d
        if d = 64 then
          if firstPaddingIndex ≠ curRead + 3 then some []
          else if c &&& 3 ≠ 0 then some []
          else some result
        else decodeLoop firstPaddingIndex (curRead + 4) (result ++ [c <<< 6 ||| d]) input
  | _ => some result

def decode (input : Bytes) : Option Bytes :=
  if input.length % 4 ≠ 0 ∨ input = [] then some []
  else decodeLoop (firstPaddingIndex input) 0 [] input

theorem char_mem {v : UInt8} (h : v < 64) : char v ∈ charTable := by
  have hlength : charTable.length = 64 := by decide +kernel
  have hlt : v.toNat < charTable.length := by
    rw [hlength]
    exact UInt8.lt_iff_toNat_lt.mp h
  rw [char, getD_eq_getElem?_getD, getElem?_eq_getElem hlt, getD_some]
  exact getElem_mem hlt

theorem reverseLookup_char {v : UInt8} (h : v < 64) : reverseLookup (char v) = some v := by
  have hall : ∀ n < 64, reverseLookup (char (UInt8.ofNat n)) = some (UInt8.ofNat n) := by
    decide +kernel
  have hv := hall v.toNat (UInt8.lt_iff_toNat_lt.mp h)
  rwa [UInt8.ofNat_toNat] at hv

/-- What the table says of a byte, and what the digits are. -/
inductive Lookup (c : UInt8) : Prop where
  | outside (large : 128 ≤ c) (lookup : reverseLookup c = none)
  | invalid (small : c < 128) (digit : c ∉ charTable) (lookup : reverseLookup c = some 64)
  | digit (v : UInt8) (lt : v < 64) (eq : c = char v) (lookup : reverseLookup c = some v)

theorem lookup_cases (c : UInt8) : Lookup c := by
  have hall : ∀ n < 128, (UInt8.ofNat n ∉ charTable ∧ reverseLookup (UInt8.ofNat n) = some 64) ∨
      ∃ m < 64, UInt8.ofNat n = char (UInt8.ofNat m) := by
    decide +kernel
  by_cases hlarge : 128 ≤ c
  · exact .outside hlarge (if_neg (UInt8.not_lt.mpr hlarge))
  · have hsmall : c < 128 := UInt8.not_le.mp hlarge
    obtain ⟨hdigit, hlookup⟩ | ⟨m, hm, hchar⟩ := hall c.toNat (UInt8.lt_iff_toNat_lt.mp hsmall)
    · rw [UInt8.ofNat_toNat] at hdigit hlookup
      exact .invalid hsmall hdigit hlookup
    · rw [UInt8.ofNat_toNat] at hchar
      have hlt : UInt8.ofNat m < 64 := by
        rw [UInt8.lt_iff_toNat_lt, UInt8.toNat_ofNat']
        change _ < 64
        omega
      exact .digit _ hlt hchar (by rw [hchar, reverseLookup_char hlt])

theorem encodeLoop_eq {pos : Nat} (h : pos % 3 = 0) (input ret : Bytes) :
    encodeLoop pos 0 ret input = ret ++ base64 char 61 input := by
  have hone : ∀ {pos : Nat}, pos % 3 = 0 → (pos + 1) % 3 = 1 := by omega
  have htwo : ∀ {pos : Nat}, pos % 3 = 0 → (pos + 1 + 1) % 3 = 2 := by omega
  induction input using base64.induct generalizing pos ret with
  | case1 => simp [encodeLoop, encodeLast, h, base64]
  | case2 a => simp [encodeLoop, encodeBase, encodeLast, h, hone h, base64, sextet₁, sextet₂]
  | case3 a b =>
    simp [encodeLoop, encodeBase, encodeLast, h, hone h, htwo h, base64, sextet₁, sextet₂, sextet₃]
  | case4 a b c rest ih =>
    have hrest : ∀ ret, encodeLoop (pos + 1 + 1 + 1) 0 ret rest = ret ++ base64 char 61 rest :=
      fun ret => ih (by omega) ret
    simp [encodeLoop, encodeBase, h, hone h, htwo h, hrest, base64, sextet₁, sextet₂, sextet₃,
      sextet₄]

theorem encode_eq (input : Bytes) : encode input = base64 char 61 input :=
  encodeLoop_eq rfl input []

theorem four_dvd_length_encode (input : Bytes) : 4 ∣ (encode input).length := by
  rw [encode_eq, length_base64]
  exact Nat.dvd_mul_left 4 _

/-- The first thing in the text that is no base64, with nothing above 127 in front of it. -/
inductive Rejected : Bytes → Prop where
  | first {a b c d : UInt8} {rest : Bytes} (ha : a < 128) (hb : b < 128)
      (h : a ∉ charTable ∨ b ∉ charTable) : Rejected (a :: b :: c :: d :: rest)
  | third {a v c d : UInt8} {rest : Bytes} (ha : a ∈ charTable) (hv : v < 64) (hc : c < 128)
      (hdigit : c ∉ charTable) (h : ¬ (c = 61 ∧ d = 61 ∧ rest = [] ∧ v &&& 15 = 0)) :
      Rejected (a :: char v :: c :: d :: rest)
  | fourth {a b w d : UInt8} {rest : Bytes} (ha : a ∈ charTable) (hb : b ∈ charTable)
      (hw : w < 64) (hd : d < 128) (hdigit : d ∉ charTable)
      (h : ¬ (d = 61 ∧ rest = [] ∧ w &&& 3 = 0)) : Rejected (a :: b :: char w :: d :: rest)
  | later {a b c d : UInt8} {rest : Bytes} (ha : a ∈ charTable) (hb : b ∈ charTable)
      (hc : c ∈ charTable) (hd : d ∈ charTable) (h : Rejected rest) :
      Rejected (a :: b :: c :: d :: rest)

variable {input : Bytes}

theorem firstPaddingIndex_cons (a b c d : UInt8) (h : 2 ≤ input.length) :
    firstPaddingIndex (a :: b :: c :: d :: input) = 4 + firstPaddingIndex input := by
  have hindex : ∀ i, 1 ≤ i → i ≤ 2 →
      (a :: b :: c :: d :: input)[(a :: b :: c :: d :: input).length - i]? =
        input[input.length - i]? := by
    intro i hlow hhigh
    have hshift : (a :: b :: c :: d :: input).length - i = input.length - i + 4 := by
      simp only [length_cons]
      omega
    rw [hshift]
    rfl
  have hlength : (a :: b :: c :: d :: input).length = input.length + 4 := rfl
  unfold firstPaddingIndex
  rw [hindex 1 (by decide) (by decide), hindex 2 (by decide) (by decide), hlength]
  split
  · split <;> omega
  · omega

theorem firstPaddingIndex_four (a b c d : UInt8) :
    firstPaddingIndex [a, b, c, d] = if d = 61 then if c = 61 then 2 else 3 else 4 := by
  simp [firstPaddingIndex]

theorem firstPaddingIndex_block (a b c d : UInt8) (h : 4 ∣ input.length) :
    input = [] ∨ (input ≠ [] ∧ 4 ≤ firstPaddingIndex (a :: b :: c :: d :: input)) := by
  cases input with
  | nil => exact .inl rfl
  | cons e input =>
    have hpos : 0 < (e :: input).length := Nat.succ_pos _
    rw [firstPaddingIndex_cons a b c d (by omega)]
    exact .inr ⟨cons_ne_nil _ _, Nat.le_add_right 4 _⟩

theorem firstPaddingIndex_two {a b c d : UInt8} (h : 4 ∣ input.length) :
    firstPaddingIndex (a :: b :: c :: d :: input) = 2 ↔ c = 61 ∧ d = 61 ∧ input = [] := by
  obtain rfl | ⟨hne, hlarge⟩ := firstPaddingIndex_block a b c d h
  · rw [firstPaddingIndex_four]
    by_cases hd : d = 61 <;> by_cases hc : c = 61 <;> simp [hc, hd]
  · refine ⟨fun heq => ?_, fun heq => absurd heq.2.2 hne⟩
    rw [heq] at hlarge
    exact absurd hlarge (by decide)

theorem firstPaddingIndex_three {a b c d : UInt8} (h : 4 ∣ input.length)
    (hc : c ≠ 61) : firstPaddingIndex (a :: b :: c :: d :: input) = 3 ↔ d = 61 ∧ input = [] := by
  obtain rfl | ⟨hne, hlarge⟩ := firstPaddingIndex_block a b c d h
  · rw [firstPaddingIndex_four]
    by_cases hd : d = 61 <;> simp [hc, hd]
  · refine ⟨fun heq => ?_, fun heq => absurd heq.2 hne⟩
    rw [heq] at hlarge
    exact absurd hlarge (by decide)

section Decoding

variable {p k : Nat} {result input : Bytes} {u v w x : UInt8}

theorem ne_of_lt_64 (h : v < 64) : v ≠ 64 := fun heq => absurd (heq ▸ h) (by decide)

theorem decodeLoop_digits (hu : u < 64) (hv : v < 64) (hw : w < 64) (hx : x < 64) :
    decodeLoop p k result (char u :: char v :: char w :: char x :: input) =
      decodeLoop p (k + 4) (result ++ [octet₁ u v, octet₂ v w, octet₃ w x]) input := by
  simp [decodeLoop, reverseLookup_char, hu, hv, hw, hx, ne_of_lt_64, octet₁, octet₂, octet₃]

theorem decodeLoop_pad₂ (hu : u < 64) (hv : v < 64) (hspare : v &&& 15 = 0) :
    decodeLoop (k + 2) k result [char u, char v, 61, 61] = some (result ++ [octet₁ u v]) := by
  have hpad : reverseLookup 61 = some 64 := by decide +kernel
  simp [decodeLoop, reverseLookup_char, hu, hv, ne_of_lt_64, hpad, hspare, octet₁]

theorem decodeLoop_pad₁ (hu : u < 64) (hv : v < 64) (hw : w < 64) (hspare : w &&& 3 = 0) :
    decodeLoop (k + 3) k result [char u, char v, char w, 61] =
      some (result ++ [octet₁ u v, octet₂ v w]) := by
  have hpad : reverseLookup 61 = some 64 := by decide +kernel
  simp [decodeLoop, reverseLookup_char, hu, hv, hw, ne_of_lt_64, hpad, hspare, octet₁, octet₂]

end Decoding

theorem sextet₂_spare (a : UInt8) : sextet₂ a 0 &&& 15 = 0 := by
  apply UInt8.toNat.inj
  have hmask : (sextet₂ a 0 &&& 15).toNat = (sextet₂ a 0).toNat % 16 :=
    toNat_and_mask _ 4 (by decide)
  rw [hmask, toNat_sextet₂]
  change (_ * 16 + 0 / 16) % 16 = 0
  omega

theorem sextet₃_spare (b : UInt8) : sextet₃ b 0 &&& 3 = 0 := by
  apply UInt8.toNat.inj
  have hmask : (sextet₃ b 0 &&& 3).toNat = (sextet₃ b 0).toNat % 4 := toNat_and_mask _ 2 (by decide)
  rw [hmask, toNat_sextet₃]
  change (_ * 4 + 0 / 64) % 4 = 0
  omega

theorem char_ne_pad {v : UInt8} (h : v < 64) : char v ≠ 61 := by
  intro heq
  have hlookup := reverseLookup_char h
  rw [heq] at hlookup
  have hpad : reverseLookup 61 = some 64 := by decide +kernel
  exact ne_of_lt_64 h (some.inj (hlookup.symm.trans hpad))

theorem decodeLoop_base64 (k : Nat) (result bytes : Bytes) :
    decodeLoop (k + firstPaddingIndex (base64 char 61 bytes)) k result (base64 char 61 bytes) =
      some (result ++ bytes) := by
  induction bytes using base64.induct generalizing k result with
  | case1 => simp [base64, decodeLoop]
  | case2 a =>
    rw [base64, firstPaddingIndex_four, if_pos rfl, if_pos rfl,
      decodeLoop_pad₂ (sextet₁_lt a) (sextet₂_lt a 0) (sextet₂_spare a), octet₁_sextets]
  | case3 a b =>
    rw [base64, firstPaddingIndex_four, if_pos rfl, if_neg (char_ne_pad (sextet₃_lt b 0)),
      decodeLoop_pad₁ (sextet₁_lt a) (sextet₂_lt a b) (sextet₃_lt b 0) (sextet₃_spare b),
      octet₁_sextets, octet₂_sextets]
  | case4 a b c rest ih =>
    rw [base64, decodeLoop_digits (sextet₁_lt a) (sextet₂_lt a b) (sextet₃_lt b c) (sextet₄_lt c),
      octet₁_sextets, octet₂_sextets, octet₃_sextets]
    by_cases hrest : rest = []
    · subst hrest
      simp [base64, decodeLoop]
    · have hne : base64 char 61 rest ≠ [] := fun h => hrest ((base64_eq_nil_iff _ _).mp h)
      have hlength := length_base64 char 61 rest
      have hpos := length_pos_iff.mpr hne
      rw [firstPaddingIndex_cons _ _ _ _ (by omega), ← Nat.add_assoc, ih]
      simp

theorem small_of_lookup {c v : UInt8} (h : reverseLookup c = some v) : c < 128 := by
  by_contra hlarge
  rw [reverseLookup, if_neg hlarge] at h
  cases h

theorem notMem_of_lookup {c : UInt8} (h : reverseLookup c = some 64) : c ∉ charTable := by
  cases lookup_cases c with
  | outside _ hl => cases hl.symm.trans h
  | invalid _ hdigit _ => exact hdigit
  | digit v hv _ hl => exact absurd (some.inj (hl.symm.trans h)) (ne_of_lt_64 hv)

theorem digit_of_lookup {c v : UInt8} (h : reverseLookup c = some v) (hne : v ≠ 64) :
    v < 64 ∧ c = char v := by
  cases lookup_cases c with
  | outside _ hl => cases hl.symm.trans h
  | invalid _ _ hl => exact absurd (some.inj (hl.symm.trans h)).symm hne
  | digit w hw hc hl =>
    cases hl.symm.trans h
    exact ⟨hw, hc⟩

theorem octet₂_spare {v : UInt8} (h : v &&& 15 = 0) : octet₂ v 0 = 0 := by
  have hmask : (v &&& 15).toNat = v.toNat % 16 := toNat_and_mask v 4 (by decide)
  rw [h] at hmask
  change 0 = _ at hmask
  apply UInt8.toNat.inj
  rw [toNat_octet₂ (by decide)]
  change _ * 16 % 256 + 0 / 4 = 0
  omega

theorem octet₃_spare {w : UInt8} (h : w &&& 3 = 0) : octet₃ w 0 = 0 := by
  have hmask : (w &&& 3).toNat = w.toNat % 4 := toNat_and_mask w 2 (by decide)
  rw [h] at hmask
  change 0 = _ at hmask
  apply UInt8.toNat.inj
  rw [toNat_octet₃ (by decide)]
  change _ * 64 % 256 + 0 = 0
  omega

section Groups

variable {u v w x : UInt8} (hu : u < 64) (hv : v < 64)
include hu hv

theorem base64_pad₂ (hspare : v &&& 15 = 0) :
    base64 char 61 [octet₁ u v] = [char u, char v, 61, 61] := by
  have hsecond := sextet₂_octets hu hv (by decide : (0 : UInt8) < 64)
  rw [octet₂_spare hspare] at hsecond
  rw [base64, sextet₁_octets hu hv, hsecond]

variable (hw : w < 64)
include hw

theorem base64_pad₁ (hspare : w &&& 3 = 0) :
    base64 char 61 [octet₁ u v, octet₂ v w] = [char u, char v, char w, 61] := by
  have hthird := sextet₃_octets hv hw (by decide : (0 : UInt8) < 64)
  rw [octet₃_spare hspare] at hthird
  rw [base64, sextet₁_octets hu hv, sextet₂_octets hu hv hw, hthird]

theorem base64_digits (hx : x < 64) (bytes : Bytes) :
    base64 char 61 (octet₁ u v :: octet₂ v w :: octet₃ w x :: bytes) =
      char u :: char v :: char w :: char x :: base64 char 61 bytes := by
  rw [base64, sextet₁_octets hu hv, sextet₂_octets hu hv hw, sextet₃_octets hv hw hx,
    sextet₄_octets hw hx]

end Groups

theorem decodeLoop_some {k : Nat} {result out : Bytes} {input : Bytes} (hlength : 4 ∣ input.length)
    (h : decodeLoop (k + firstPaddingIndex input) k result input = some out) :
    (∃ bytes, input = base64 char 61 bytes ∧ out = result ++ bytes) ∨
      (Rejected input ∧ out = []) := by
  match input with
  | [] =>
    cases h
    exact .inl ⟨[], rfl, (append_nil _).symm⟩
  | [a] => simp at hlength
  | [a, b] => exact absurd hlength (by decide : ¬ 4 ∣ 2)
  | [a, b, c] => exact absurd hlength (by decide : ¬ 4 ∣ 3)
  | a :: b :: c :: d :: input =>
    have hrest : 4 ∣ input.length := by
      simp only [length_cons] at hlength
      omega
    rw [decodeLoop] at h
    obtain ⟨u, hla, h₁⟩ := bind_eq_some_iff.mp h
    obtain ⟨v, hlb, h₂⟩ := bind_eq_some_iff.mp h₁
    clear h h₁
    split at h₂
    · rename_i herror
      have hdigit : a ∉ charTable ∨ b ∉ charTable := by
        obtain rfl | rfl := herror
        · exact .inl (notMem_of_lookup hla)
        · exact .inr (notMem_of_lookup hlb)
      cases h₂
      exact .inr ⟨.first (small_of_lookup hla) (small_of_lookup hlb) hdigit, rfl⟩
    rename_i hab
    obtain ⟨hu, rfl⟩ := digit_of_lookup hla fun heq => hab (.inl heq)
    obtain ⟨hv, rfl⟩ := digit_of_lookup hlb fun heq => hab (.inr heq)
    obtain ⟨w, hlc, h₃⟩ := bind_eq_some_iff.mp h₂
    clear h₂
    split at h₃
    · rename_i hw
      subst hw
      have hthird : ¬ (c = 61 ∧ d = 61 ∧ input = [] ∧ v &&& 15 = 0) →
          Rejected (char u :: char v :: c :: d :: input) :=
        .third (char_mem hu) hv (small_of_lookup hlc) (notMem_of_lookup hlc)
      split at h₃
      · rename_i hpad
        cases h₃
        refine .inr ⟨hthird fun heq => hpad ?_, rfl⟩
        rw [(firstPaddingIndex_two hrest).mpr ⟨heq.1, heq.2.1, heq.2.2.1⟩]
      rename_i hpad
      obtain ⟨rfl, rfl, rfl⟩ :=
        (firstPaddingIndex_two hrest).mp (Nat.add_left_cancel (not_not.mp hpad))
      split at h₃
      · rename_i hspare
        cases h₃
        exact .inr ⟨hthird fun heq => hspare heq.2.2.2, rfl⟩
      · rename_i hspare
        cases h₃
        exact .inl ⟨[octet₁ u v], (base64_pad₂ hu hv (not_not.mp hspare)).symm, rfl⟩
    rename_i hw
    obtain ⟨hw, rfl⟩ := digit_of_lookup hlc hw
    obtain ⟨x, hld, h₄⟩ := bind_eq_some_iff.mp h₃
    clear h₃
    split at h₄
    · rename_i hx
      subst hx
      have hfourth : ¬ (d = 61 ∧ input = [] ∧ w &&& 3 = 0) →
          Rejected (char u :: char v :: char w :: d :: input) :=
        .fourth (char_mem hu) (char_mem hv) hw (small_of_lookup hld) (notMem_of_lookup hld)
      split at h₄
      · rename_i hpad
        cases h₄
        refine .inr ⟨hfourth fun heq => hpad ?_, rfl⟩
        rw [(firstPaddingIndex_three hrest (char_ne_pad hw)).mpr ⟨heq.1, heq.2.1⟩]
      rename_i hpad
      obtain ⟨rfl, rfl⟩ := (firstPaddingIndex_three hrest (char_ne_pad hw)).mp
        (Nat.add_left_cancel (not_not.mp hpad))
      split at h₄
      · rename_i hspare
        cases h₄
        exact .inr ⟨hfourth fun heq => hspare heq.2.2, rfl⟩
      · rename_i hspare
        cases h₄
        refine .inl ⟨[octet₁ u v, octet₂ v w], ?_, append_assoc _ _ _⟩
        exact (base64_pad₁ hu hv hw (not_not.mp hspare)).symm
    rename_i hx
    obtain ⟨hx, rfl⟩ := digit_of_lookup hld hx
    have hnext : decodeLoop (k + 4 + firstPaddingIndex input) (k + 4)
        (result ++ [octet₁ u v, octet₂ v w, octet₃ w x]) input = some out := by
      cases input with
      | nil =>
        rw [decodeLoop] at h₄ ⊢
        · simpa [octet₁, octet₂, octet₃] using h₄
        all_goals simp
      | cons e input =>
        have hpos : 0 < (e :: input).length := Nat.succ_pos _
        rw [firstPaddingIndex_cons _ _ _ _ (by omega), ← Nat.add_assoc] at h₄
        simpa [octet₁, octet₂, octet₃] using h₄
    obtain ⟨bytes, rfl, rfl⟩ | ⟨hrejected, rfl⟩ := decodeLoop_some hrest hnext
    · refine .inl ⟨_, (base64_digits hu hv hw hx bytes).symm, ?_⟩
      rw [append_assoc]
      rfl
    · exact .inr ⟨.later (char_mem hu) (char_mem hv) (char_mem hw) (char_mem hx) hrejected, rfl⟩

theorem lookup_of_small {c : UInt8} (h : c < 128) : ∃ v, reverseLookup c = some v := by
  cases lookup_cases c with
  | outside hlarge _ => exact absurd h (UInt8.not_lt.mpr hlarge)
  | invalid _ _ hl => exact ⟨64, hl⟩
  | digit v _ _ hl => exact ⟨v, hl⟩

theorem lookup_of_notMem {c : UInt8} (h : c < 128) (hdigit : c ∉ charTable) :
    reverseLookup c = some 64 := by
  cases lookup_cases c with
  | outside hlarge _ => exact absurd h (UInt8.not_lt.mpr hlarge)
  | invalid _ _ hl => exact hl
  | digit v hv hc _ => exact absurd (hc ▸ char_mem hv) hdigit

theorem exists_char_of_mem {c : UInt8} (h : c ∈ charTable) : ∃ v < 64, c = char v := by
  have hall : ∀ c ∈ charTable, c < 128 := by decide +kernel
  cases lookup_cases c with
  | outside hlarge _ => exact absurd (hall c h) (UInt8.not_lt.mpr hlarge)
  | invalid _ hdigit _ => exact absurd h hdigit
  | digit v hv hc _ => exact ⟨v, hv, hc⟩

theorem decodeLoop_rejected {k : Nat} {result input : Bytes} (hlength : 4 ∣ input.length)
    (h : Rejected input) : decodeLoop (k + firstPaddingIndex input) k result input = some [] := by
  induction h generalizing k result with
  | @first a b c d rest ha hb hdigit =>
    obtain ⟨u, hu⟩ := lookup_of_small ha
    obtain ⟨v, hv⟩ := lookup_of_small hb
    have herror : u = 64 ∨ v = 64 := by
      refine hdigit.imp (fun hmem => ?_) fun hmem => ?_
      · exact some.inj (hu.symm.trans (lookup_of_notMem ha hmem))
      · exact some.inj (hv.symm.trans (lookup_of_notMem hb hmem))
    simp [decodeLoop, hu, hv, herror]
  | @third a v c d rest ha hv hc hdigit hspare =>
    have hrest : 4 ∣ rest.length := by
      simp only [length_cons] at hlength
      omega
    obtain ⟨u, hu, rfl⟩ := exists_char_of_mem ha
    have hpad := firstPaddingIndex_two (a := char u) (b := char v) (c := c) (d := d) hrest
    have hclash : firstPaddingIndex (char u :: char v :: c :: d :: rest) = 2 → v &&& 15 ≠ 0 :=
      fun htwo hzero => hspare (by simpa [hzero] using hpad.mp htwo)
    simp only [decodeLoop, reverseLookup_char hu, reverseLookup_char hv, lookup_of_notMem hc hdigit,
      bind_eq_bind, bind_some, ne_of_lt_64 hu, ne_of_lt_64 hv, or_self_iff, if_false,
      if_true, ne_eq, Nat.add_left_cancel_iff, ite_eq_left_iff, not_not]
    intro htwo
    exact fun hzero => absurd hzero (hclash htwo)
  | @fourth a b w d rest ha hb hw hd hdigit hspare =>
    have hrest : 4 ∣ rest.length := by
      simp only [length_cons] at hlength
      omega
    obtain ⟨u, hu, rfl⟩ := exists_char_of_mem ha
    obtain ⟨v, hv, rfl⟩ := exists_char_of_mem hb
    have hpad := firstPaddingIndex_three (a := char u) (b := char v) (d := d) hrest
      (char_ne_pad hw)
    have hclash : firstPaddingIndex (char u :: char v :: char w :: d :: rest) = 3 →
        w &&& 3 ≠ 0 :=
      fun hthree hzero => hspare (by simpa [hzero] using hpad.mp hthree)
    simp only [decodeLoop, reverseLookup_char hu, reverseLookup_char hv, reverseLookup_char hw,
      lookup_of_notMem hd hdigit, bind_eq_bind, bind_some, ne_of_lt_64 hu,
      ne_of_lt_64 hv, ne_of_lt_64 hw, or_self_iff, if_false, if_true, ne_eq, Nat.add_left_cancel_iff,
      ite_eq_left_iff, not_not]
    intro hthree
    exact fun hzero => absurd hzero (hclash hthree)
  | @later a b c d rest ha hb hc hd h ih =>
    have hrest : 4 ∣ rest.length := by
      simp only [length_cons] at hlength
      omega
    have hfour : 4 ≤ rest.length := by
      cases h <;> exact Nat.le_add_left 4 _
    obtain ⟨u, hu, rfl⟩ := exists_char_of_mem ha
    obtain ⟨v, hv, rfl⟩ := exists_char_of_mem hb
    obtain ⟨w, hw, rfl⟩ := exists_char_of_mem hc
    obtain ⟨x, hx, rfl⟩ := exists_char_of_mem hd
    rw [decodeLoop_digits hu hv hw hx, firstPaddingIndex_cons _ _ _ _ (by omega), ← Nat.add_assoc]
    exact ih hrest

theorem decode_encoded (bytes : Bytes) : decode (encode bytes) = some bytes := by
  by_cases hbytes : bytes = []
  · subst hbytes
    rfl
  · have hfour := Nat.mod_eq_zero_of_dvd (four_dvd_length_encode bytes)
    have hne : encode bytes ≠ [] := by
      rw [encode_eq]
      exact fun h => hbytes ((base64_eq_nil_iff _ _).mp h)
    have hloop := decodeLoop_base64 0 [] bytes
    rw [Nat.zero_add, nil_append, ← encode_eq] at hloop
    rw [decode, if_neg fun h => h.elim (fun h => h hfour) hne, hloop]

theorem decode_eq_nil_iff {input : Bytes} (hlength : 4 ∣ input.length) (hne : input ≠ []) :
    decode input = some [] ↔ Rejected input := by
  have hfour := Nat.mod_eq_zero_of_dvd hlength
  have hdecode : decode input = decodeLoop (0 + firstPaddingIndex input) 0 [] input := by
    rw [Nat.zero_add, decode, if_neg fun h => h.elim (fun h => h hfour) hne]
  rw [hdecode]
  refine ⟨fun h => ?_, decodeLoop_rejected hlength⟩
  obtain ⟨bytes, rfl, hnil⟩ | ⟨hrejected, -⟩ := decodeLoop_some hlength h
  · rw [nil_append] at hnil
    subst hnil
    exact absurd rfl hne
  · exact hrejected

theorem encode_of_decode {input out : Bytes} (h : decode input = some out) (hout : out ≠ []) :
    input = encode out := by
  rw [decode] at h
  split at h
  · cases h
    exact absurd rfl hout
  · rename_i hinput
    obtain ⟨hfour, -⟩ := not_or.mp hinput
    have hlength := Nat.dvd_of_mod_eq_zero (not_not.mp hfour)
    rw [← Nat.zero_add (firstPaddingIndex input)] at h
    obtain ⟨bytes, hinput, rfl⟩ | ⟨-, rfl⟩ := decodeLoop_some hlength h
    · rw [hinput, encode_eq]
    · exact absurd rfl hout

end Meliproxy.Envoy.Base64
