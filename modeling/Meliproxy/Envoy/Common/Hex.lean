import Meliproxy.Lib.Base64
import Meliproxy.Envoy.Common.DecimalText

/-!
# The hexadecimal coder

`Hex::encode` and `Hex::decode` of `common/hex.cc`. The decoder has `strtoul` read two characters at
a time, which takes a blank or a sign for the first of them, and a NUL byte for the end.
-/

namespace Meliproxy.Envoy.Hex

open Lib List StringUtil Option

def digits : Bytes := ascii "0123456789abcdef"

def digit (d : UInt8) : UInt8 := digits.getD d.toNat 0

def encode (data : Bytes) : Bytes :=
  data.flatMap fun (d : UInt8) => [digit (d >>> 4), digit (d &&& 0xf)]

def invalid (hexString : Bytes) : Bytes := ascii "invalid hex string '" ++ hexString ++ ascii "'"

def decodeLoop (errno : Bool) (hexString : Bytes) : Bytes → Except Bytes Bytes
  | a :: b :: rest =>
    match atoul errno [a, b] 16 with
    | some out => (decodeLoop errno hexString rest).map (UInt8.ofNat out :: ·)
    | none => .error (invalid hexString)
  | _ => .ok []

/-- `errno` is what an earlier call left. -/
def decode (errno : Bool) (hexString : Bytes) : Except Bytes Bytes :=
  if hexString.length = 0 ∨ hexString.length % 2 ≠ 0 then .error (invalid hexString)
  else decodeLoop errno hexString hexString

def isHexDigit (c : UInt8) : Bool :=
  (48 ≤ c && c ≤ 57) || (97 ≤ c && c ≤ 102) || (65 ≤ c && c ≤ 70)

/-- What a digit is to `strtoul` and to the encoder. -/
structure Digit (c : UInt8) (value : Nat) : Prop where
  lookup : digitOf 16 c = some value
  lt : value < 16
  plain : isSpace c = false ∧ c ≠ 45 ∧ c ≠ 43 ∧ c ≠ 0
  lower : digits.getD value 0 = toLower c

theorem digit_or_not (c : UInt8) : (isHexDigit c = true ∧ ∃ value, Digit c value) ∨
    (isHexDigit c = false ∧ digitOf 16 c = none) := by
  have hall : ∀ n < 256, (isHexDigit (UInt8.ofNat n) = true ∧ ∃ value < 16,
      digitOf 16 (UInt8.ofNat n) = some value ∧ (isSpace (UInt8.ofNat n) = false ∧
        UInt8.ofNat n ≠ 45 ∧ UInt8.ofNat n ≠ 43 ∧ UInt8.ofNat n ≠ 0) ∧
      digits.getD value 0 = toLower (UInt8.ofNat n)) ∨
      (isHexDigit (UInt8.ofNat n) = false ∧ digitOf 16 (UInt8.ofNat n) = none) := by
    decide +kernel
  have hc := hall c.toNat c.toNat_lt
  rw [UInt8.ofNat_toNat] at hc
  rcases hc with ⟨hdigit, value, hlt, hlookup, hplain, hlower⟩ | hnot
  · exact .inl ⟨hdigit, value, hlookup, hlt, hplain, hlower⟩
  · exact .inr hnot

variable {c : UInt8}

theorem digit_of_isHexDigit (h : isHexDigit c = true) : ∃ value, Digit c value := by
  rcases digit_or_not c with ⟨-, hdigit⟩ | ⟨hnot, -⟩
  · exact hdigit
  · rw [h] at hnot
    cases hnot

theorem digitOf_of_not (h : isHexDigit c = false) : digitOf 16 c = none := by
  rcases digit_or_not c with ⟨hdigit, -⟩ | ⟨-, hnot⟩
  · rw [h] at hdigit
    cases hdigit
  · exact hnot

theorem isHexDigit_digit {d : UInt8} (h : d < 16) : Digit (digit d) d.toNat := by
  have hall : ∀ n < 16, digitOf 16 (digit (UInt8.ofNat n)) = some n := by decide +kernel
  have hd := hall d.toNat (UInt8.lt_iff_toNat_lt.mp h)
  rw [UInt8.ofNat_toNat] at hd
  rcases digit_or_not (digit d) with ⟨-, value, hdigit⟩ | ⟨-, hnot⟩
  · rw [Option.some.inj (hd.symm.trans hdigit.lookup)]
    exact hdigit
  · rw [hd] at hnot
    cases hnot

variable {rest : Bytes}

theorem signOf_plain (hminus : c ≠ 45) (hplus : c ≠ 43) :
    signOf (c :: rest) = (false, c :: rest) := by
  unfold signOf
  split
  · rename_i heq
    exact absurd (List.cons.inj heq).1 hminus
  · rename_i heq
    exact absurd (List.cons.inj heq).1 hplus
  · rfl

theorem length_signOf (text : Bytes) : (signOf text).2.length ≤ text.length := by
  unfold signOf
  split
  · exact Nat.le_succ _
  · exact Nat.le_succ _
  · exact Nat.le_refl _

theorem afterPrefix_short {text : Bytes} (h : text.length ≤ 2) : afterPrefix 16 text = text := by
  unfold afterPrefix
  split
  · simp only [length_cons] at h
    omega
  · rfl

def hexText (str : Bytes) : Bytes := (signOf (str.dropWhile isSpace)).2

variable {str : Bytes}

theorem strtoul_short (h : str.length ≤ 2) : strtoul str 16 =
      let digits := ((hexText str).takeWhile fun c => (digitOf 16 c).isSome).filterMap (digitOf 16)
      let rest := (hexText str).dropWhile fun c => (digitOf 16 c).isSome
      let value := digits.foldl (fun value digit => value * 16 + digit) 0
      if digits = [] then (0, str, false)
      else if ulongMax < value then (ulongMax, rest, true)
      else (if (signOf (str.dropWhile isSpace)).1 then (ulongMax + 1 - value) % (ulongMax + 1)
        else value, rest, false) := by
  have htext : (hexText str).length ≤ 2 := by
    have hdrop : (str.dropWhile isSpace).length ≤ str.length := length_dropWhile_le ..
    have hsign := length_signOf (str.dropWhile isSpace)
    rw [hexText]
    omega
  exact strtoul_eq (afterPrefix_short htext)

variable {a b : UInt8}

theorem atoul_digits (errno : Bool) {x y : Nat} (ha : Digit a x) (hb : Digit b y) :
    atoul errno [a, b] 16 = some (x * 16 + y) := by
  have hx := ha.lt
  have hy := hb.lt
  have hcstr : cStr [a, b] = [a, b] := by
    apply cStr_eq_self
    simp [Ne.symm ha.plain.2.2.2, Ne.symm hb.plain.2.2.2]
  have hsign : signOf ([a, b].dropWhile isSpace) = (false, [a, b]) := by
    rw [dropWhile_cons_of_neg (by simp [ha.plain.1])]
    exact signOf_plain ha.plain.2.1 ha.plain.2.2.1
  have hlarge : ¬ ulongMax < x * 16 + y := by
    rw [ulongMax]
    omega
  have hshort : [a, b].length ≤ 2 := Nat.le_refl 2
  have hvalue : strtoul [a, b] 16 = (x * 16 + y, [], false) := by
    rw [strtoul_short hshort, hexText, hsign]
    simp [ha.lookup, hb.lookup, hlarge]
  have hsmall : x * 16 + y ≠ ulongMax := by
    rw [ulongMax]
    omega
  rw [atoul, hcstr, if_neg (cons_ne_nil _ _), hvalue]
  simp [hsmall]

variable {errno : Bool}

theorem atoul_of_not (hshort : (cStr str).length ≤ 2)
    (h : ∀ c ∈ (hexText (cStr str)).head?, isHexDigit c = false) : atoul errno str 16 = none := by
  rw [atoul]
  split
  · rfl
  · rename_i hne
    have hdigits : (hexText (cStr str)).takeWhile (fun c => (digitOf 16 c).isSome) = [] := by
      cases htext : hexText (cStr str) with
      | nil => rfl
      | cons c rest =>
        rw [htext] at h
        rw [takeWhile_cons, digitOf_of_not (h c rfl)]
        rfl
    rw [strtoul_short hshort, hdigits]
    simp [hne]

/-- A blank or a sign in front of a digit, or a digit in front of a NUL byte. -/
def Slips (a b : UInt8) : Prop :=
  ((isSpace a = true ∨ a = 45 ∨ a = 43) ∧ isHexDigit b = true) ∨ (isHexDigit a = true ∧ b = 0)

theorem hexText_blank (h : isSpace a = true) : hexText (a :: rest) = hexText rest := by
  rw [hexText, dropWhile_cons_of_pos h, hexText]

theorem hexText_sign (h : a = 45 ∨ a = 43) : hexText (a :: rest) = rest := by
  rcases h with rfl | rfl <;> rfl

theorem hexText_plain (hblank : isSpace a = false) (hsign : ¬ (a = 45 ∨ a = 43)) :
    hexText (a :: rest) = a :: rest := by
  rw [not_or] at hsign
  rw [hexText, dropWhile_cons_of_neg (by simp [hblank]), signOf_plain hsign.1 hsign.2]

theorem head_hexText_singleton (h : c ∈ (hexText [a]).head?) : c = a := by
  by_cases hblank : isSpace a = true
  · rw [hexText_blank hblank] at h
    cases h
  · by_cases hsign : a = 45 ∨ a = 43
    · rw [hexText_sign hsign] at h
      cases h
    · rw [hexText_plain (Bool.eq_false_iff.mpr hblank) hsign] at h
      exact (mem_some.mp h).symm

theorem atoul_pair (errno : Bool) (hslips : ¬ Slips a b)
    (hnot : ¬ (isHexDigit a = true ∧ isHexDigit b = true)) : atoul errno [a, b] 16 = none := by
  rw [Slips, not_or, not_and, not_and] at hslips
  by_cases ha : a = 0
  · subst ha
    exact atoul_of_not (Nat.zero_le 2) nofun
  · by_cases hb : b = 0
    · subst hb
      have hnozero : (0 : UInt8) ∉ [a] := by
        simpa using Ne.symm ha
      have hcstr : cStr [a, 0] = [a] := cStr_append_zero hnozero []
      apply atoul_of_not
      · rw [hcstr]
        exact Nat.le_succ 1
      · rw [hcstr]
        intro c hc
        rw [head_hexText_singleton hc]
        exact Bool.eq_false_iff.mpr fun hdigit => hslips.2 hdigit rfl
    · have hcstr : cStr [a, b] = [a, b] := by
        apply cStr_eq_self
        simp [Ne.symm ha, Ne.symm hb]
      have hshort : (cStr [a, b]).length ≤ 2 := by
        rw [hcstr]
        exact Nat.le_refl 2
      by_cases hskipped : isSpace a = true ∨ a = 45 ∨ a = 43
      · have hsecond : isHexDigit b = false := Bool.eq_false_iff.mpr (hslips.1 hskipped)
        apply atoul_of_not hshort
        rw [hcstr]
        intro c hc
        rcases hskipped with hblank | hsign
        · rw [hexText_blank hblank] at hc
          rw [head_hexText_singleton hc]
          exact hsecond
        · rw [hexText_sign hsign] at hc
          rw [← mem_some.mp hc]
          exact hsecond
      · rw [not_or] at hskipped
        have htext : hexText [a, b] = [a, b] :=
          hexText_plain (Bool.eq_false_iff.mpr hskipped.1) hskipped.2
        cases hfirst : isHexDigit a with
        | false =>
          apply atoul_of_not hshort
          rw [hcstr, htext]
          intro c hc
          rw [← mem_some.mp hc]
          exact hfirst
        | true =>
          have hsecond : isHexDigit b = false := Bool.eq_false_iff.mpr fun h => hnot ⟨hfirst, h⟩
          obtain ⟨x, hx⟩ := digit_of_isHexDigit hfirst
          rw [hcstr] at hshort
          rw [atoul, hcstr, if_neg (cons_ne_nil _ _), strtoul_short hshort, htext]
          have hsmall : ¬ ulongMax < x := by
            have hlt := hx.lt
            rw [ulongMax]
            omega
          simp [hx.lookup, digitOf_of_not hsecond, hsmall]

/-- No pair of the string is one that `strtoul` takes without two digits. -/
def Plain : Bytes → Prop
  | a :: b :: rest => ¬ Slips a b ∧ Plain rest
  | _ => True

theorem encode_byte {x y : Nat} (ha : Digit a x) (hb : Digit b y) (out : Bytes) :
    encode (UInt8.ofNat (x * 16 + y) :: out) = toLower a :: toLower b :: encode out := by
  have hx := ha.lt
  have hy := hb.lt
  have hbyte : (UInt8.ofNat (x * 16 + y)).toNat = x * 16 + y := by
    rw [UInt8.toNat_ofNat', Nat.mod_eq_of_lt (by omega)]
  have hhigh : (UInt8.ofNat (x * 16 + y) >>> 4).toNat = x := by
    have hshift := toNat_shiftRight (UInt8.ofNat (x * 16 + y)) 4 (by decide)
    rw [hbyte] at hshift
    exact hshift.trans (by omega)
  have hlow : (UInt8.ofNat (x * 16 + y) &&& 0xf).toNat = y := by
    have hmask := toNat_and_mask (UInt8.ofNat (x * 16 + y)) 4 (by decide)
    rw [hbyte] at hmask
    exact hmask.trans (by omega)
  rw [encode, flatMap_cons, digit, digit, hhigh, hlow, ha.lower, hb.lower]
  rfl

theorem decodeLoop_hex (errno : Bool) (hexString : Bytes) {s : Bytes} (heven : s.length % 2 = 0)
    (hhex : s.all isHexDigit = true) :
    ∃ out, decodeLoop errno hexString s = .ok out ∧ encode out = s.map toLower := by
  match s with
  | [] => exact ⟨[], rfl, rfl⟩
  | [_] => cases heven
  | a :: b :: rest =>
    rw [all_cons, all_cons, Bool.and_eq_true, Bool.and_eq_true] at hhex
    obtain ⟨x, hx⟩ := digit_of_isHexDigit hhex.1
    obtain ⟨y, hy⟩ := digit_of_isHexDigit hhex.2.1
    have hrest : rest.length % 2 = 0 := by
      simp only [length_cons] at heven
      omega
    obtain ⟨out, hout, hlower⟩ := decodeLoop_hex errno hexString hrest hhex.2.2
    refine ⟨UInt8.ofNat (x * 16 + y) :: out, ?_, ?_⟩
    · rw [decodeLoop, atoul_digits errno hx hy, hout]
      rfl
    · rw [encode_byte hx hy, hlower, map_cons, map_cons]

theorem decodeLoop_not_hex {hexString s : Bytes} (heven : s.length % 2 = 0) (hplain : Plain s)
    (hhex : s.all isHexDigit = false) :
    decodeLoop errno hexString s = .error (invalid hexString) := by
  match s with
  | [] => cases hhex
  | [_] => cases heven
  | a :: b :: rest =>
    rw [decodeLoop]
    by_cases hpair : isHexDigit a = true ∧ isHexDigit b = true
    · obtain ⟨x, hx⟩ := digit_of_isHexDigit hpair.1
      obtain ⟨y, hy⟩ := digit_of_isHexDigit hpair.2
      have hrest : rest.length % 2 = 0 := by
        simp only [length_cons] at heven
        omega
      rw [all_cons, all_cons, hpair.1, hpair.2, Bool.true_and, Bool.true_and] at hhex
      rw [atoul_digits errno hx hy, decodeLoop_not_hex hrest hplain.2 hhex]
      rfl
    · rw [atoul_pair errno hplain.1 hpair]

theorem decodeLoop_encode (errno : Bool) (hexString v : Bytes) :
    decodeLoop errno hexString (encode v) = .ok v := by
  induction v with
  | nil => rfl
  | cons d v ih =>
    have hd := d.toNat_lt
    have hshift : (d >>> 4).toNat = d.toNat / 16 := toNat_shiftRight d 4 (by decide)
    have hmask : (d &&& 0xf).toNat = d.toNat % 16 := toNat_and_mask d 4 (by decide)
    have hhigh : Digit (digit (d >>> 4)) (d.toNat / 16) := by
      rw [← hshift]
      apply isHexDigit_digit
      rw [UInt8.lt_iff_toNat_lt, hshift]
      change _ < 16
      omega
    have hlow : Digit (digit (d &&& 0xf)) (d.toNat % 16) := by
      rw [← hmask]
      apply isHexDigit_digit
      rw [UInt8.lt_iff_toNat_lt, hmask]
      change _ < 16
      omega
    have hbyte : d.toNat / 16 * 16 + d.toNat % 16 = d.toNat := by omega
    rw [encode, flatMap_cons]
    change decodeLoop errno hexString (digit (d >>> 4) :: digit (d &&& 0xf) :: encode v) = _
    rw [decodeLoop, atoul_digits errno hhigh hlow, ih, hbyte]
    change Except.ok (UInt8.ofNat d.toNat :: v) = _
    rw [UInt8.ofNat_toNat]

theorem length_encode (v : Bytes) : (encode v).length = v.length * 2 := by
  induction v with
  | nil => rfl
  | cons d v ih =>
    simp only [encode, flatMap_cons, length_append, length_cons, length_nil] at ih ⊢
    omega

/-- Decoding is inverse to encoding, for non-empty strings. Of the strings in which no digit stands
beside a blank, a sign or a NUL byte it accepts those of digits, and these are encoded in lower
case. -/
theorem decode_hex (errno : Bool) (v s : Bytes) : (v ≠ [] → decode errno (encode v) = .ok v) ∧
    (Plain s → ((∃ out, decode errno s = .ok out ∧ out ≠ []) ↔
      s ≠ [] ∧ s.length % 2 = 0 ∧ s.all isHexDigit = true)) ∧
    (s ≠ [] → s.length % 2 = 0 → s.all isHexDigit = true →
      ∃ out, decode errno s = .ok out ∧ out ≠ [] ∧ encode out = s.map toLower) := by
  have hread {s : Bytes} (hne : s ≠ []) (heven : s.length % 2 = 0) :
      decode errno s = decodeLoop errno s s := by
    rw [decode, if_neg (by simp [hne, heven])]
  have haccepts {s : Bytes} (hne : s ≠ []) (heven : s.length % 2 = 0)
      (hhex : s.all isHexDigit = true) :
      ∃ out, decode errno s = .ok out ∧ out ≠ [] ∧ encode out = s.map toLower := by
    obtain ⟨out, hout, hlower⟩ := decodeLoop_hex errno s heven hhex
    refine ⟨out, (hread hne heven).trans hout, ?_, hlower⟩
    rintro rfl
    exact hne (map_eq_nil_iff.mp hlower.symm)
  refine ⟨?_, ?_, haccepts⟩
  · intro hv
    have hne : encode v ≠ [] := by
      intro hnil
      have hlength := length_encode v
      rw [hnil, length_nil] at hlength
      exact hv (length_eq_zero_iff.mp (by omega))
    have heven : (encode v).length % 2 = 0 := by
      rw [length_encode]
      omega
    rw [hread hne heven, decodeLoop_encode]
  · intro hplain
    constructor
    · rintro ⟨out, hout, -⟩
      rw [decode] at hout
      split at hout
      · cases hout
      · rename_i hguard
        rw [not_or, not_not] at hguard
        refine ⟨fun hnil => hguard.1 (congrArg List.length hnil), hguard.2, ?_⟩
        by_contra hhex
        rw [decodeLoop_not_hex hguard.2 hplain (Bool.eq_false_iff.mpr hhex)] at hout
        cases hout
    · rintro ⟨hne, heven, hhex⟩
      obtain ⟨out, hout, hnonempty, -⟩ := haccepts hne heven hhex
      exact ⟨out, hout, hnonempty⟩

/-- The empty string is rejected, and a blank before a digit is not. -/
theorem decode_exceptions : decode false (encode []) = .error (invalid []) ∧
    decode false (ascii " 1") = .ok [1] := by
  constructor <;> rfl

end Meliproxy.Envoy.Hex
