import Meliproxy.Envoy.Common.StringUtil

/-!
# Decimal texts

What `atoul` makes of the number that a text denotes in base 10: a negative one is taken modulo
`2 ^ 64`, as `strtoul` does.
-/

namespace Meliproxy.Envoy.StringUtil

open Lib List Bool

def isDecimal (c : UInt8) : Bool := 48 ≤ c && c ≤ 57

def signOf : Bytes → Bool × Bytes
  | 45 :: text => (true, text)
  | 43 :: text => (false, text)
  | text => (false, text)

def decimalValue (text : Bytes) : Option Int :=
  let (negative, digits) := signOf (text.dropWhile isSpace)
  if digits ≠ [] ∧ digits.all isDecimal then
    some (if negative then -readDecimal digits 0 else readDecimal digits 0)
  else none

/-- The number is in the range of `atoul`, and not the one that an old `errno` spoils. -/
def TakesValue (errno : Bool) (value : Int) : Prop :=
  value.natAbs ≤ ulongMax ∧ ¬(value % (ulongMax + 1) = ulongMax ∧ errno = true)

instance (errno : Bool) (value : Int) : Decidable (TakesValue errno value) :=
  inferInstanceAs (Decidable (_ ∧ ¬(_ ∧ _)))

theorem digitOf_ten (c : UInt8) :
    digitOf 10 c = if isDecimal c then some (c.toNat - 48) else none := by
  have hnat (a b : UInt8) : (a ≤ b) ↔ a.toNat ≤ b.toNat := UInt8.le_iff_toNat_le
  simp only [digitOf, isDecimal, hnat, and_eq_true, decide_eq_true_eq]
  change (if (if 48 ≤ c.toNat ∧ c.toNat ≤ 57 then c.toNat - 48
    else if 97 ≤ c.toNat ∧ c.toNat ≤ 122 then c.toNat - 87
    else if 65 ≤ c.toNat ∧ c.toNat ≤ 90 then c.toNat - 55 else 10) < 10 then _ else none) =
      if 48 ≤ c.toNat ∧ c.toNat ≤ 57 then _ else none
  by_cases hc : 48 ≤ c.toNat ∧ c.toNat ≤ 57
  · simp only [if_pos hc]
    rw [if_pos (by omega)]
    exact congrArg some (if_pos hc)
  · simp only [if_neg hc]
    rw [if_neg]
    split
    · omega
    split <;> omega

theorem foldl_digits (text : Bytes) (value : Nat) (h : text.all isDecimal = true) :
    (text.filterMap (digitOf 10)).foldl (fun value digit => value * 10 + digit) value =
      readDecimal text value := by
  induction text generalizing value with
  | nil => rfl
  | cons c text ih =>
    rw [all_cons, and_eq_true] at h
    rw [filterMap_cons, digitOf_ten, if_pos h.1, foldl_cons, ih _ h.2, Nat.mul_comm value]
    rfl

theorem isSome_digitOf : (fun c => (digitOf 10 c).isSome) = isDecimal := by
  funext c
  rw [digitOf_ten]
  split
  · rename_i h
    exact h.symm
  · rename_i h
    exact (eq_false_iff.mpr h).symm

/-- What is left after a `0x`, in base 16 only. -/
def afterPrefix (base : Nat) (text : Bytes) : Bytes :=
  match text with
  | 48 :: x :: c :: rest =>
    if base = 16 ∧ (x = 120 ∨ x = 88) ∧ (digitOf base c).isSome then c :: rest else text
  | text => text

theorem afterPrefix_ten (text : Bytes) : afterPrefix 10 text = text := by
  unfold afterPrefix
  split
  · rw [if_neg (by omega)]
  · rfl

theorem strtoul_eq {base : Nat} {str text : Bytes}
    (h : afterPrefix base (signOf (str.dropWhile isSpace)).2 = text) : strtoul str base =
      let digits := (text.takeWhile fun c => (digitOf base c).isSome).filterMap (digitOf base)
      let rest := text.dropWhile fun c => (digitOf base c).isSome
      let value := digits.foldl (fun value digit => value * base + digit) 0
      if digits = [] then (0, str, false)
      else if ulongMax < value then (ulongMax, rest, true)
      else (if (signOf (str.dropWhile isSpace)).1 then (ulongMax + 1 - value) % (ulongMax + 1)
        else value, rest, false) := by
  subst h
  rfl

theorem strtoul_ten (str text : Bytes) (negative : Bool)
    (h : signOf (str.dropWhile isSpace) = (negative, text)) : strtoul str 10 =
      let value := readDecimal (text.takeWhile isDecimal) 0
      let rest := text.dropWhile isDecimal
      if text.takeWhile isDecimal = [] then (0, str, false)
      else if ulongMax < value then (ulongMax, rest, true)
      else (if negative then (ulongMax + 1 - value) % (ulongMax + 1) else value, rest, false) := by
  have hdigits : ((text.takeWhile isDecimal).filterMap (digitOf 10) = []) ↔
      text.takeWhile isDecimal = [] := by
    cases hfirst : text.takeWhile isDecimal with
    | nil => exact iff_of_true rfl rfl
    | cons c rest =>
      have hall := all_takeWhile (p := isDecimal) (l := text)
      rw [hfirst, all_cons, and_eq_true] at hall
      rw [filterMap_cons, digitOf_ten, if_pos hall.1]
      exact iff_of_false (cons_ne_nil _ _) (cons_ne_nil _ _)
  rw [strtoul_eq (afterPrefix_ten _), h]
  simp only [isSome_digitOf, foldl_digits _ _ all_takeWhile, hdigits]

variable {text : Bytes}

theorem takeWhile_of_all (h : text.all isDecimal = true) :
    text.takeWhile isDecimal = text ∧ text.dropWhile isDecimal = [] := by
  have hall := all_eq_true.mp h
  exact ⟨takeWhile_eq_self_iff.mpr hall, dropWhile_eq_nil_iff.mpr hall⟩

theorem atoul_ten (errno : Bool) (str : Bytes) :
    atoul errno str 10 = (decimalValue (cStr str)).bind fun value =>
      if TakesValue errno value then some (value % (ulongMax + 1)).toNat else none := by
  rw [atoul]
  split
  · rename_i hempty
    rw [hempty]
    rfl
  rename_i hne
  obtain ⟨⟨negative, text⟩, hsign⟩ : ∃ signed, signOf ((cStr str).dropWhile isSpace) = signed :=
    ⟨_, rfl⟩
  rw [strtoul_ten _ _ _ hsign, decimalValue, hsign]
  by_cases hdecimal : text ≠ [] ∧ text.all isDecimal = true
  · obtain ⟨htake, hdrop⟩ := takeWhile_of_all hdecimal.2
    simp only [htake, hdrop, if_pos hdecimal, if_neg hdecimal.1, Option.bind_some]
    generalize readDecimal text 0 = value
    by_cases hrange : ulongMax < value
    · have hnot : ¬TakesValue errno (if negative = true then -(value : Int) else value) := by
        rintro ⟨hle, -⟩
        split at hle <;> omega
      rw [if_pos hrange, if_neg hnot]
      exact if_pos (.inr ⟨rfl, .inl rfl⟩)
    · have hmodulo : ((if negative = true then -(value : Int) else value) % (ulongMax + 1)) =
          ((if negative = true then (ulongMax + 1 - value) % (ulongMax + 1) else value : Nat) :
            Int) := by
        unfold ulongMax at hrange ⊢
        split <;> omega
      have habs : (if negative = true then -(value : Int) else value).natAbs ≤ ulongMax := by
        split <;> omega
      rw [if_neg hrange, hmodulo, Int.toNat_natCast]
      generalize (if negative = true then (ulongMax + 1 - value) % (ulongMax + 1) else value) = out
        at hmodulo
      have hiff : TakesValue errno (if negative = true then -(value : Int) else value) ↔
          ¬(out = ulongMax ∧ errno = true) := by
        rw [TakesValue, hmodulo, and_iff_right habs, Int.natCast_inj]
      by_cases hspoiled : out = ulongMax ∧ errno = true
      · rw [if_neg fun h => hiff.mp h hspoiled]
        exact if_pos (.inr ⟨hspoiled.1, .inr hspoiled.2⟩)
      · rw [if_pos (hiff.mpr hspoiled)]
        apply if_neg
        rintro (hrest | ⟨hmax, hbad | herrno⟩)
        · exact hrest rfl
        · cases hbad
        · exact hspoiled ⟨hmax, herrno⟩
  · simp only [if_neg hdecimal, Option.bind_none]
    by_cases htake : text.takeWhile isDecimal = []
    · rw [if_pos htake]
      exact if_pos (.inl hne)
    · have hrest : text.dropWhile isDecimal ≠ [] := by
        intro hdrop
        apply hdecimal
        refine ⟨?_, all_eq_true.mpr (dropWhile_eq_nil_iff.mp hdrop)⟩
        rintro rfl
        exact htake rfl
      rw [if_neg htake]
      split
      · exact if_pos (.inl hrest)
      · exact if_pos (.inl hrest)

theorem numeral_of_digits (h : text.all isDecimal = true) (hne : text ≠ []) :
    signOf ((cStr text).dropWhile isSpace) = (false, text) := by
  have hall := all_eq_true.mp h
  have hzero : 0 ∉ text := by
    intro hmem
    exact absurd (hall 0 hmem) (by decide)
  rw [cStr_eq_self hzero]
  cases text with
  | nil => exact absurd rfl hne
  | cons c text =>
    have hc : isDecimal c = true := hall c mem_cons_self
    have hspace : isSpace c = false := by
      rw [isDecimal, and_eq_true, decide_eq_true_eq, decide_eq_true_eq] at hc
      grind [isSpace]
    have h45 : c ≠ 45 := fun heq => absurd (heq ▸ hc) (by decide)
    have h43 : c ≠ 43 := fun heq => absurd (heq ▸ hc) (by decide)
    rw [dropWhile_cons_of_neg (by simp [hspace])]
    unfold signOf
    split
    · rename_i heq
      exact absurd (List.cons.inj heq).1 h45
    · rename_i heq
      exact absurd (List.cons.inj heq).1 h43
    · rfl

theorem decimalValue_of_digits (h : text.all isDecimal = true) (hne : text ≠ []) :
    decimalValue (cStr text) = some (readDecimal text 0 : Int) := by
  rw [decimalValue, numeral_of_digits h hne]
  exact if_pos ⟨hne, h⟩

theorem eq_readDecimal_of_atoul {errno : Bool} {n : Nat}
    (h : text.all isDecimal = true) (hne : text ≠ []) (hatoul : atoul errno text 10 = some n) :
    n = readDecimal text 0 := by
  rw [atoul_ten, decimalValue_of_digits h hne, Option.bind_some] at hatoul
  obtain ⟨⟨hrange, -⟩, rfl⟩ := Option.ite_some_none_eq_some.mp hatoul
  rw [Int.natAbs_natCast] at hrange
  unfold ulongMax at hrange ⊢
  omega

theorem decimal_ne_nil (n : Nat) : decimal n ≠ [] := by
  intro h
  exact Nat.toDigits_ne_nil (map_eq_nil_iff.mp h)

theorem decimal_digit {c : UInt8} (h : isDecimal c = true) : decimal (c.toNat - 48) = [c] := by
  have hdigits : ∀ d < 10, decimal d = [(48 + d).toUInt8] := by decide
  rw [isDecimal, and_eq_true, decide_eq_true_eq, decide_eq_true_eq] at h
  have hlo := UInt8.le_iff_toNat_le.mp h.1
  have hhi := UInt8.le_iff_toNat_le.mp h.2
  have h48 : (48 : UInt8).toNat = 48 := rfl
  have h57 : (57 : UInt8).toNat = 57 := rfl
  have hsum : 48 + (c.toNat - 48) = c.toNat := by omega
  rw [hdigits _ (by omega), hsum]
  exact congrArg (fun b => [b]) (UInt8.ofNat_toNat)

theorem decimal_append {n d : Nat} (hn : 0 < n) (hd : d < 10) :
    decimal n ++ decimal d = decimal (10 * n + d) := by
  rw [decimal, decimal, decimal, ← map_append, Nat.toDigits_append_toDigits (by omega) hn hd]

theorem readDecimal_append (text rest : Bytes) (acc : Nat) :
    readDecimal (text ++ rest) acc = readDecimal rest (readDecimal text acc) := foldl_append

theorem readDecimal_zeros (zeros : Nat) : readDecimal (List.replicate zeros 48) 0 = 0 := by
  induction zeros with
  | zero => rfl
  | succ zeros ih =>
    rw [replicate_succ]
    exact ih

theorem all_isDecimal_decimal (n : Nat) : (decimal n).all isDecimal = true := by
  rw [all_eq_true]
  intro c hc
  obtain ⟨hlo, hhi⟩ := mem_decimal hc
  rw [isDecimal, and_eq_true, decide_eq_true_eq, decide_eq_true_eq]
  exact ⟨UInt8.le_iff_toNat_le.mpr hlo, UInt8.le_iff_toNat_le.mpr hhi⟩

theorem eq_zeros_append_decimal (hne : text ≠ []) (h : text.all isDecimal = true) :
    ∃ zeros, text = List.replicate zeros 48 ++ decimal (readDecimal text 0) := by
  induction text using List.reverseRecOn with
  | nil => exact absurd rfl hne
  | append_singleton text c ih =>
    rw [all_append, and_eq_true] at h
    have hc : isDecimal c = true := by simpa using h.2
    have hlt : c.toNat - 48 < 10 := by
      rw [isDecimal, and_eq_true, decide_eq_true_eq, decide_eq_true_eq] at hc
      have hhi := UInt8.le_iff_toNat_le.mp hc.2
      have h57 : (57 : UInt8).toNat = 57 := rfl
      omega
    have hread : readDecimal (text ++ [c]) 0 = 10 * readDecimal text 0 + (c.toNat - 48) :=
      readDecimal_append text [c] 0
    rw [hread]
    by_cases hzero : readDecimal text 0 = 0
    · -- only zeros so far
      rw [hzero, Nat.mul_zero, Nat.zero_add, decimal_digit hc]
      by_cases hnil : text = []
      · exact ⟨0, by rw [hnil]; rfl⟩
      · obtain ⟨zeros, htext⟩ := ih hnil h.1
        rw [hzero] at htext
        refine ⟨zeros + 1, ?_⟩
        rw [htext, replicate_succ']
        rfl
    · have hnil : text ≠ [] := by
        rintro rfl
        exact hzero rfl
      obtain ⟨zeros, htext⟩ := ih hnil h.1
      refine ⟨zeros, ?_⟩
      rw [← decimal_append (Nat.pos_of_ne_zero hzero) hlt, decimal_digit hc, ← append_assoc,
        ← htext]

end Meliproxy.Envoy.StringUtil
