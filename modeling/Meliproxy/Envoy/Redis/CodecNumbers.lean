import Meliproxy.Envoy.Redis.CodecRoundTrip
import Mathlib

/-!
# The numbers of a stream

A number is the line after a type byte: an optional minus and digits. `written` reads the
line with unbounded integers, and `meaning` says what the value of this type has to make
of it. The decoder accumulates the digits in 64 bits and checks neither their range nor
that there are any, so it agrees with `meaning` exactly on the `Regular` lines.
-/

namespace Meliproxy.Envoy.Redis

open Lib List

def IsDigit (c : UInt8) : Prop := 48 ≤ c.toNat ∧ c.toNat ≤ 57

instance (c : UInt8) : Decidable (IsDigit c) := inferInstanceAs (Decidable (_ ∧ _))

def hasMinus (line : Bytes) : Bool := line.head? = some 45

def lineDigits (line : Bytes) : Bytes := if hasMinus line then line.tail else line

/-- The number a line writes: an optional minus, and at least one digit. -/
def written (line : Bytes) : Option Int :=
  if lineDigits line ≠ [] ∧ ∀ c ∈ lineDigits line, IsDigit c then
    some (if hasMinus line then -(readDecimal (lineDigits line) 0 : Int)
      else readDecimal (lineDigits line) 0)
  else none

inductive Meaning where
  | null
  | number (n : Int)

/-- The numbers that stand for null in the place of a length. -/
inductive NullLength where
  | minusOne | negative

def NullLength.Allows : NullLength → Int → Prop
  | .minusOne, n => n = -1
  | .negative, n => n < 0

instance (n : Int) : (nulls : NullLength) → Decidable (nulls.Allows n)
  | .minusOne => inferInstanceAs (Decidable (_ = _))
  | .negative => inferInstanceAs (Decidable (_ < _))

def InInt64 (n : Int) : Prop := -2 ^ 63 ≤ n ∧ n < 2 ^ 63

def InUInt64 (n : Int) : Prop := 0 ≤ n ∧ n < 2 ^ 64

instance (n : Int) : Decidable (InInt64 n) := inferInstanceAs (Decidable (_ ∧ _))
instance (n : Int) : Decidable (InUInt64 n) := inferInstanceAs (Decidable (_ ∧ _))

variable (nulls : NullLength)

/-- What a line means for a value of a type, and `none` when it has to be rejected. -/
def meaning (value : RespValue) (line : Bytes) : Option Meaning :=
  (written line).bind fun n =>
    match value with
    | .integer _ => if InInt64 n then some (.number n) else none
    | _ =>
      if InUInt64 n then some (.number n) else if nulls.Allows n then some .null else none

def afterLine (d : Decoder) (line : Bytes) : Except DecodeError Decoder := do
  let d ← (parseSlice d (line ++ [13])).result
  match turn d [10] with
  | none => .ok d
  | some r => do
    let t ← r
    .ok t.decoder

def Decoder.acts (d : Decoder) : Option Meaning :=
  match d.state, d.stack with
  | .valueComplete, ⟨.integer i, _⟩ :: _ => some (.number i.toInt)
  | .valueComplete, ⟨.null, _⟩ :: _ => some .null
  | .valueComplete, ⟨.array values, _⟩ :: _ => some (.number values.length)
  | .valueStart, _ :: ⟨.array values, _⟩ :: _ => some (.number values.length)
  | .bulkStringBody, _ => some (.number d.pendingInteger.integer.toNat)
  | _, _ => none

/-- The line is taken for what it means, and rejected with a `ProtocolError` when it means
nothing. -/
def ReadsRight (value : RespValue) (d : Decoder) (line : Bytes) : Prop :=
  match meaning nulls value line with
  | some m => ∃ d', afterLine d line = .ok d' ∧ d'.acts = some m
  | none => ∃ text, afterLine d line = .error (.protocolError text)

/-- Another byte than a digit, or a number in the range of the type. A length with a minus
has to be one that stands for null. -/
def Regular (value : RespValue) (line : Bytes) : Prop :=
  (∃ c ∈ lineDigits line, ¬ IsDigit c) ∨ ∃ n, written line = some n ∧
    match value with
    | .integer _ => InInt64 n
    | _ => InUInt64 n ∧ hasMinus line = false ∨ nulls.Allows n

theorem toNat_digit_bounds {c : UInt8} : (c < 48 ∨ 57 < c) ↔ ¬ IsDigit c := by
  rw [UInt8.lt_iff_toNat_lt, UInt8.lt_iff_toNat_lt, IsDigit]
  simp only [UInt8.reduceToNat]
  omega

variable (p : PendingInteger) (stack : List PendingValue) (current : PendingValue)
  (rest : List PendingValue)

theorem parseSlice_minus (tail : Bytes) : parseSlice ⟨.integerStart, p, stack⟩ (45 :: tail) =
      parseSlice ⟨.integer, { p with negative := true }, stack⟩ tail := by
  apply parseSlice_read (by simp)
  simp [readByte]

theorem parseSlice_lineDigits (line tail : Bytes) (c : UInt8) :
    parseSlice ⟨.integerStart, ⟨0, false⟩, stack⟩ (line ++ c :: tail) =
      if c = 45 ∧ line = [] then parseSlice ⟨.integer, ⟨0, true⟩, stack⟩ tail
      else parseSlice ⟨.integer, ⟨0, hasMinus line⟩, stack⟩ (lineDigits line ++ c :: tail) := by
  cases line with
  | nil =>
    by_cases hc : c = 45
    · rw [if_pos ⟨hc, rfl⟩, nil_append, hc]
      exact parseSlice_minus _ _ _
    · rw [if_neg (by simp [hc])]
      apply parseSlice_read (by simp)
      simp only [readByte, if_neg hc]
      rfl
  | cons b line =>
    rw [if_neg (by simp)]
    by_cases hb : b = 45
    · subst hb
      exact parseSlice_minus _ _ _
    · have hminus : hasMinus (b :: line) = false := by simp [hasMinus, hb]
      rw [lineDigits, hminus]
      apply parseSlice_read (by simp)
      simp only [readByte, if_neg hb]
      rfl

theorem parseSlice_badDigit (digits tail : Bytes) (hcr : 13 ∉ digits)
    (hbad : ∃ c ∈ digits, ¬ IsDigit c) : (parseSlice ⟨.integer, p, stack⟩ (digits ++ tail)).result =
      .error (.protocolError (ascii "invalid integer character")) := by
  induction digits generalizing p with
  | nil =>
    obtain ⟨c, hc, -⟩ := hbad
    cases hc
  | cons c digits ih =>
    have hne : c ≠ 13 := fun h => hcr (by rw [h]; exact mem_cons_self)
    by_cases hc : IsDigit c
    · have hrest : ∃ c ∈ digits, ¬ IsDigit c := by
        obtain ⟨b, hb, hbad⟩ := hbad
        rcases mem_cons.mp hb with rfl | hb
        · exact absurd hc hbad
        · exact ⟨b, hb, hbad⟩
      have hread : readByte ⟨.integer, p, stack⟩ c (digits ++ tail) =
          .ok ⟨⟨.integer, { p with integer := p.integer * 10 + (c - 48).toUInt64 }, stack⟩,
            digits ++ tail, []⟩ := by
        simp only [readByte, if_neg hne, if_neg (mt toNat_digit_bounds.mp (not_not_intro hc))]
      rw [cons_append, parseSlice_read (by simp) hread]
      exact ih _ (fun h => hcr (mem_cons_of_mem c h)) hrest
    · have hread : turn ⟨.integer, p, stack⟩ (c :: (digits ++ tail)) =
          some (.error (.protocolError (ascii "invalid integer character"))) := by
        rw [turn_reading (by simp)]
        simp only [readByte, if_neg hne, if_pos (toNat_digit_bounds.mpr hc)]
      rw [cons_append, parseSlice_of_error hread]

theorem parseSlice_cr :
    parseSlice ⟨.integer, p, stack⟩ [13] = ⟨[], .ok ⟨.integerLF, p, stack⟩⟩ := by
  have hread : readByte ⟨.integer, p, stack⟩ 13 [] = .ok ⟨⟨.integerLF, p, stack⟩, [], []⟩ := by
    simp [readByte]
  rw [parseSlice_read (by simp) hread, parseSlice_of_none (turn_nil (by simp))]

/-- A whole line: an exception, or the type decides over the digits modulo 2 to the 64. -/
theorem afterLine_eq (line : Bytes) (hcr : 13 ∉ line) :
    afterLine ⟨.integerStart, ⟨0, false⟩, current :: rest⟩ line =
      if ∃ c ∈ lineDigits line, ¬ IsDigit c then
        .error (.protocolError (ascii "invalid integer character"))
      else integerDone ⟨UInt64.ofNat (readDecimal (lineDigits line) 0), hasMinus line⟩ current rest := by
  have hstart := parseSlice_lineDigits (current :: rest) line [] 13
  rw [if_neg (by simp)] at hstart
  have hcr' : 13 ∉ lineDigits line := by
    unfold lineDigits
    split
    · exact fun h => hcr (mem_of_mem_tail h)
    · exact hcr
  unfold afterLine
  rw [hstart]
  split
  · rename_i hbad
    rw [parseSlice_badDigit _ _ _ _ hcr' hbad]
    rfl
  · rename_i hbad
    have hall : ∀ c ∈ lineDigits line, 48 ≤ c.toNat ∧ c.toNat ≤ 57 := by
      intro c hc
      by_contra h
      exact hbad ⟨c, hc, h⟩
    have hdigits := parseSlice_digits (hasMinus line) (current :: rest) _ hall 0 [13]
    have hzero : (UInt64.ofNat 0) = 0 := rfl
    rw [hzero] at hdigits
    rw [hdigits, parseSlice_cr]
    simp only [bind, Except.bind, turn, readByte, reduceCtorEq, if_false, ne_eq, not_true_eq_false]
    cases integerDone ⟨UInt64.ofNat (readDecimal (lineDigits line) 0), hasMinus line⟩ current rest with
    | error | ok => rfl

theorem toInt64_bounds (i : Int64) : InInt64 i.toInt := ⟨i.le_toInt, i.toInt_lt⟩

variable {n : Nat}

theorem toNat_ofNat_lt (h : n < 2 ^ 64) : (UInt64.ofNat n).toNat = n := by
  rw [UInt64.toNat_ofNat', Nat.mod_eq_of_lt h]

theorem toInt_positive (h : n < 2 ^ 63) :
    (PendingInteger.mk (UInt64.ofNat n) false).toInt64.toInt = n := by
  simp only [PendingInteger.toInt64, or_true, if_true]
  rw [UInt64.toInt64_ofNat', Int64.toInt_ofNat_of_lt h]

theorem toInt_negative (h : n ≤ 2 ^ 63) :
    (PendingInteger.mk (UInt64.ofNat n) true).toInt64.toInt = -n := by
  by_cases hzero : n = 0
  · subst hzero
    rfl
  · have hne : UInt64.ofNat n ≠ 0 := by
      intro h0
      have h0' := congrArg UInt64.toNat h0
      rw [toNat_ofNat_lt (by omega)] at h0'
      exact hzero h0'
    have hsub : UInt64.ofNat n - 1 = UInt64.ofNat (n - 1) := by
      rw [UInt64.ofNat_sub (by omega)]
      rfl
    have hprev : (UInt64.ofNat (n - 1)).toInt64.toInt = (n - 1 : Nat) := by
      rw [UInt64.toInt64_ofNat', Int64.toInt_ofNat_of_lt (by omega)]
    have hmul : ((n - 1 : Nat) * (-1 : Int)).bmod (2 ^ 64) = -(n - 1 : Nat) := by
      rw [Int.bmod_eq_of_le] <;> omega
    have hone : (1 : Int64).toInt = 1 := by decide
    have hminus : (-1 : Int64).toInt = -1 := by decide
    simp only [PendingInteger.toInt64, hne, Bool.true_eq_false, or_self, if_false, hsub]
    rw [Int64.toInt_sub, Int64.toInt_mul, hprev, hone, hminus, hmul, Int.bmod_eq_of_le] <;> omega

theorem toInt_eq_iff (n : Nat) (negative : Bool) :
    (PendingInteger.mk (UInt64.ofNat n) negative).toInt64.toInt =
      (if negative then -(n : Int) else n) ↔ InInt64 (if negative then -(n : Int) else n) := by
  constructor
  · intro h
    rw [← h]
    exact toInt64_bounds _
  · rintro ⟨hlow, hhigh⟩
    cases negative with
    | true =>
      simp only [if_true] at hlow ⊢
      exact toInt_negative (by omega)
    | false =>
      simp only [Bool.false_eq_true, if_false] at hhigh ⊢
      exact toInt_positive (by omega)

variable {nulls : NullLength} {value : RespValue} {line : Bytes}

theorem readsRight_iff_meaning {d d' : Decoder} {m : Meaning} (h : afterLine d line = .ok d')
    (hacts : d'.acts = some m) :
    ReadsRight nulls value d line ↔ meaning nulls value line = some m := by
  unfold ReadsRight
  cases meaning nulls value line with
  | none =>
    constructor
    · rintro ⟨text, htext⟩
      rw [h] at htext
      cases htext
    · intro hnone
      cases hnone
  | some m' =>
    constructor
    · rintro ⟨e, he, hm'⟩
      rw [h] at he
      cases he
      rw [← hm', hacts]
    · intro hm'
      exact ⟨d', h, hacts.trans hm'.symm⟩

theorem regular_of_written {n : Int} (hbad : ¬ ∃ c ∈ lineDigits line, ¬ IsDigit c)
    (hwritten : written line = some n) : Regular nulls value line ↔ match value with
      | .integer _ => InInt64 n | _ => InUInt64 n ∧ hasMinus line = false ∨ nulls.Allows n := by
  constructor
  · rintro (h | ⟨m, hm, h⟩)
    · exact absurd h hbad
    · rw [hwritten] at hm
      cases hm
      exact h
  · exact fun h => .inr ⟨n, hwritten, h⟩

theorem integerDone_length (hcurrent : current.value = .array [] ∨ current.value = .bulkString []) :
    ∃ d, integerDone p current rest = .ok d ∧
      d.acts = some (if p.negative then .null else .number p.integer.toNat) := by
  obtain ⟨value, element⟩ := current
  rcases hcurrent with rfl | rfl
  · by_cases hnegative : p.negative = true
    · refine ⟨_, by simp only [integerDone, if_pos hnegative]; rfl, ?_⟩
      rw [if_pos hnegative]
      rfl
    · by_cases hzero : p.integer = 0
      · refine ⟨_, by simp only [integerDone, if_neg hnegative, if_pos hzero]; rfl, ?_⟩
        rw [if_neg hnegative, hzero]
        rfl
      · refine ⟨_, by simp only [integerDone, if_neg hnegative, if_neg hzero]; rfl, ?_⟩
        simp [if_neg hnegative, Decoder.acts]
  · by_cases hnegative : p.negative = true
    · refine ⟨_, by simp only [integerDone, if_pos hnegative]; rfl, ?_⟩
      rw [if_pos hnegative]
      rfl
    · refine ⟨_, by simp only [integerDone, if_neg hnegative]; rfl, ?_⟩
      rw [if_neg hnegative]
      rfl

theorem integer_iff (n : Nat) (negative : Bool) :
    (if InInt64 (if negative then -(n : Int) else n) then
        some (Meaning.number (if negative then -(n : Int) else n)) else none) =
      some (.number (PendingInteger.mk (UInt64.ofNat n) negative).toInt64.toInt) ↔
    InInt64 (if negative then -(n : Int) else n) := by
  constructor
  · intro h
    by_contra hrange
    rw [if_neg hrange] at h
    cases h
  · intro h
    rw [if_pos h, (toInt_eq_iff n negative).mpr h]

theorem length_iff (nulls : NullLength) (n : Nat) (negative : Bool) :
    (if InUInt64 (if negative then -(n : Int) else n) then
        some (Meaning.number (if negative then -(n : Int) else n))
      else if nulls.Allows (if negative then -(n : Int) else n) then some .null else none) =
      some (if negative then Meaning.null else .number (UInt64.ofNat n).toNat) ↔
    InUInt64 (if negative then -(n : Int) else n) ∧ negative = false ∨
      nulls.Allows (if negative then -(n : Int) else n) := by
  cases negative with
  | true =>
    simp only [if_true]
    by_cases hrange : InUInt64 (-(n : Int))
    · have hzero : ¬ nulls.Allows (-(n : Int)) := by
        have := hrange.1
        cases nulls <;> simp only [NullLength.Allows] <;> omega
      simp [hrange, hzero]
    · simp [hrange]
  | false =>
    have hnull : ¬ nulls.Allows (n : Int) := by
      cases nulls <;> simp only [NullLength.Allows] <;> omega
    simp only [Bool.false_eq_true, if_false, hnull, and_true, or_false]
    by_cases hrange : InUInt64 (n : Int)
    · have hfits : (UInt64.ofNat n).toNat = n := toNat_ofNat_lt (by have := hrange.2; omega)
      rw [if_pos hrange, hfits]
      exact iff_of_true rfl hrange
    · simp [hrange]

theorem integerDone_integer {i : Int64} (hcurrent : current.value = .integer i) :
    ∃ d, integerDone p current rest = .ok d ∧ d.acts = some (.number p.toInt64.toInt) := by
  obtain ⟨value, element⟩ := current
  obtain rfl : value = .integer i := hcurrent
  exact ⟨_, rfl, rfl⟩

theorem integerDone_acts (hcurrent : Holds ⟨0, false⟩ current.value .integerStart) :
    ∃ d m, integerDone p current rest = .ok d ∧ d.acts = some m := by
  rcases or_assoc.mpr hcurrent with hlength | ⟨i, hi⟩
  · obtain ⟨d, hd, hacts⟩ := integerDone_length p current rest hlength
    exact ⟨d, _, hd, hacts⟩
  · obtain ⟨d, hd, hacts⟩ := integerDone_integer p current rest hi
    exact ⟨d, _, hd, hacts⟩

/-- One line: it is read right exactly when it is regular. -/
theorem readsRight_iff (nulls : NullLength) (current : PendingValue) (rest : List PendingValue)
    (line : Bytes) (hcr : 13 ∉ line) (hcurrent : Holds ⟨0, false⟩ current.value .integerStart) :
    ReadsRight nulls current.value ⟨.integerStart, ⟨0, false⟩, current :: rest⟩ line ↔
      Regular nulls current.value line := by
  have hafter := afterLine_eq current rest line hcr
  by_cases hbad : ∃ c ∈ lineDigits line, ¬ IsDigit c
  · have hwritten : written line = none := by
      obtain ⟨c, hc, hdigit⟩ := hbad
      rw [written, if_neg (fun h => hdigit (h.2 c hc))]
    rw [if_pos hbad] at hafter
    constructor
    · exact fun _ => .inl hbad
    · intro _
      rw [ReadsRight, meaning, hwritten]
      exact ⟨_, hafter⟩
  · rw [if_neg hbad] at hafter
    have hdigits : ∀ c ∈ lineDigits line, IsDigit c := by
      intro c hc
      by_contra h
      exact hbad ⟨c, hc, h⟩
    by_cases hempty : lineDigits line = []
    · -- without a digit the decoder goes on with zero
      have hwritten : written line = none := by rw [written, if_neg (fun h => h.1 hempty)]
      obtain ⟨d, m, hd, hacts⟩ := integerDone_acts
        ⟨UInt64.ofNat (readDecimal (lineDigits line) 0), hasMinus line⟩ current rest hcurrent
      rw [readsRight_iff_meaning (hafter.trans hd) hacts, meaning, hwritten]
      constructor
      · intro h
        cases h
      · rintro (h | ⟨n, hn, -⟩)
        · exact absurd h hbad
        · rw [hwritten] at hn
          cases hn
    · have hwritten : written line = some (if hasMinus line then
          -(readDecimal (lineDigits line) 0 : Int) else readDecimal (lineDigits line) 0) := by
        rw [written, if_pos ⟨hempty, hdigits⟩]
      rw [regular_of_written hbad hwritten]
      obtain ⟨value, element⟩ := current
      rcases or_assoc.mpr hcurrent with hlength | ⟨i, hi⟩
      · obtain ⟨d, hd, hacts⟩ := integerDone_length
          ⟨UInt64.ofNat (readDecimal (lineDigits line) 0), hasMinus line⟩ _ rest hlength
        rw [readsRight_iff_meaning (hafter.trans hd) hacts, meaning, hwritten]
        rcases hlength with hvalue | hvalue
        · obtain rfl : value = .array [] := hvalue
          exact length_iff nulls _ (hasMinus line)
        · obtain rfl : value = .bulkString [] := hvalue
          exact length_iff nulls _ (hasMinus line)
      · obtain ⟨d, hd, hacts⟩ := integerDone_integer
          ⟨UInt64.ofNat (readDecimal (lineDigits line) 0), hasMinus line⟩ _ rest hi
        rw [readsRight_iff_meaning (hafter.trans hd) hacts, meaning, hwritten]
        obtain rfl : value = .integer i := hi
        exact integer_iff _ (hasMinus line)

mutual

def RespValue.integers : RespValue → List Int64
  | .integer i => [i]
  | .array values => integersOf values
  | _ => []

def integersOf : List RespValue → List Int64
  | [] => []
  | value :: values => value.integers ++ integersOf values

end

variable {values : List RespValue} {i : Int64}

theorem mem_integersOf : i ∈ integersOf values ↔ ∃ value ∈ values, i ∈ value.integers := by
  induction values with
  | nil => simp [integersOf]
  | cons value values ih => simp [integersOf, ih]

variable {value : RespValue}

theorem mem_integersOf_set {k : Nat} (h : i ∈ integersOf (values.set k value)) :
    i ∈ integersOf values ∨ i ∈ value.integers := by
  obtain ⟨v, hv, hi⟩ := mem_integersOf.mp h
  rcases mem_or_eq_of_mem_set hv with hv | rfl
  · exact .inl (mem_integersOf.mpr ⟨v, hv, hi⟩)
  · exact .inr hi

theorem integersOf_replicate (n : Nat) : integersOf (List.replicate n .null) = [] := by
  induction n with
  | zero => rfl
  | succ n ih => rw [replicate_succ, integersOf, ih]; rfl

/-- While a line is read the value on top of the stack is not yet a value. -/
def State.InLine : State → Prop
  | .integerStart | .integer | .integerLF => True
  | _ => False

/-- All integers of the stack satisfy `P`, and a line starts with the accumulator reset. -/
structure Holding (P : Int64 → Prop) (d : Decoder) : Prop where
  fresh : d.state = .integerStart → d.pendingInteger = ⟨0, false⟩
  top : ¬ d.state.InLine → ∀ frame ∈ d.stack.head?, ∀ i ∈ frame.value.integers, P i
  below : ∀ frame ∈ d.stack.tail, ∀ i ∈ frame.value.integers, P i

variable {P : Int64 → Prop}
variable {state : State} {p : PendingInteger} {current : PendingValue} {rest : List PendingValue}

theorem Holding.of_cons (hfresh : state = .integerStart → p = ⟨0, false⟩)
    (hcurrent : ¬ state.InLine → ∀ i ∈ current.value.integers, P i)
    (hrest : ∀ frame ∈ rest, ∀ i ∈ frame.value.integers, P i) :
    Holding P ⟨state, p, current :: rest⟩ := by
  refine ⟨hfresh, ?_, hrest⟩
  intro hline frame hframe
  cases hframe
  exact hcurrent hline

variable {d : Decoder} {emitted : List RespValue}

theorem valueDone_holding (h : valueDone p value rest = .ok (d, emitted))
    (hvalue : ∀ i ∈ value.integers, P i) (hrest : ∀ frame ∈ rest, ∀ i ∈ frame.value.integers, P i) :
    Holding P d ∧ ∀ i ∈ integersOf emitted, P i := by
  match rest, h, hrest with
  | [], h, _ =>
    obtain ⟨rfl, rfl⟩ := by simpa [valueDone] using h
    refine ⟨⟨by simp, by simp, by simp⟩, ?_⟩
    intro i hi
    rw [integersOf, integersOf, append_nil] at hi
    exact hvalue i hi
  | ⟨.array values, element⟩ :: rest, h, hrest =>
    have hset : ∀ i ∈ integersOf (values.set element value), P i := by
      intro i hi
      rcases mem_integersOf_set hi with hi | hi
      · exact hrest ⟨.array values, element⟩ mem_cons_self i hi
      · exact hvalue i hi
    have hbelow : ∀ frame ∈ rest, ∀ i ∈ frame.value.integers, P i :=
      fun frame hframe => hrest frame (mem_cons_of_mem _ hframe)
    by_cases hlast : element < values.length - 1
    · obtain ⟨rfl, rfl⟩ := by simpa [valueDone, hlast] using h
      refine ⟨.of_cons (by simp) (by simp [RespValue.integers]) ?_, by simp [integersOf]⟩
      intro frame hframe
      rcases mem_cons.mp hframe with rfl | hframe
      · exact hset
      · exact hbelow frame hframe
    · obtain ⟨rfl, rfl⟩ := by simpa [valueDone, hlast] using h
      exact ⟨.of_cons (by simp) (fun _ => hset) hbelow, by simp [integersOf]⟩

theorem integerDone_holding (h : integerDone p current rest = .ok d)
    (hcurrent : Holds ⟨0, false⟩ current.value .integerStart)
    (hinteger : ∀ i, current.value = .integer i → P p.toInt64)
    (hrest : ∀ frame ∈ rest, ∀ i ∈ frame.value.integers, P i) : Holding P d := by
  obtain ⟨value, element⟩ := current
  rcases hcurrent with hvalue | hvalue | ⟨i, hvalue⟩
  · obtain rfl : value = .array [] := hvalue
    simp only [integerDone] at h
    split at h
    · cases h
      exact .of_cons (by simp) (by simp [RespValue.integers]) hrest
    · split at h
      · cases h
        exact .of_cons (by simp) (by simp [RespValue.integers, integersOf]) hrest
      · cases h
        refine .of_cons (by simp) (by simp [RespValue.integers]) ?_
        intro frame hframe
        rcases mem_cons.mp hframe with rfl | hframe
        · simp [RespValue.integers, integersOf_replicate]
        · exact hrest frame hframe
  · obtain rfl : value = .bulkString [] := hvalue
    simp only [integerDone] at h
    split at h
    · cases h
      exact .of_cons (by simp) (by simp [RespValue.integers]) hrest
    · cases h
      exact .of_cons (by simp) (by simp [RespValue.integers]) hrest
  · obtain rfl : value = .integer i := hvalue
    cases h
    refine .of_cons (by simp) ?_ hrest
    intro _ j hj
    obtain rfl := mem_singleton.mp hj
    exact hinteger i rfl

theorem integers_appendString {value value' : RespValue} {bytes : Bytes}
    (h : appendString value bytes = .ok value') : value'.integers = [] := by
  cases value <;> simp only [appendString, Except.ok.injEq, reduceCtorEq] at h
  all_goals
    subst h
    rfl

variable {c : UInt8}

theorem startValue_integers (h : startValue c = .ok (state, value)) :
    state.InLine ∨ value.integers = [] := by
  unfold startValue at h
  split at h
  · cases h
    exact .inl trivial
  split at h
  · cases h
    exact .inl trivial
  split at h
  · cases h
    exact .inr rfl
  split at h
  · cases h
    exact .inr rfl
  split at h
  · cases h
    exact .inl trivial
  · cases h

variable {buffer : Bytes} {t : Turn}

theorem readByte_holding (hok : Ok d) (hd : Holding P d)
    (hinteger : d.state = .integerLF → c = 10 → ∀ frame ∈ d.stack.head?, ∀ i,
      frame.value = .integer i → P d.pendingInteger.toInt64)
    (h : readByte d c buffer = .ok t) : Holding P t.decoder ∧ t.emitted = [] := by
  cases hok with
  | initial p =>
    cases read_of_readByte h
    exact ⟨.of_cons (by simp) (by simp [RespValue.integers]) (by simp), rfl⟩
  | @reading state p current rest hcurrent hrest =>
    have hbelow := hd.below
    cases read_of_readByte h with
    | root => exact absurd hcurrent id
    | type hstart =>
      refine ⟨.of_cons (fun _ => rfl) ?_ hbelow, rfl⟩
      intro hline i hi
      rcases startValue_integers hstart with h | h
      · exact absurd h hline
      · rw [h] at hi
        cases hi
    | minus | digits | integerCR | digit =>
      exact ⟨.of_cons (by simp) (fun h => absurd trivial h) hbelow, rfl⟩
    | integerLF hc hdone =>
      exact ⟨integerDone_holding hdone hcurrent (hinteger rfl hc current rfl) hbelow, rfl⟩
    | body hn happend =>
      refine ⟨.of_cons ?_ (by simp [integers_appendString happend]) hbelow, rfl⟩
      intro hstart
      split at hstart <;> cases hstart
    | cr | lf | stringCR => exact ⟨.of_cons (by simp) (fun _ => hd.top id current rfl) hbelow, rfl⟩
    | string hc happend =>
      exact ⟨.of_cons (by simp) (by simp [integers_appendString happend]) hbelow, rfl⟩

theorem turn_holding (hok : Ok d) (hd : Holding P d)
    (hinteger : d.state = .integerLF → buffer.head? = some 10 → ∀ frame ∈ d.stack.head?, ∀ i,
      frame.value = .integer i → P d.pendingInteger.toInt64) (h : turn d buffer = some (.ok t)) :
    Holding P t.decoder ∧ ∀ i ∈ integersOf t.emitted, P i := by
  obtain ⟨p, current, rest, d', emitted, rfl, hdone, rfl⟩ | ⟨c, tail, rfl, hread⟩ := turn_cases h
  · exact valueDone_holding hdone (hd.top id current rfl) hd.below
  · obtain ⟨hholding, hemitted⟩ := readByte_holding hok hd
      (fun hstate hc => hinteger hstate (by rw [hc]; rfl)) hread
    exact ⟨hholding, by simp [hemitted, integersOf]⟩

theorem parseSlice_ok {d' : Decoder} (hd : Ok d) (h : (parseSlice d buffer).result = .ok d') :
    Ok d' := by
  induction d, buffer using parseSlice.induct with
  | case1 d buffer hturn =>
    rw [parseSlice_of_none hturn] at h
    cases h
    exact hd
  | case2 d buffer e hturn =>
    rw [parseSlice_of_error hturn] at h
    cases h
  | case3 d buffer t hturn ih =>
    rw [parseSlice_of_ok hturn] at h
    exact ih (turn_ok hd hturn).1 h

theorem parseSlice_lineByte (c : UInt8) (hstate : d.state = .integerStart ∨ d.state = .integer) :
    (parseSlice d [c]).emitted = [] ∧ ∀ d', (parseSlice d [c]).result = .ok d' →
      d'.stack = d.stack ∧ d'.state = if c = 13 then .integerLF else .integer := by
  have hinteger : ∀ (p : PendingInteger) (stack : List PendingValue),
      (parseSlice ⟨.integer, p, stack⟩ [c]).emitted = [] ∧
        ∀ d', (parseSlice ⟨.integer, p, stack⟩ [c]).result = .ok d' →
          d'.stack = stack ∧ d'.state = if c = 13 then .integerLF else .integer := by
    intro p stack
    by_cases hcr : c = 13
    · rw [hcr, parseSlice_cr]
      refine ⟨rfl, ?_⟩
      intro d' h
      cases h
      exact ⟨rfl, rfl⟩
    · by_cases hdigit : c < 48 ∨ 57 < c
      · have hturn : turn ⟨.integer, p, stack⟩ [c] =
            some (.error (.protocolError (ascii "invalid integer character"))) := by
          rw [turn_reading (by simp)]
          simp only [readByte, if_neg hcr, if_pos hdigit]
        rw [parseSlice_of_error hturn]
        exact ⟨rfl, fun d' h => by cases h⟩
      · have hread : readByte ⟨.integer, p, stack⟩ c [] = .ok ⟨⟨.integer,
            { p with integer := p.integer * 10 + (c - 48).toUInt64 }, stack⟩, [], []⟩ := by
          simp only [readByte, if_neg hcr, if_neg hdigit]
        rw [parseSlice_read (by simp) hread, parseSlice_of_none (turn_nil (by simp)), if_neg hcr]
        refine ⟨rfl, ?_⟩
        intro d' h
        cases h
        exact ⟨rfl, rfl⟩
  obtain ⟨state, p, stack⟩ := d
  rcases hstate with hstate | hstate
  · obtain rfl : state = .integerStart := hstate
    by_cases hc : c = 45
    · rw [hc, parseSlice_minus, parseSlice_of_none (turn_nil (by simp))]
      refine ⟨rfl, ?_⟩
      intro d' h
      cases h
      exact ⟨rfl, rfl⟩
    · have hread : readByte ⟨.integerStart, p, stack⟩ c [] = .ok ⟨⟨.integer, p, stack⟩, [c], []⟩ := by
        simp only [readByte, if_neg hc]
      rw [parseSlice_read (by simp) hread]
      exact hinteger p stack
  · obtain rfl : state = .integer := hstate
    exact hinteger p stack

/-- The decoder is not inside a line, or has just come to the start of one. -/
structure Away (d : Decoder) (buffer : Bytes) : Prop where
  integer : d.state ≠ .integer
  start : d.state = .integerStart → buffer = []
  lineFeed : d.state = .integerLF → buffer ≠ []
  short : buffer.length ≤ 1

theorem startValue_state (h : startValue c = .ok (state, value)) :
    state = .integerStart ∨ state = .simpleString := by
  unfold startValue at h
  repeat' split at h
  all_goals cases h
  all_goals first | exact .inl rfl | exact .inr rfl

theorem integerDone_state (h : integerDone p current rest = .ok d) : ¬ d.state.InLine := by
  unfold integerDone at h
  repeat' split at h
  all_goals cases h
  all_goals exact id

theorem valueDone_state (h : valueDone p value rest = .ok (d, emitted)) :
    ¬ d.state.InLine := by
  unfold valueDone at h
  repeat' split at h
  all_goals cases h
  all_goals exact id

theorem Away.of_not_inLine (h : ¬ d.state.InLine) (hshort : buffer.length ≤ 1) :
    Away d buffer ∧ d.state ≠ .integerLF :=
  ⟨⟨fun he => h (he ▸ trivial), fun he => absurd (he ▸ trivial) h,
    fun he => absurd (he ▸ trivial) h, hshort⟩, fun he => h (he ▸ trivial)⟩

theorem turn_away (hd : Away d buffer) (h : turn d buffer = some (.ok t)) :
    Away t.decoder t.buffer ∧ t.decoder.state ≠ .integerLF := by
  obtain ⟨p, current, rest, d', emitted, rfl, hdone, rfl⟩ | ⟨c, tail, rfl, hread⟩ := turn_cases h
  · exact Away.of_not_inLine (valueDone_state hdone) hd.short
  · obtain rfl : tail = [] := by
      have := hd.short
      rw [length_cons] at this
      exact eq_nil_of_length_eq_zero (by omega)
    cases read_of_readByte hread with
    | root => exact Away.of_not_inLine id hd.short
    | type hstart =>
      rcases startValue_state hstart with rfl | rfl
      · exact ⟨⟨by simp, by simp, by simp, by simp⟩, by simp⟩
      · exact Away.of_not_inLine id (by simp)
    | minus | digits => cases hd.start rfl
    | integerCR | digit => exact absurd rfl hd.integer
    | integerLF _ hdone => exact Away.of_not_inLine (integerDone_state hdone) (by simp)
    | body =>
      refine Away.of_not_inLine ?_ (by simp)
      split <;> exact id
    | cr | lf | stringCR | string => exact Away.of_not_inLine id (by simp)

theorem parseSlice_away (hok : Ok d) (hd : Holding P d) (haway : Away d buffer)
    (hinteger : d.state = .integerLF → buffer.head? = some 10 → ∀ frame ∈ d.stack.head?, ∀ i,
      frame.value = .integer i → P d.pendingInteger.toInt64) :
    (∀ i ∈ integersOf (parseSlice d buffer).emitted, P i) ∧
      ∀ d', (parseSlice d buffer).result = .ok d' →
        Holding P d' ∧ d'.state ≠ .integer ∧ d'.state ≠ .integerLF := by
  induction d, buffer using parseSlice.induct with
  | case1 d buffer hturn =>
    rw [parseSlice_of_none hturn]
    refine ⟨by simp [integersOf], ?_⟩
    intro d' hd'
    cases hd'
    refine ⟨hd, haway.integer, ?_⟩
    intro hlf
    cases buffer with
    | nil => exact haway.lineFeed hlf rfl
    | cons c buffer =>
      rw [turn_reading (by rw [hlf]; simp)] at hturn
      cases hturn
  | case2 d buffer e hturn =>
    rw [parseSlice_of_error hturn]
    exact ⟨by simp [integersOf], fun d' hd' => by cases hd'⟩
  | case3 d buffer t hturn ih =>
    obtain ⟨haway', hlf⟩ := turn_away haway hturn
    obtain ⟨hholding, hemitted⟩ := turn_holding hok hd hinteger hturn
    obtain ⟨hrest, hlast⟩ := ih (turn_ok hok hturn).1 hholding haway' (fun h => absurd h hlf)
    rw [parseSlice_of_ok hturn]
    refine ⟨?_, hlast⟩
    intro i hi
    obtain ⟨value, hvalue, hi⟩ := mem_integersOf.mp hi
    rcases mem_append.mp hvalue with hvalue | hvalue
    · exact hemitted i (mem_integersOf.mpr ⟨value, hvalue, hi⟩)
    · exact hrest i (mem_integersOf.mpr ⟨value, hvalue, hi⟩)

/-- The decoder, started as `d`, is at the start of a number after `before`, and `line` is
the rest of its line. -/
structure NumberAt (d : Decoder) (before line : Bytes) (start : Decoder) : Prop where
  result : (parseSlice d before).result = .ok start
  state : start.state = .integerStart
  line : 13 ∉ line

/-- An integer that the decoder acts on at a line of the stream. -/
def ActedOn (d : Decoder) (stream : Bytes) (i : Int64) : Prop :=
  ∃ before line start d', before ++ line ++ crlf <+: stream ∧ NumberAt d before line start ∧
    afterLine start line = .ok d' ∧ d'.acts = some (.number i.toInt)

variable {stream : Bytes}

theorem ActedOn.append (h : ActedOn d stream i) (more : Bytes) : ActedOn d (stream ++ more) i := by
  obtain ⟨before, line, start, d', hprefix, h⟩ := h
  exact ⟨before, line, start, d', hprefix.trans (prefix_append _ _), h⟩

def Located (d : Decoder) (stream : Bytes) (now : Decoder) : Prop :=
  now.state.InLine → ∃ before read start, stream = before ++ read ∧
    (parseSlice d before).result = .ok start ∧ start.state = .integerStart ∧
    (parseSlice start read).result = .ok now ∧
    if now.state = .integerLF then ∃ line, read = line ++ [13] ∧ 13 ∉ line else 13 ∉ read

theorem andThen_error {x : Decoded} {e : DecodeError} (h : x.result = .error e)
    (next : Decoder → Decoded) : x.andThen next = x := by
  obtain ⟨emitted, result⟩ := x
  obtain rfl : result = .error e := h
  rfl

variable {start : Decoder} {before : Bytes}

theorem result_append (h : (parseSlice d before).result = .ok start) (more : Bytes) :
    (parseSlice d (before ++ more)).result = (parseSlice start more).result ∧
      (parseSlice d (before ++ more)).emitted =
        (parseSlice d before).emitted ++ (parseSlice start more).emitted := by
  rw [parseSlice_append]
  simp only [Decoded.andThen, h]
  exact ⟨trivial, trivial⟩

theorem Holding.mono {Q : Int64 → Prop} (hd : Holding P d) (h : ∀ i, P i → Q i) : Holding Q d :=
  ⟨hd.fresh, fun hline frame hframe i hi => h i (hd.top hline frame hframe i hi),
    fun frame hframe i hi => h i (hd.below frame hframe i hi)⟩

theorem line_or_away (c : UInt8) : (d.state = .integerStart ∨ d.state = .integer) ∨ Away d [c] := by
  by_cases hstart : d.state = .integerStart
  · exact .inl (.inl hstart)
  by_cases hinteger : d.state = .integer
  · exact .inl (.inr hinteger)
  · exact .inr ⟨hinteger, fun h => absurd h hstart, fun _ => cons_ne_nil _ _, Nat.le_refl _⟩

variable {now : Decoder}

theorem Located.actedOn (h : Located d stream now) (hlf : now.state = .integerLF)
    (frame : PendingValue) (hframe : frame ∈ now.stack.head?) (hi : frame.value = .integer i) :
    ActedOn d (stream ++ [10]) now.pendingInteger.toInt64 := by
  obtain ⟨before, read, start, hstream, hbefore, hstate, hread, hline⟩ := h (hlf ▸ trivial)
  rw [if_pos hlf] at hline
  obtain ⟨line, rfl, hcr⟩ := hline
  obtain ⟨state, p, stack⟩ := now
  obtain rfl : state = .integerLF := hlf
  cases stack with
  | nil => cases hframe
  | cons current rest =>
    obtain rfl : current = frame := Option.some.inj hframe
    obtain ⟨d', hd', hacts⟩ := integerDone_integer p current rest hi
    refine ⟨before, line, start, d', ?_, ⟨hbefore, hstate, hcr⟩, ?_, hacts⟩
    · rw [hstream]
      simp [crlf]
    · simp [afterLine, hread, bind, Except.bind, turn, readByte, hd']

theorem located_snoc {now' : Decoder}
    (h : Located d stream now) (hnow : (parseSlice d stream).result = .ok now)
    (hnow' : (parseSlice now [c]).result = .ok now')
    (hout : now.state = .integerStart ∨ now.state = .integer ∨
      now'.state ≠ .integer ∧ now'.state ≠ .integerLF) : Located d (stream ++ [c]) now' := by
  intro hinLine
  by_cases hstart : now'.state = .integerStart
  · refine ⟨stream ++ [c], [], now', by simp, ?_, hstart, ?_, ?_⟩
    · rw [(result_append hnow [c]).1, hnow']
    · rw [parseSlice_of_none (turn_nil (by rw [hstart]; simp))]
    · rw [if_neg (by rw [hstart]; simp)]
      exact not_mem_nil
  have hstate : now.state = .integerStart ∨ now.state = .integer := by
    rcases hout with h | h | ⟨hinteger, hlf⟩
    · exact .inl h
    · exact .inr h
    · revert hinLine hstart hinteger hlf
      cases now'.state <;> simp [State.InLine]
  obtain ⟨before, read, start, rfl, hbefore, hat, hread, hline⟩ := h (by
    rcases hstate with h | h <;> exact h ▸ trivial)
  have hcr : 13 ∉ read := by
    rcases hstate with h | h <;> simpa [h] using hline
  have hstate' := ((parseSlice_lineByte c hstate).2 now' hnow').2
  refine ⟨before, read ++ [c], start, by simp, hbefore, hat, ?_, ?_⟩
  · rw [(result_append hread [c]).1, hnow']
  · by_cases hc : c = 13
    · rw [if_pos hc] at hstate'
      rw [if_pos hstate', hc]
      exact ⟨read, rfl, hcr⟩
    · rw [if_neg hc] at hstate'
      rw [if_neg (by rw [hstate']; simp)]
      simp [hcr, Ne.symm hc]

theorem Decoder.Initial.holding (hd : d.Initial) : Holding P d := by
  obtain ⟨state, p, stack⟩ := d
  obtain ⟨rfl, rfl⟩ : state = .valueRootStart ∧ stack = [] := hd
  exact ⟨by simp, by simp, by simp⟩

theorem Decoder.Initial.ok (hd : d.Initial) : Ok d := by
  obtain ⟨state, p, stack⟩ := d
  obtain ⟨rfl, rfl⟩ : state = .valueRootStart ∧ stack = [] := hd
  exact .initial p

/-- Every integer, in what is emitted and in what is under construction, comes from a line. -/
theorem stream_actedOn (hd : d.Initial) (stream : Bytes) :
    (∀ i ∈ integersOf (parseSlice d stream).emitted, ActedOn d stream i) ∧
      ∀ now, (parseSlice d stream).result = .ok now →
        Holding (ActedOn d stream) now ∧ Located d stream now := by
  induction stream using List.reverseRecOn with
  | nil =>
    rw [parseSlice_of_none (turn_nil (by rw [hd.1]; simp))]
    refine ⟨by simp [integersOf], ?_⟩
    intro now hnow
    cases hnow
    exact ⟨hd.holding, fun h => by rw [hd.1] at h; exact h.elim⟩
  | append_singleton stream c ih =>
    cases hnow : (parseSlice d stream).result with
    | error e =>
      rw [parseSlice_append, andThen_error hnow]
      refine ⟨fun i hi => (ih.1 i hi).append _, ?_⟩
      intro now h
      rw [hnow] at h
      cases h
    | ok now =>
      obtain ⟨hholding, hlocated⟩ := ih.2 now hnow
      have hholding' := hholding.mono fun i hi => hi.append [c]
      obtain ⟨hresult, hemitted⟩ := result_append hnow [c]
      rw [hresult, hemitted]
      have hbefore : ∀ i ∈ integersOf (parseSlice d stream).emitted, ActedOn d (stream ++ [c]) i :=
        fun i hi => (ih.1 i hi).append _
      rcases line_or_away (d := now) c with hstate | haway
      · constructor
        · rw [(parseSlice_lineByte c hstate).1, append_nil]
          exact hbefore
        · intro now' hnow'
          obtain ⟨hstack, hstate'⟩ := (parseSlice_lineByte c hstate).2 now' hnow'
          refine ⟨⟨?_, ?_, ?_⟩, located_snoc hlocated hnow hnow' ?_⟩
          · intro h
            rw [hstate'] at h
            split at h <;> cases h
          · intro h
            rw [hstate'] at h
            split at h <;> exact absurd trivial h
          · rw [hstack]
            exact hholding'.below
          · rcases hstate with h | h
            · exact .inl h
            · exact .inr (.inl h)
      · obtain ⟨hints, hlast⟩ := parseSlice_away (parseSlice_ok hd.ok hnow) hholding' haway (by
          intro hlf hc frame hframe i hi
          obtain rfl : c = 10 := Option.some.inj hc
          exact hlocated.actedOn hlf frame hframe hi)
        constructor
        · intro i hi
          obtain ⟨value, hvalue, hi⟩ := mem_integersOf.mp hi
          rcases mem_append.mp hvalue with hvalue | hvalue
          · exact hbefore i (mem_integersOf.mpr ⟨value, hvalue, hi⟩)
          · exact hints i (mem_integersOf.mpr ⟨value, hvalue, hi⟩)
        · intro now' hnow'
          obtain ⟨hh, hout⟩ := hlast now' hnow'
          exact ⟨hh, located_snoc hlocated hnow hnow' (.inr (.inr hout))⟩

variable (nulls)

/-- At every whole number line of the stream the decoder acts on what is written. -/
def NumbersRight (d : Decoder) (stream : Bytes) : Prop :=
  ∀ before line start frame, before ++ line ++ crlf <+: stream → NumberAt d before line start →
    frame ∈ start.stack.head? → ReadsRight nulls frame.value start line

def NumbersRegular (d : Decoder) (stream : Bytes) : Prop :=
  ∀ before line start frame, before ++ line ++ crlf <+: stream → NumberAt d before line start →
    frame ∈ start.stack.head? → Regular nulls frame.value line

theorem numberAt_readsRight_iff (hd : d.Initial) {line : Bytes}
    (h : NumberAt d before line start) {frame : PendingValue} (hframe : frame ∈ start.stack.head?) :
    ReadsRight nulls frame.value start line ↔ Regular nulls frame.value line := by
  have hok := parseSlice_ok hd.ok h.result
  have hfresh := ((stream_actedOn hd before).2 start h.result).1.fresh h.state
  have hstate := h.state
  obtain ⟨state, p, stack⟩ := start
  obtain rfl : state = .integerStart := hstate
  obtain rfl : p = ⟨0, false⟩ := hfresh
  cases stack with
  | nil => cases hframe
  | cons current rest =>
    obtain rfl : current = frame := Option.some.inj hframe
    cases hok with
    | reading hcurrent hrest => exact readsRight_iff nulls current rest line h.line hcurrent

variable {nulls}

theorem not_numbersRight {nulls : NullLength} {line : Bytes} {n : Int} (hd : d.Initial)
    (hline : before ++ line ++ crlf <+: stream) (hnumber : NumberAt d before line start)
    (hstack : start.stack = ⟨.integer i, 0⟩ :: rest)
    (hdigits : ¬ ∃ c ∈ lineDigits line, ¬ IsDigit c) (hwritten : written line = some n)
    (hrange : ¬ InInt64 n) : ¬ NumbersRight nulls d stream := by
  intro hright
  have hframe : ⟨.integer i, 0⟩ ∈ start.stack.head? := by
    rw [hstack]
    rfl
  have hread := hright before line start _ hline hnumber hframe
  rw [numberAt_readsRight_iff nulls hd hnumber hframe, regular_of_written hdigits hwritten] at hread
  exact hrange hread

/-- Every integer that is emitted comes from a number line, and the decoder reads the number
lines right exactly when they are regular, however the stream is cut. -/
theorem decodeCalls_numbers (nulls : NullLength) (d : Decoder) (hd : d.Initial)
    (calls : List (List Bytes)) :
    (∀ i ∈ integersOf (decodeCalls d calls).emitted, ActedOn d calls.flatten.flatten i) ∧
      (NumbersRight nulls d calls.flatten.flatten ↔
        NumbersRegular nulls d calls.flatten.flatten) := by
  constructor
  · rw [decodeCalls_eq_parseSlice calls d (by rw [hd.1]; simp)]
    exact (stream_actedOn hd _).1
  · constructor
    · intro h before line start frame hprefix hat hframe
      exact (numberAt_readsRight_iff nulls hd hat hframe).mp (h _ _ _ _ hprefix hat hframe)
    · intro h before line start frame hprefix hat hframe
      exact (numberAt_readsRight_iff nulls hd hat hframe).mpr (h _ _ _ _ hprefix hat hframe)

theorem decodeCalls_numbers_reply :
    let stream := ascii ":12\r\n"
    let d : Decoder := ⟨.valueRootStart, ⟨0, false⟩, []⟩
    NumbersRight .negative d stream ↔ NumbersRegular .negative d stream :=
  (decodeCalls_numbers .negative ⟨.valueRootStart, ⟨0, false⟩, []⟩ ⟨rfl, rfl⟩
    [[ascii ":12\r\n"]]).2

def wrappedDigits : Bytes := ascii "18446744073709551617"

theorem wrappedDigits_digits : ∀ c ∈ lineDigits wrappedDigits, 48 ≤ c.toNat ∧ c.toNat ≤ 57 := by
  decide +kernel

theorem parseSlice_wrapped : ∃ start : Decoder,
    parseSlice ⟨.valueRootStart, ⟨0, false⟩, []⟩ [58] = ⟨[], .ok start⟩ ∧
      start = ⟨.integerStart, ⟨0, false⟩, [⟨.integer 0, 0⟩]⟩ := by
  refine ⟨_, ?_, rfl⟩
  have hroot : readByte ⟨.valueRootStart, ⟨0, false⟩, []⟩ 58 [] =
      .ok ⟨⟨.valueStart, ⟨0, false⟩, [⟨.null, 0⟩]⟩, [58], []⟩ := rfl
  have htype : readByte ⟨.valueStart, ⟨0, false⟩, [⟨.null, 0⟩]⟩ 58 [] =
      .ok ⟨⟨.integerStart, ⟨0, false⟩, [⟨.integer 0, 0⟩]⟩, [], []⟩ := rfl
  rw [parseSlice_read (by simp) hroot, parseSlice_read (by simp) htype,
    parseSlice_of_none (turn_nil (by simp))]

/-- An integer that is one more than 2 to the 64 is emitted as one. -/
theorem decodeCalls_wrapped :
    let d : Decoder := ⟨.valueRootStart, ⟨0, false⟩, []⟩
    let stream := 58 :: wrappedDigits ++ crlf
    (decodeCalls d [[stream]]).emitted = [.integer 1] ∧ ∀ nulls, ¬ NumbersRight nulls d stream := by
  intro d stream
  obtain ⟨start, hstart, rfl⟩ := parseSlice_wrapped
  constructor
  · have hsame : parseSlice ⟨.integerStart, ⟨0, false⟩, [⟨.integer 0, 0⟩]⟩ (wrappedDigits ++ crlf) =
        parseSlice ⟨.valueComplete, ⟨1, false⟩, [⟨.integer 1, 0⟩]⟩ [] := by
      have hcr : readByte ⟨.integer, ⟨1, false⟩, [⟨.integer 0, 0⟩]⟩ 13 [10] =
          .ok ⟨⟨.integerLF, ⟨1, false⟩, [⟨.integer 0, 0⟩]⟩, [10], []⟩ := rfl
      have hlf : readByte ⟨.integerLF, ⟨1, false⟩, [⟨.integer 0, 0⟩]⟩ 10 [] =
          .ok ⟨⟨.valueComplete, ⟨1, false⟩, [⟨.integer 1, 0⟩]⟩, [], []⟩ := rfl
      have hzero : (0 : UInt64) = UInt64.ofNat 0 := rfl
      rw [crlf, parseSlice_lineDigits, if_neg (by decide), hzero,
        parseSlice_digits _ _ _ wrappedDigits_digits]
      exact (parseSlice_read (by simp) hcr).trans (parseSlice_read (by simp) hlf)
    rw [decodeCalls_eq_parseSlice _ _ (by simp [d])]
    change (parseSlice d ([58] ++ (wrappedDigits ++ crlf))).emitted = [.integer 1]
    rw [(result_append (by rw [hstart]) _).2, hstart, hsame, parseSlice_complete _ rfl,
      parseSlice_of_none (turn_nil (by simp))]
    rfl
  · intro nulls
    have hline : [58] ++ wrappedDigits ++ crlf <+: stream := prefix_refl stream
    have hnumber : NumberAt d [58] wrappedDigits
        ⟨.integerStart, ⟨0, false⟩, [⟨.integer 0, 0⟩]⟩ := ⟨by rw [hstart], rfl, by decide +kernel⟩
    exact not_numbersRight (n := 18446744073709551617) ⟨rfl, rfl⟩ hline hnumber rfl
      (by decide +kernel) (by decide +kernel) (by decide)

end Meliproxy.Envoy.Redis
