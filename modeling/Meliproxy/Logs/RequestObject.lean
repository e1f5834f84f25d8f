import Meliproxy.Lib.Number
import Meliproxy.Lib.Separator
import Meliproxy.Lib.Text
import Meliproxy.Lib.Utf8
import Mathlib.Data.List.TakeWhile

/-!
# The request objects of a log file

The first half of the handler of `aggregateLogs`: the bytes of a file become a text, the text
lines, and each line the object of a request. Numbers are doubles, and what lies beyond the
end of an array is `undefined`. A `TypeError` ends the process.
-/

namespace Meliproxy.Logs

open Lib List

abbrev JsString := List Char

/-- `WhiteSpace` and `LineTerminator`. -/
def isWhiteSpace (c : Char) : Bool :=
  (9 ≤ c.toNat && c.toNat ≤ 13) || (0x2000 ≤ c.toNat && c.toNat ≤ 0x200A) ||
    [0x20, 0xA0, 0x1680, 0x2028, 0x2029, 0x202F, 0x205F, 0x3000, 0xFEFF].contains c.toNat

def digitValue (b : UInt8) : Nat :=
  if 48 ≤ b ∧ b ≤ 57 then b.toNat - 48
  else if 97 ≤ b ∧ b ≤ 122 then b.toNat - 87
  else if 65 ≤ b ∧ b ≤ 90 then b.toNat - 55
  else 36

/-- The integer at the beginning of a text. -/
def readInt (s : Bytes) : Option Int :=
  let (sign, s) : Int × Bytes := match s with
    | 45 :: s => (-1, s)
    | 43 :: s => (1, s)
    | s => (1, s)
  let (radix, s) : Nat × Bytes := match s with
    | 48 :: 120 :: s => (16, s)
    | 48 :: 88 :: s => (16, s)
    | s => (10, s)
  let digits := s.takeWhile fun b => digitValue b < radix
  if digits = [] then none
  else some (sign * digits.foldl (fun acc b => acc * radix + digitValue b) 0)

/-- White space and line terminators are skipped as those of Unicode, and the integer is
rounded to a double. -/
def parseInt (s : JsString) : Number :=
  match readInt (Utf8.encode (s.dropWhile isWhiteSpace)) with
  | some n => .ofInt n
  | none => .nan

/-- `readInt` of what may be `undefined`. -/
def parseInt? (s : Option JsString) : Number :=
  match s with
  | some s => parseInt s
  | none => .nan

inductive Failure where
  | typeError

structure RequestObject where
  datetime : JsString
  request : Option JsString
  responseCode : Number
  responseFlags : Option JsString
  bytesReceived : Number
  bytesSent : Option JsString
  duration : Number
  upstreamTime : Number
  xForwardedFor : Option JsString
  userAgent : Option JsString
  requestId : Option JsString
  requestAuthority : Option JsString
  upstreamHost : Option JsString

def stripDatetime (s : JsString) : JsString :=
  let s := match s with
    | '[' :: s => s
    | s => s
  if s.getLast? = some ']' then s.dropLast else s

def requestObject (line : JsString) : Except Failure RequestObject :=
  let parts := line.splitOn '"'
  match parts[2]? with
  | none => .error .typeError
  | some part =>
    let fields := part.splitOn ' '
    .ok {
      datetime := stripDatetime (((parts.headD []).splitOn ' ').headD [])
      request := parts[1]?
      responseCode := parseInt? fields[1]?
      responseFlags := fields[2]?
      bytesReceived := parseInt? fields[3]?
      bytesSent := fields[4]?
      duration := parseInt? fields[5]?
      upstreamTime := parseInt? fields[6]?
      xForwardedFor := parts[3]?
      userAgent := parts[5]?
      requestId := parts[7]?
      requestAuthority := parts[9]?
      upstreamHost := parts[11]? }

def requestObjects (data : Bytes) : Except Failure (List RequestObject) :=
  (((Utf8.decode data).splitOn '\n').filter fun line => 0 < line.length).mapM requestObject

def isDigit (b : UInt8) : Bool := 48 ≤ b && b ≤ 57

def numeric (v : Bytes) : Option Int :=
  match v with
  | 45 :: digits =>
    if digits ≠ [] ∧ digits.all isDigit then some (-(readDecimal digits 0 : Int)) else none
  | digits =>
    if digits ≠ [] ∧ digits.all isDigit then some (readDecimal digits 0 : Int) else none

def signOf : Bytes → Int
  | 45 :: _ => -1
  | _ => 1

def unsigned : Bytes → Bytes
  | 45 :: s => s
  | 43 :: s => s
  | s => s

/-- The radix of a text without a sign, and its digits with what follows them. -/
def radixOf : Bytes → Nat × Bytes
  | 48 :: 120 :: s => (16, s)
  | 48 :: 88 :: s => (16, s)
  | s => (10, s)

/-- A number stands at the beginning of the text, whatever follows it. -/
def startsNumber (s : Bytes) : Bool :=
  let (radix, digits) := radixOf (unsigned s)
  digits.head?.any fun b => digitValue b < radix

theorem readInt_eq (t : Bytes) : readInt t =
      let (radix, t') := radixOf (unsigned t)
      let digits := t'.takeWhile fun b => digitValue b < radix
      if digits = [] then none
      else some (signOf t * digits.foldl (fun acc b => acc * radix + digitValue b) 0) := by
  unfold readInt
  obtain ⟨t', rfl⟩ | h45 := Classical.em (∃ t', t = 45 :: t')
  · rfl
  obtain ⟨t', rfl⟩ | h43 := Classical.em (∃ t', t = 43 :: t')
  · rfl
  -- no sign: the text is its own magnitude
  have hs : signOf t = 1 := by
    unfold signOf
    split
    · exact absurd ⟨_, rfl⟩ h45
    · rfl
  have hu : unsigned t = t := by
    unfold unsigned
    split
    · exact absurd ⟨_, rfl⟩ h45
    · exact absurd ⟨_, rfl⟩ h43
    · rfl
  simp -iota only [hs, hu]
  split
  rename_i sign rest hpair
  split at hpair
  · exact absurd ⟨_, rfl⟩ h45
  · exact absurd ⟨_, rfl⟩ h43
  · obtain ⟨rfl, rfl⟩ := Prod.mk.inj hpair
    rfl

theorem takeWhile_eq_nil_iff (p : UInt8 → Bool) (s : Bytes) :
    s.takeWhile p = [] ↔ s.head?.any p = false := by
  cases s with
  | nil => simp
  | cons b s =>
    rw [takeWhile_cons]
    cases hb : p b <;> simp [hb]

theorem readInt_eq_none_iff (s : Bytes) : readInt s = none ↔ startsNumber s = false := by
  rw [readInt_eq, startsNumber]
  dsimp only
  rw [← takeWhile_eq_nil_iff]
  split
  · simp [*]
  · simp [*]

theorem parseInt_eq_nan_iff (s : JsString) :
    parseInt s = .nan ↔ startsNumber (Utf8.encode (s.dropWhile isWhiteSpace)) = false := by
  rw [← readInt_eq_none_iff, parseInt]
  cases readInt (Utf8.encode (s.dropWhile isWhiteSpace)) with
  | none => simp
  | some n =>
    simp only [Number.ofInt, reduceCtorEq, iff_false]
    split <;> simp

theorem isDigit_bounds {b : UInt8} (h : isDigit b = true) : 48 ≤ b.toNat ∧ b.toNat ≤ 57 := by
  simpa [isDigit, UInt8.le_iff_toNat_le] using h

theorem digitValue_of_isDigit {b : UInt8} (h : isDigit b = true) : digitValue b = b.toNat - 48 := by
  have h' := isDigit_bounds h
  rw [digitValue, if_pos]
  exact ⟨h'.1, h'.2⟩

theorem isDigit_decimal (n : Nat) : (decimal n).all isDigit = true := by
  rw [all_eq_true]
  intro b hb
  obtain ⟨hlo, hhi⟩ := mem_decimal hb
  simpa [isDigit, UInt8.le_iff_toNat_le] using ⟨hlo, hhi⟩

variable {digits : Bytes}

section

variable (hall : digits.all isDigit = true)
include hall

theorem foldl_digits (acc : Nat) :
    digits.foldl (fun acc b => acc * 10 + digitValue b) acc = readDecimal digits acc := by
  induction digits generalizing acc with
  | nil => rfl
  | cons b digits ih =>
    rw [all_cons, Bool.and_eq_true] at hall
    rw [foldl_cons, ih hall.2, digitValue_of_isDigit hall.1, Nat.mul_comm]
    rfl

theorem takeWhile_digits :
    (digits.takeWhile fun b => digitValue b < 10) = digits := by
  rw [takeWhile_eq_self_iff]
  intro b hb
  have hdigit := all_eq_true.mp hall b hb
  have := isDigit_bounds hdigit
  exact decide_eq_true (by rw [digitValue_of_isDigit hdigit]; omega)

theorem radixOf_digits :
    radixOf digits = (10, digits) := by
  unfold radixOf
  split
  · exact absurd hall (by simp [isDigit])
  · exact absurd hall (by simp [isDigit])
  · rfl

end

theorem readInt_digits (hne : digits ≠ []) (hall : digits.all isDigit = true) :
    readInt digits = some (readDecimal digits 0 : Int) ∧
      readInt (45 :: digits) = some (-(readDecimal digits 0 : Int)) := by
  obtain ⟨b, rest, rfl⟩ := exists_cons_of_ne_nil hne
  have hb := isDigit_bounds (all_eq_true.mp hall b mem_cons_self)
  have h45 : b ≠ 45 := by rintro rfl; simp at hb
  have h43 : b ≠ 43 := by rintro rfl; simp at hb
  have hunsigned : unsigned (b :: rest) = b :: rest := by
    unfold unsigned
    split
    · rename_i heq
      exact absurd (List.cons.inj heq).1 h45
    · rename_i heq
      exact absurd (List.cons.inj heq).1 h43
    · rfl
  have hsign : signOf (b :: rest) = 1 := by
    unfold signOf
    split
    · rename_i heq
      exact absurd (List.cons.inj heq).1 h45
    · rfl
  constructor
  · rw [readInt_eq]
    dsimp only
    rw [hunsigned, radixOf_digits hall, takeWhile_digits hall, foldl_digits hall, hsign, Int.one_mul]
    rfl
  · rw [readInt_eq]
    have hminus : unsigned (45 :: b :: rest) = b :: rest := rfl
    have hnegative : signOf (45 :: b :: rest) = -1 := rfl
    dsimp only
    rw [hminus, hnegative, radixOf_digits hall]
    rw [takeWhile_digits hall, foldl_digits hall, Int.neg_one_mul]
    rfl

theorem readInt_numeric {v : Bytes} {n : Int} (h : numeric v = some n) : readInt v = some n := by
  unfold numeric at h
  split at h
  · split at h
    · rename_i hd
      rw [(readInt_digits hd.1 hd.2).2, Option.some.inj h]
    · cases h
  · split at h
    · rename_i hd
      rw [(readInt_digits hd.1 hd.2).1, Option.some.inj h]
    · cases h

theorem mem_numeric {v : Bytes} {n : Int} (h : numeric v = some n) {b : UInt8} (hb : b ∈ v) :
    b = 45 ∨ isDigit b = true := by
  unfold numeric at h
  split at h
  · split at h
    · rename_i hd
      rcases mem_cons.mp hb with hb | hb
      · exact Or.inl hb
      · exact Or.inr (all_eq_true.mp hd.2 b hb)
    · cases h
  · split at h
    · rename_i hd
      exact Or.inr (all_eq_true.mp hd.2 b hb)
    · cases h

theorem numeric_decimal (n : Nat) : numeric (decimal n) = some (n : Int) := by
  have hne : decimal n ≠ [] := by
    simp [decimal, Nat.toDigits_ne_nil]
  unfold numeric
  split
  · rename_i heq
    exact absurd (heq ▸ mem_cons_self) (minus_notMem_decimal n)
  · rw [if_pos ⟨hne, isDigit_decimal n⟩, readDecimal_decimal]

theorem numeric_formatInt (n : Int) : numeric (formatInt n) = some n := by
  unfold formatInt
  split
  · have hne : decimal n.natAbs ≠ [] := by simp [decimal, Nat.toDigits_ne_nil]
    rw [numeric, if_pos ⟨hne, isDigit_decimal _⟩, readDecimal_decimal]
    congr 1
    omega
  · rw [numeric_decimal]
    congr 1
    omega

end Meliproxy.Logs
