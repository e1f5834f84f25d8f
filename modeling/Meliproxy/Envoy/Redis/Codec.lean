import Meliproxy.Lib.Text

/-!
# The RESP codec

`EncoderImpl` writes a value as bytes. `DecoderImpl` is a state machine that takes its
input in slices of any size. Its stack holds the values under construction, the
innermost first. The values below the top are arrays, and the pointer that the source
keeps to the element being filled is here the pair of the array and
`currentArrayElement`: a value is written back to its slot when it is popped.
-/

namespace Meliproxy.Envoy.Redis

open Lib List

inductive RespValue where
  | null
  | simpleString (s : Bytes)
  | bulkString (s : Bytes)
  | integer (i : Int64)
  | error (s : Bytes)
  | array (values : List RespValue)

def itoaLoop (i : Nat) : Bytes :=
  if h : i / 10 = 0 then [(48 + i % 10).toUInt8]
  else (48 + i % 10).toUInt8 :: itoaLoop (i / 10)
termination_by i
decreasing_by omega

def itoa (i : UInt64) : Bytes := (itoaLoop i.toNat).reverse

theorem reverse_itoaLoop (n : Nat) : (itoaLoop n).reverse = decimal n := by
  have hdigit : ∀ d < 10, (Nat.digitChar d).toNat.toUInt8 = (48 + d).toUInt8 := by decide
  have hlast := hdigit (n % 10) (Nat.mod_lt n (by omega))
  rw [itoaLoop, decimal, Nat.toDigits_eq_if (by omega)]
  by_cases hn : n < 10
  · have hdiv : n / 10 = 0 := by omega
    rw [Nat.mod_eq_of_lt hn] at hlast ⊢
    rw [dif_pos hdiv, if_pos hn, reverse_singleton, map_singleton, hlast]
  · have hdiv : ¬ n / 10 = 0 := by omega
    rw [dif_neg hdiv, if_neg hn, reverse_cons, reverse_itoaLoop (n / 10), map_append,
      map_singleton, hlast, decimal]

/-- The buffer of `itoa` has to have 21 bytes, for the digits and a NUL byte. -/
theorem length_itoa_le (i : UInt64) : (itoa i).length ≤ 20 := by
  have hi : i.toNat < 10 ^ 20 := Nat.lt_trans i.toNat_lt (by omega)
  rw [itoa, reverse_itoaLoop, decimal, length_map]
  exact (Nat.length_toDigits_le_iff (by omega) (by omega)).mpr hi

def crlf : Bytes := [13, 10]

def encodeBulkString (s : Bytes) : Bytes :=
  36 :: itoa s.length.toUInt64 ++ crlf ++ s ++ crlf

def encodeError (s : Bytes) : Bytes := 45 :: s ++ crlf

/-- The negative case goes through `integer + 1`, so that the product does not
overflow. -/
def encodeInteger (i : Int64) : Bytes :=
  if 0 ≤ i then 58 :: itoa i.toUInt64 ++ crlf
  else 58 :: 45 :: itoa (((i + 1) * -1).toUInt64 + 1) ++ crlf

def encodeSimpleString (s : Bytes) : Bytes := 43 :: s ++ crlf

mutual

def encode : RespValue → Bytes
  | .array values => 42 :: itoa values.length.toUInt64 ++ crlf ++ encodeAll values
  | .simpleString s => encodeSimpleString s
  | .bulkString s => encodeBulkString s
  | .error s => encodeError s
  | .null => ascii "$-1\r\n"
  | .integer i => encodeInteger i

def encodeAll : List RespValue → Bytes
  | [] => []
  | value :: values => encode value ++ encodeAll values

end

inductive State where
  | valueRootStart | valueStart | integerStart | integer | integerLF | bulkStringBody
  | cr | lf | simpleString | valueComplete
  deriving DecidableEq

structure PendingInteger where
  integer : UInt64
  negative : Bool

structure PendingValue where
  value : RespValue
  currentArrayElement : Nat

structure Decoder where
  state : State
  pendingInteger : PendingInteger
  stack : List PendingValue

inductive DecodeError where
  | protocolError (text : Bytes)
  | assertion

/-- One turn of the loop: the decoder, what is left of the slice, and the value handed
to the callbacks if there is one. -/
structure Turn where
  decoder : Decoder
  buffer : Bytes
  emitted : List RespValue

def startValue (c : UInt8) : Except DecodeError (State × RespValue) :=
  if c = 42 then .ok (.integerStart, .array [])
  else if c = 36 then .ok (.integerStart, .bulkString [])
  else if c = 45 then .ok (.simpleString, .error [])
  else if c = 43 then .ok (.simpleString, .simpleString [])
  else if c = 58 then .ok (.integerStart, .integer 0)
  else .error (.protocolError (ascii "invalid value type"))

variable (p : PendingInteger)

def PendingInteger.toInt64 : Int64 :=
  if p.integer = 0 ∨ p.negative = false then p.integer.toInt64
  else (p.integer - 1).toInt64 * -1 - 1

/-- What follows the line of an integer, by the type of the value that is read. -/
def integerDone (current : PendingValue) (rest : List PendingValue) :
    Except DecodeError Decoder :=
  match current.value with
  | .array _ =>
    if p.negative then .ok ⟨.valueComplete, p, { current with value := .null } :: rest⟩
    else if p.integer = 0 then .ok ⟨.valueComplete, p, current :: rest⟩
    else .ok ⟨.valueStart, p, ⟨.null, 0⟩ ::
      { current with value := .array (List.replicate p.integer.toNat .null) } :: rest⟩
  | .integer _ => .ok ⟨.valueComplete, p, { current with value := .integer p.toInt64 } :: rest⟩
  | .bulkString _ =>
    if p.negative then .ok ⟨.valueComplete, p, { current with value := .null } :: rest⟩
    else .ok ⟨.bulkStringBody, p, current :: rest⟩
  | _ => .error .assertion

/-- A complete value is handed out, or written to its slot in the array below it. -/
def valueDone (value : RespValue) :
    List PendingValue → Except DecodeError (Decoder × List RespValue)
  | [] => .ok (⟨.valueRootStart, p, []⟩, [value])
  | ⟨.array values, element⟩ :: rest =>
    if element < values.length - 1 then
      .ok (⟨.valueStart, p, ⟨.null, 0⟩ :: ⟨.array (values.set element value), element + 1⟩ :: rest⟩, [])
    else .ok (⟨.valueComplete, p, ⟨.array (values.set element value), element⟩ :: rest⟩, [])
  | _ => .error .assertion

def appendString (value : RespValue) (bytes : Bytes) : Except DecodeError RespValue :=
  match value with
  | .simpleString s => .ok (.simpleString (s ++ bytes))
  | .bulkString s => .ok (.bulkString (s ++ bytes))
  | .error s => .ok (.error (s ++ bytes))
  | _ => .error .assertion

/-- One turn of the loop in a state that reads, on a slice that still has the byte `c`. -/
def readByte (d : Decoder) (c : UInt8) (buffer : Bytes) : Except DecodeError Turn :=
  match d.state, d.stack with
  | .valueRootStart, stack =>
    .ok ⟨{ d with state := .valueStart, stack := ⟨.null, 0⟩ :: stack }, c :: buffer, []⟩
  | .valueStart, current :: rest => do
    let (state, value) ← startValue c
    .ok ⟨⟨state, ⟨0, false⟩, { current with value := value } :: rest⟩, buffer, []⟩
  | .integerStart, _ =>
    if c = 45 then
      .ok ⟨{ d with state := .integer, pendingInteger := { d.pendingInteger with negative := true } },
        buffer, []⟩
    else .ok ⟨{ d with state := .integer }, c :: buffer, []⟩
  | .integer, _ =>
    if c = 13 then .ok ⟨{ d with state := .integerLF }, buffer, []⟩
    else if c < 48 ∨ 57 < c then .error (.protocolError (ascii "invalid integer character"))
    else .ok ⟨{ d with pendingInteger := { d.pendingInteger with
      integer := d.pendingInteger.integer * 10 + (c - 48).toUInt64 } }, buffer, []⟩
  | .integerLF, current :: rest =>
    if c ≠ 10 then .error (.protocolError (ascii "expected new line"))
    else do
      let d ← integerDone d.pendingInteger current rest
      .ok ⟨d, buffer, []⟩
  | .bulkStringBody, current :: rest => do
    let lengthToCopy := min d.pendingInteger.integer.toNat (buffer.length + 1)
    let value ← appendString current.value ((c :: buffer).take lengthToCopy)
    let integer := d.pendingInteger.integer - lengthToCopy.toUInt64
    .ok ⟨⟨if integer = 0 then .cr else .bulkStringBody, { d.pendingInteger with integer := integer },
      { current with value := value } :: rest⟩, (c :: buffer).drop lengthToCopy, []⟩
  | .cr, _ =>
    if c ≠ 13 then .error (.protocolError (ascii "expected carriage return"))
    else .ok ⟨{ d with state := .lf }, buffer, []⟩
  | .lf, _ =>
    if c ≠ 10 then .error (.protocolError (ascii "expected new line"))
    else .ok ⟨{ d with state := .valueComplete }, buffer, []⟩
  | .simpleString, current :: rest =>
    if c = 13 then .ok ⟨{ d with state := .lf }, buffer, []⟩
    else do
      let value ← appendString current.value [c]
      .ok ⟨{ d with stack := { current with value := value } :: rest }, buffer, []⟩
  | _, _ => .error .assertion

/-- One turn of the loop; `none` when the loop is over. -/
def turn (d : Decoder) (buffer : Bytes) : Option (Except DecodeError Turn) :=
  if d.state = .valueComplete then
    match d.stack with
    | [] => some (.error .assertion)
    | current :: rest => some (do
      let (d, emitted) ← valueDone d.pendingInteger current.value rest
      .ok ⟨d, buffer, emitted⟩)
  else
    match buffer with
    | [] => none
    | c :: buffer => some (readByte d c buffer)

/-! The loop ends: a turn consumes input, or moves to a state of smaller rank, or
shortens the stack. -/

def State.rank : State → Nat
  | .valueComplete => 3
  | .valueRootStart => 2
  | .integerStart | .bulkStringBody => 1
  | _ => 0

def Decreases (d : Decoder) (buffer : Bytes) (t : Turn) : Prop :=
  Prod.Lex (· < ·) (Prod.Lex (· < ·) (· < ·))
    (t.buffer.length, t.decoder.state.rank, t.decoder.stack.length)
    (buffer.length, d.state.rank, d.stack.length)

variable {d : Decoder} {buffer : Bytes} {t : Turn}

theorem decreases_of_length (h : t.buffer.length < buffer.length) : Decreases d buffer t :=
  .left _ _ h

theorem decreases_of_rank (hlength : t.buffer.length = buffer.length)
    (h : t.decoder.state.rank < d.state.rank) : Decreases d buffer t := by
  rw [Decreases, hlength]
  exact .right _ (.left _ _ h)

theorem valueDone_decreases {d' : Decoder} {current : PendingValue} {rest : List PendingValue}
    {emitted : List RespValue} (hstate : d.state = .valueComplete)
    (hstack : d.stack = current :: rest)
    (h : valueDone d.pendingInteger current.value rest = .ok (d', emitted)) :
    Decreases d buffer ⟨d', buffer, emitted⟩ := by
  match rest, h with
  | [], h =>
    obtain ⟨rfl, rfl⟩ := by simpa [valueDone] using h
    exact decreases_of_rank rfl (by simp [hstate, State.rank])
  | ⟨.array values, element⟩ :: rest, h =>
    by_cases hlast : element < values.length - 1
    · obtain ⟨rfl, rfl⟩ := by simpa [valueDone, hlast] using h
      exact decreases_of_rank rfl (by simp [hstate, State.rank])
    · obtain ⟨rfl, rfl⟩ := by simpa [valueDone, hlast] using h
      rw [Decreases, hstate, hstack]
      exact .right _ (.right _ (by simp))

/-- The turns of `readByte`. -/
inductive Read (c : UInt8) (buffer : Bytes) : Decoder → Turn → Prop where
  | root {p stack} :
    Read c buffer ⟨.valueRootStart, p, stack⟩
      ⟨⟨.valueStart, p, ⟨.null, 0⟩ :: stack⟩, c :: buffer, []⟩
  | type {p current rest state value} (h : startValue c = .ok (state, value)) :
    Read c buffer ⟨.valueStart, p, current :: rest⟩
      ⟨⟨state, ⟨0, false⟩, { current with value := value } :: rest⟩, buffer, []⟩
  | minus {p stack} (h : c = 45) :
    Read c buffer ⟨.integerStart, p, stack⟩
      ⟨⟨.integer, { p with negative := true }, stack⟩, buffer, []⟩
  | digits {p stack} (h : c ≠ 45) :
    Read c buffer ⟨.integerStart, p, stack⟩ ⟨⟨.integer, p, stack⟩, c :: buffer, []⟩
  | integerCR {p stack} (h : c = 13) :
    Read c buffer ⟨.integer, p, stack⟩ ⟨⟨.integerLF, p, stack⟩, buffer, []⟩
  | digit {p : PendingInteger} {stack} (hcr : c ≠ 13) (h : ¬ (c < 48 ∨ 57 < c)) :
    Read c buffer ⟨.integer, p, stack⟩
      ⟨⟨.integer, { p with integer := p.integer * 10 + (c - 48).toUInt64 }, stack⟩, buffer, []⟩
  | integerLF {p current rest d} (hc : c = 10) (h : integerDone p current rest = .ok d) :
    Read c buffer ⟨.integerLF, p, current :: rest⟩ ⟨d, buffer, []⟩
  | body {p : PendingInteger} {current rest value} {n : Nat}
      (hn : n = min p.integer.toNat (buffer.length + 1))
      (h : appendString current.value ((c :: buffer).take n) = .ok value) :
    Read c buffer ⟨.bulkStringBody, p, current :: rest⟩
      ⟨⟨if p.integer - n.toUInt64 = 0 then .cr else .bulkStringBody,
        { p with integer := p.integer - n.toUInt64 }, { current with value := value } :: rest⟩,
        (c :: buffer).drop n, []⟩
  | cr {p stack} (h : c = 13) : Read c buffer ⟨.cr, p, stack⟩ ⟨⟨.lf, p, stack⟩, buffer, []⟩
  | lf {p stack} (h : c = 10) :
    Read c buffer ⟨.lf, p, stack⟩ ⟨⟨.valueComplete, p, stack⟩, buffer, []⟩
  | stringCR {p current rest} (h : c = 13) :
    Read c buffer ⟨.simpleString, p, current :: rest⟩ ⟨⟨.lf, p, current :: rest⟩, buffer, []⟩
  | string {p current rest value} (hc : c ≠ 13) (h : appendString current.value [c] = .ok value) :
    Read c buffer ⟨.simpleString, p, current :: rest⟩
      ⟨⟨.simpleString, p, { current with value := value } :: rest⟩, buffer, []⟩

theorem read_of_readByte {c : UInt8} (h : readByte d c buffer = .ok t) : Read c buffer d t := by
  obtain ⟨state, p, stack⟩ := d
  cases state with
  | valueRootStart =>
    obtain rfl := by simpa [readByte] using h
    exact .root
  | valueStart =>
    cases stack with
    | nil => simp [readByte] at h
    | cons current rest =>
      cases hstart : startValue c with
      | error e => simp [readByte, hstart, bind, Except.bind] at h
      | ok r =>
        obtain rfl := by simpa [readByte, hstart, bind, Except.bind] using h
        exact .type hstart
  | integerStart =>
    by_cases hc : c = 45
    · obtain rfl := by simpa [readByte, hc] using h
      exact .minus hc
    · obtain rfl := by simpa [readByte, hc] using h
      exact .digits hc
  | integer =>
    by_cases hcr : c = 13
    · obtain rfl := by simpa [readByte, hcr] using h
      exact .integerCR hcr
    · by_cases hdigit : c < 48 ∨ 57 < c
      · simp [readByte, hcr, hdigit] at h
      · simp only [readByte, hcr, hdigit, if_false, Except.ok.injEq] at h
        subst h
        exact .digit hcr hdigit
  | integerLF =>
    cases stack with
    | nil => simp [readByte] at h
    | cons current rest =>
      by_cases hc : c = 10
      · cases hdone : integerDone p current rest with
        | error e => simp [readByte, hc, hdone, bind, Except.bind] at h
        | ok d =>
          obtain rfl := by simpa [readByte, hc, hdone, bind, Except.bind] using h
          exact .integerLF hc hdone
      · simp [readByte, hc] at h
  | bulkStringBody =>
    cases stack with
    | nil => simp [readByte] at h
    | cons current rest =>
      cases happend : appendString current.value
          ((c :: buffer).take (min p.integer.toNat (buffer.length + 1))) with
      | error e => simp [readByte, happend, bind, Except.bind] at h
      | ok value =>
        simp only [readByte, happend, bind, Except.bind, Except.ok.injEq] at h
        subst h
        exact .body rfl happend
  | cr =>
    by_cases hc : c = 13
    · obtain rfl := by simpa [readByte, hc] using h
      exact .cr hc
    · simp [readByte, hc] at h
  | lf =>
    by_cases hc : c = 10
    · obtain rfl := by simpa [readByte, hc] using h
      exact .lf hc
    · simp [readByte, hc] at h
  | simpleString =>
    cases stack with
    | nil => simp [readByte] at h
    | cons current rest =>
      by_cases hc : c = 13
      · obtain rfl := by simpa [readByte, hc] using h
        exact .stringCR hc
      · cases happend : appendString current.value [c] with
        | error e => simp [readByte, hc, happend, bind, Except.bind] at h
        | ok value =>
          obtain rfl := by simpa [readByte, hc, happend, bind, Except.bind] using h
          exact .string hc happend
  | valueComplete => simp [readByte] at h

theorem readByte_decreases {c : UInt8} (h : readByte d c buffer = .ok t) :
    Decreases d (c :: buffer) t := by
  cases read_of_readByte h with
  | root | digits => exact decreases_of_rank rfl (by simp [State.rank])
  | @body p _ _ _ n hn =>
    by_cases hzero : p.integer = 0
    · obtain rfl : n = 0 := by simp [hn, hzero]
      exact decreases_of_rank rfl (by simp [hzero, State.rank])
    · have hpos : p.integer.toNat ≠ 0 := fun hnat => hzero (UInt64.toNat_inj.mp hnat)
      exact decreases_of_length (by simp only [length_drop, length_cons]; omega)
  | _ => exact decreases_of_length (by simp)

theorem turn_cases (h : turn d buffer = some (.ok t)) :
    (∃ p current rest d' emitted, d = ⟨.valueComplete, p, current :: rest⟩ ∧
      valueDone p current.value rest = .ok (d', emitted) ∧ t = ⟨d', buffer, emitted⟩) ∨
    ∃ c tail, buffer = c :: tail ∧ readByte d c tail = .ok t := by
  unfold turn at h
  obtain ⟨state, p, stack⟩ := d
  by_cases hstate : state = .valueComplete
  · subst hstate
    cases stack with
    | nil => simp at h
    | cons current rest =>
      cases hdone : valueDone p current.value rest with
      | error e => simp [hdone, bind, Except.bind] at h
      | ok r =>
        obtain rfl := by simpa [hdone, bind, Except.bind] using h
        exact .inl ⟨p, current, rest, r.1, r.2, rfl, hdone, rfl⟩
  · rw [if_neg hstate] at h
    cases buffer with
    | nil => simp at h
    | cons c tail => exact .inr ⟨c, tail, rfl, Option.some.inj h⟩

theorem turn_decreases (h : turn d buffer = some (.ok t)) : Decreases d buffer t := by
  obtain ⟨p, current, rest, d', emitted, rfl, hdone, rfl⟩ | ⟨c, tail, rfl, hread⟩ := turn_cases h
  · exact valueDone_decreases rfl rfl hdone
  · exact readByte_decreases hread

/-- What a stretch of decoding has emitted, and the decoder it leaves or the exception
that ended it. -/
structure Decoded where
  emitted : List RespValue
  result : Except DecodeError Decoder

def Decoded.andThen (x : Decoded) (next : Decoder → Decoded) : Decoded :=
  match x.result with
  | .error e => ⟨x.emitted, .error e⟩
  | .ok d => ⟨x.emitted ++ (next d).emitted, (next d).result⟩

def parseSlice (d : Decoder) (buffer : Bytes) : Decoded :=
  match _h : turn d buffer with
  | none => ⟨[], .ok d⟩
  | some (.error e) => ⟨[], .error e⟩
  | some (.ok t) =>
    ⟨t.emitted ++ (parseSlice t.decoder t.buffer).emitted, (parseSlice t.decoder t.buffer).result⟩
termination_by (buffer.length, d.state.rank, d.stack.length)
decreasing_by all_goals exact turn_decreases _h

def decode (d : Decoder) : List Bytes → Decoded
  | [] => ⟨[], .ok d⟩
  | slice :: slices => (parseSlice d slice).andThen fun d => decode d slices

/-- Calls of `decode`, one after the other until one throws. -/
def decodeCalls (d : Decoder) : List (List Bytes) → Decoded
  | [] => ⟨[], .ok d⟩
  | slices :: calls => (decode d slices).andThen fun d => decodeCalls d calls

/-- The state between two values. The pending integer is not initialised in the source
and is reset when a value starts. -/
def Decoder.Initial (d : Decoder) : Prop := d.state = .valueRootStart ∧ d.stack = []

end Meliproxy.Envoy.Redis
