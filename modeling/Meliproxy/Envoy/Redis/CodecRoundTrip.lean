import Meliproxy.Envoy.Redis.CodecSegments

/-!
# Decoding what was encoded

The decoder takes the bytes of a value from `valueStart` to `valueComplete` and leaves
that value on top of its stack, whatever lies below. In the other direction an invariant
says what it can have on its stack, so that everything it emits can be encoded.
-/

namespace Meliproxy.Envoy.Redis

open Lib List

theorem toNat_digit (k : Nat) : (48 + k % 10).toUInt8.toNat = 48 + k % 10 := by
  simp only [Nat.toUInt8, UInt8.toNat_ofNat']
  omega

theorem mem_itoaLoop (n : Nat) : ∀ b ∈ itoaLoop n, 48 ≤ b.toNat ∧ b.toNat ≤ 57 := by
  have hdigit : 48 ≤ (48 + n % 10).toUInt8.toNat ∧ (48 + n % 10).toUInt8.toNat ≤ 57 := by
    rw [toNat_digit]
    omega
  intro b hb
  rw [itoaLoop] at hb
  split at hb
  · obtain rfl := mem_singleton.mp hb
    exact hdigit
  · rcases mem_cons.mp hb with rfl | hb
    · exact hdigit
    · exact mem_itoaLoop (n / 10) b hb
termination_by n

theorem readDecimal_itoaLoop (n : Nat) : readDecimal (itoaLoop n).reverse 0 = n := by
  rw [itoaLoop]
  split
  · next h =>
    simp only [reverse_singleton, readDecimal, foldl_cons, foldl_nil, toNat_digit]
    omega
  · have ih := readDecimal_itoaLoop (n / 10)
    simp only [readDecimal] at ih
    simp only [reverse_cons, readDecimal, foldl_append, foldl_cons, foldl_nil, toNat_digit, ih]
    omega
termination_by n

theorem itoaLoop_ne_nil (n : Nat) : itoaLoop n ≠ [] := by
  rw [itoaLoop]
  split <;> simp

theorem toInt64_nonneg (i : Int64) : (PendingInteger.mk i.toUInt64 false).toInt64 = i := by
  simp [PendingInteger.toInt64]

theorem toInt64_negative (i : Int64) (h : ¬ 0 ≤ i) :
    (PendingInteger.mk (((i + 1) * -1).toUInt64 + 1) true).toInt64 = i := by
  have hback : (((i + 1) * -1).toUInt64 + 1 - 1).toInt64 = (i + 1) * -1 := by
    rw [UInt64.add_sub_cancel]
    exact Int64.toInt64_toUInt64 _
  by_cases hzero : ((i + 1) * -1).toUInt64 + 1 = 0
  · have hone : ((0 : UInt64) - 1).toInt64 = -1 := by decide
    rw [hzero, hone] at hback
    have hi : i = 0 := by grind
    exact absurd (by rw [hi]; decide) h
  · simp only [PendingInteger.toInt64, hzero, Bool.true_eq_false, or_self, if_false, hback]
    grind

theorem parseSlice_digit (p : PendingInteger) (stack : List PendingValue) (acc : Nat) (c : UInt8)
    (tail : Bytes) (hp : p.integer = UInt64.ofNat acc) (hc : 48 ≤ c.toNat ∧ c.toNat ≤ 57) :
    parseSlice ⟨.integer, p, stack⟩ (c :: tail) =
      parseSlice ⟨.integer, ⟨UInt64.ofNat (10 * acc + (c.toNat - 48)), p.negative⟩, stack⟩ tail := by
  have hcr : c ≠ 13 := by
    rintro rfl
    simp at hc
  have hrange : ¬ (c < 48 ∨ 57 < c) := by
    rw [UInt8.lt_iff_toNat_lt, UInt8.lt_iff_toNat_lt]
    simp only [UInt8.reduceToNat]
    omega
  have hvalue : p.integer * 10 + (c - 48).toUInt64 = UInt64.ofNat (10 * acc + (c.toNat - 48)) := by
    have hsub : (c - 48).toNat = c.toNat - 48 :=
      UInt8.toNat_sub_of_le _ _ (by rw [UInt8.le_iff_toNat_le]; exact hc.1)
    have hdigit : (c - 48).toUInt64 = UInt64.ofNat (c.toNat - 48) := by
      rw [← hsub, UInt64.ofNat_uInt8ToNat]
    rw [hp, hdigit, UInt64.ofNat_add, UInt64.ofNat_mul, UInt64.mul_comm]
    rfl
  apply parseSlice_read (by simp)
  simp only [readByte, hcr, hrange, if_false, hvalue]

theorem parseSlice_digits (negative : Bool) (stack : List PendingValue) (digits : Bytes)
    (hdigits : ∀ c ∈ digits, 48 ≤ c.toNat ∧ c.toNat ≤ 57) (acc : Nat) (tail : Bytes) :
    parseSlice ⟨.integer, ⟨UInt64.ofNat acc, negative⟩, stack⟩ (digits ++ tail) =
      parseSlice ⟨.integer, ⟨UInt64.ofNat (readDecimal digits acc), negative⟩, stack⟩ tail := by
  induction digits generalizing acc with
  | nil => rfl
  | cons c digits ih =>
    rw [cons_append, parseSlice_digit _ stack acc c _ rfl (hdigits c (by simp)),
      ih (fun c hc => hdigits c (by simp [hc]))]
    rfl

theorem parseSlice_integerLine (n : UInt64) (negative : Bool) (current : PendingValue)
    (rest : List PendingValue) (d : Decoder) (tail : Bytes)
    (h : integerDone ⟨n, negative⟩ current rest = .ok d) :
    parseSlice ⟨.integerStart, ⟨0, false⟩, current :: rest⟩
        ((if negative then [45] else []) ++ itoa n ++ crlf ++ tail) = parseSlice d tail := by
  have hdigits : ∀ c ∈ itoa n, 48 ≤ c.toNat ∧ c.toNat ≤ 57 := by
    intro c hc
    exact mem_itoaLoop n.toNat c (mem_reverse.mp hc)
  have hstart : parseSlice ⟨.integerStart, ⟨0, false⟩, current :: rest⟩
      ((if negative then [45] else []) ++ itoa n ++ crlf ++ tail) =
      parseSlice ⟨.integer, ⟨UInt64.ofNat 0, negative⟩, current :: rest⟩ (itoa n ++ (crlf ++ tail)) := by
    cases negative with
    | true =>
      simp only [if_true, cons_append, nil_append, append_assoc]
      apply parseSlice_read (by simp)
      simp only [readByte, if_true]
      rfl
    | false =>
      cases hitoa : itoa n with
      | nil =>
        have := itoaLoop_ne_nil n.toNat
        simp only [itoa, reverse_eq_nil_iff] at hitoa
        exact absurd hitoa this
      | cons c digits =>
        have hminus : c ≠ 45 := by
          intro hc
          have := (hdigits c (by rw [hitoa]; simp)).1
          rw [hc] at this
          simp at this
        simp only [Bool.false_eq_true, if_false, cons_append, nil_append, append_assoc]
        apply parseSlice_read (by simp)
        simp only [readByte, if_neg hminus]
        rfl
  have hread : readDecimal (itoa n) 0 = n.toNat := readDecimal_itoaLoop n.toNat
  rw [hstart, parseSlice_digits negative _ _ hdigits, hread, UInt64.ofNat_toNat]
  have hcr : readByte ⟨.integer, ⟨n, negative⟩, current :: rest⟩ 13 (10 :: tail) =
      .ok ⟨⟨.integerLF, ⟨n, negative⟩, current :: rest⟩, 10 :: tail, []⟩ := by simp [readByte]
  have hlf : readByte ⟨.integerLF, ⟨n, negative⟩, current :: rest⟩ 10 tail = .ok ⟨d, tail, []⟩ := by
    simp [readByte, h, bind, Except.bind]
  exact (parseSlice_read (by simp) hcr).trans (parseSlice_read (by simp) hlf)

mutual

/-- Sizes that fit a `size_t`, and no carriage return in simple strings and errors. -/
def RespValue.Valid : RespValue → Prop
  | .null => True
  | .integer _ => True
  | .simpleString s => 13 ∉ s
  | .error s => 13 ∉ s
  | .bulkString s => s.length < 2 ^ 64
  | .array values => values.length < 2 ^ 64 ∧ AllValid values

def AllValid : List RespValue → Prop
  | [] => True
  | value :: values => value.Valid ∧ AllValid values

end

variable (s : Bytes) (values : List RespValue)

theorem allValid_iff : AllValid values ↔ ∀ value ∈ values, value.Valid := by
  induction values with
  | nil => simp [AllValid]
  | cons value values ih => simp [AllValid, ih]

/-- From the start of a value to its end, with the value on top of the stack. -/
def Reads (value : RespValue) : Prop :=
  ∀ (p : PendingInteger) (rest : List PendingValue) (tail : Bytes), ∃ p' element,
    parseSlice ⟨.valueStart, p, ⟨.null, 0⟩ :: rest⟩ (encode value ++ tail) =
      parseSlice ⟨.valueComplete, p', ⟨value, element⟩ :: rest⟩ tail

theorem parseSlice_start {c : UInt8} {state : State} {value : RespValue}
    (h : startValue c = .ok (state, value)) (p : PendingInteger) (current : PendingValue)
    (rest : List PendingValue) (tail : Bytes) :
    parseSlice ⟨.valueStart, p, current :: rest⟩ (c :: tail) =
      parseSlice ⟨state, ⟨0, false⟩, { current with value := value } :: rest⟩ tail := by
  apply parseSlice_read (by simp)
  simp [readByte, h, bind, Except.bind]

theorem reads_integer_of_pending (i : Int64) (n : UInt64) (negative : Bool)
    (hvalue : (PendingInteger.mk n negative).toInt64 = i)
    (hencode : encodeInteger i = 58 :: ((if negative then [45] else []) ++ itoa n ++ crlf)) :
    Reads (.integer i) := by
  intro p rest tail
  have hstart : startValue 58 = .ok (.integerStart, .integer 0) := rfl
  have hline := parseSlice_integerLine n negative ⟨.integer 0, 0⟩ rest _ tail rfl
  rw [hvalue] at hline
  refine ⟨⟨n, negative⟩, 0, ?_⟩
  rw [encode, hencode, cons_append, parseSlice_start hstart, hline]

theorem signedLine (n : UInt64) :
    58 :: 45 :: itoa n ++ crlf = 58 :: ((if true then [45] else []) ++ itoa n ++ crlf) := by
  simp

theorem reads_integer (i : Int64) : Reads (.integer i) := by
  by_cases hi : 0 ≤ i
  · have hencode : encodeInteger i = 58 :: itoa i.toUInt64 ++ crlf := by
      rw [encodeInteger, if_pos hi]
    exact reads_integer_of_pending i _ false (toInt64_nonneg i) hencode
  · have hencode : encodeInteger i = 58 :: 45 :: itoa (((i + 1) * -1).toUInt64 + 1) ++ crlf := by
      rw [encodeInteger, if_neg hi]
    exact reads_integer_of_pending i _ true (toInt64_negative i hi) (hencode.trans (signedLine _))

theorem reads_null : Reads .null := by
  intro p rest tail
  refine ⟨⟨1, true⟩, 0, ?_⟩
  have hline := parseSlice_integerLine 1 true ⟨.bulkString [], 0⟩ rest _ tail rfl
  have hone : itoa 1 = [49] := by simp [itoa, itoaLoop]
  rw [hone] at hline
  change parseSlice _ (36 :: (45 :: 49 :: 13 :: 10 :: tail)) = _
  rw [parseSlice_start rfl]
  exact hline

theorem parseSlice_lf (p : PendingInteger) (stack : List PendingValue) (tail : Bytes) :
    parseSlice ⟨.lf, p, stack⟩ (10 :: tail) = parseSlice ⟨.valueComplete, p, stack⟩ tail := by
  apply parseSlice_read (by simp)
  simp [readByte]

theorem parseSlice_line (wrap : Bytes → RespValue)
    (happend : ∀ s bytes, appendString (wrap s) bytes = .ok (wrap (s ++ bytes)))
    (p : PendingInteger) (element : Nat) (rest : List PendingValue) (tail : Bytes) (s done : Bytes)
    (hs : 13 ∉ s) :
    parseSlice ⟨.simpleString, p, ⟨wrap done, element⟩ :: rest⟩ (s ++ (crlf ++ tail)) =
      parseSlice ⟨.valueComplete, p, ⟨wrap (done ++ s), element⟩ :: rest⟩ tail := by
  induction s generalizing done with
  | nil =>
    have hcr : readByte ⟨.simpleString, p, ⟨wrap done, element⟩ :: rest⟩ 13 (10 :: tail) =
        .ok ⟨⟨.lf, p, ⟨wrap done, element⟩ :: rest⟩, 10 :: tail, []⟩ := by simp [readByte]
    rw [append_nil]
    exact (parseSlice_read (by simp) hcr).trans (parseSlice_lf _ _ _)
  | cons c s ih =>
    have hc : c ≠ 13 := fun h => hs (by simp [h])
    have hread : readByte ⟨.simpleString, p, ⟨wrap done, element⟩ :: rest⟩ c (s ++ (crlf ++ tail)) =
        .ok ⟨⟨.simpleString, p, ⟨wrap (done ++ [c]), element⟩ :: rest⟩, s ++ (crlf ++ tail), []⟩ := by
      simp [readByte, hc, happend, bind, Except.bind]
    rw [cons_append, parseSlice_read (by simp) hread, ih (done ++ [c]) (fun h => hs (by simp [h])),
      append_assoc]
    rfl

theorem reads_simpleString (hs : 13 ∉ s) : Reads (.simpleString s) := by
  intro p rest tail
  have hstart : startValue 43 = .ok (.simpleString, .simpleString []) := rfl
  refine ⟨⟨0, false⟩, 0, ?_⟩
  rw [encode, encodeSimpleString, cons_append, cons_append, append_assoc, parseSlice_start hstart]
  exact parseSlice_line .simpleString (fun _ _ => rfl) _ 0 rest tail s [] hs

theorem reads_error (hs : 13 ∉ s) : Reads (.error s) := by
  intro p rest tail
  have hstart : startValue 45 = .ok (.simpleString, .error []) := rfl
  refine ⟨⟨0, false⟩, 0, ?_⟩
  rw [encode, encodeError, cons_append, cons_append, append_assoc, parseSlice_start hstart]
  exact parseSlice_line .error (fun _ _ => rfl) _ 0 rest tail s [] hs

theorem toNat_length (n : Nat) (h : n < 2 ^ 64) : n.toUInt64.toNat = n :=
  UInt64.toNat_ofNat_of_lt h

theorem parseSlice_body (hs : s.length < 2 ^ 64) (element : Nat)
    (rest : List PendingValue) (tail : Bytes) :
    parseSlice ⟨.bulkStringBody, ⟨s.length.toUInt64, false⟩, ⟨.bulkString [], element⟩ :: rest⟩
        (s ++ (crlf ++ tail)) =
      parseSlice ⟨.valueComplete, ⟨0, false⟩, ⟨.bulkString s, element⟩ :: rest⟩ tail := by
  have hlen := toNat_length s.length hs
  obtain ⟨c, buffer, hbuffer⟩ : ∃ c buffer, s ++ (crlf ++ tail) = c :: buffer := by
    cases s with
    | nil => exact ⟨13, 10 :: tail, rfl⟩
    | cons c s => exact ⟨c, s ++ (crlf ++ tail), rfl⟩
  have hmin : min s.length.toUInt64.toNat (buffer.length + 1) = s.length := by
    have hlong := congrArg List.length hbuffer
    simp only [length_append, length_cons] at hlong
    omega
  have htake : (c :: buffer).take s.length = s := by
    rw [← hbuffer, take_left]
  have hdrop : (c :: buffer).drop s.length = crlf ++ tail := by
    rw [← hbuffer, drop_left]
  have hread : readByte ⟨.bulkStringBody, ⟨s.length.toUInt64, false⟩,
      ⟨.bulkString [], element⟩ :: rest⟩ c buffer =
      .ok ⟨⟨.cr, ⟨0, false⟩, ⟨.bulkString s, element⟩ :: rest⟩, crlf ++ tail, []⟩ := by
    simp only [readByte, hmin, htake, hdrop, appendString, bind, Except.bind, nil_append,
      UInt64.sub_self, if_true]
  have hcr : readByte ⟨.cr, ⟨0, false⟩, ⟨.bulkString s, element⟩ :: rest⟩ 13 (10 :: tail) =
      .ok ⟨⟨.lf, ⟨0, false⟩, ⟨.bulkString s, element⟩ :: rest⟩, 10 :: tail, []⟩ := by
    simp [readByte]
  rw [hbuffer, parseSlice_read (by simp) hread]
  exact (parseSlice_read (by simp) hcr).trans (parseSlice_lf _ _ _)

theorem reads_bulkString (hs : s.length < 2 ^ 64) : Reads (.bulkString s) := by
  intro p rest tail
  have hstart : startValue 36 = .ok (.integerStart, .bulkString []) := rfl
  have hline := parseSlice_integerLine s.length.toUInt64 false ⟨.bulkString [], 0⟩ rest _
    (s ++ (crlf ++ tail)) rfl
  refine ⟨⟨0, false⟩, 0, ?_⟩
  rw [← parseSlice_body s hs 0 rest tail, encode, encodeBulkString]
  simp only [cons_append, append_assoc]
  rw [parseSlice_start hstart]
  simpa only [Bool.false_eq_true, if_false, nil_append, append_assoc] using hline

theorem parseSlice_complete {p : PendingInteger} {current : PendingValue}
    {rest : List PendingValue} {d : Decoder} {emitted : List RespValue} (tail : Bytes)
    (h : valueDone p current.value rest = .ok (d, emitted)) :
    parseSlice ⟨.valueComplete, p, current :: rest⟩ tail =
      ⟨emitted ++ (parseSlice d tail).emitted, (parseSlice d tail).result⟩ :=
  parseSlice_of_ok (t := ⟨d, tail, emitted⟩) (by simp [turn, h, bind, Except.bind])

theorem parseSlice_elements (hreads : ∀ value ∈ values, Reads value)
    (hne : values ≠ []) (done : List RespValue) (p : PendingInteger) (rest : List PendingValue)
    (tail : Bytes) : ∃ p' element, parseSlice ⟨.valueStart, p, ⟨.null, 0⟩ ::
        ⟨.array (done ++ List.replicate values.length .null), done.length⟩ :: rest⟩
        (encodeAll values ++ tail) =
      parseSlice ⟨.valueComplete, p', ⟨.array (done ++ values), element⟩ :: rest⟩ tail := by
  induction values generalizing done p with
  | nil => exact absurd rfl hne
  | cons value values ih =>
    obtain ⟨p₁, element, hvalue⟩ := hreads value (by simp) p
      (⟨.array (done ++ List.replicate (value :: values).length .null), done.length⟩ :: rest)
      (encodeAll values ++ tail)
    have hset : (done ++ List.replicate (value :: values).length RespValue.null).set done.length
        value = (done ++ [value]) ++ List.replicate values.length RespValue.null := by
      simp [replicate_succ]
    rw [encodeAll, append_assoc, hvalue]
    cases values with
    | nil =>
      have hdone : valueDone p₁ value
          (⟨.array (done ++ List.replicate [value].length .null), done.length⟩ :: rest) =
          .ok (⟨.valueComplete, p₁, ⟨.array (done ++ [value]), done.length⟩ :: rest⟩, []) := by
        simp [valueDone]
      exact ⟨p₁, done.length, by rw [parseSlice_complete _ hdone]; rfl⟩
    | cons next values =>
      have hdone : valueDone p₁ value
          (⟨.array (done ++ List.replicate (value :: next :: values).length .null), done.length⟩ ::
            rest) =
          .ok (⟨.valueStart, p₁, ⟨.null, 0⟩ :: ⟨.array ((done ++ [value]) ++
            List.replicate (next :: values).length .null), (done ++ [value]).length⟩ :: rest⟩, []) := by
        simp only [valueDone, hset]
        simp
      obtain ⟨p₂, element', hnext⟩ := ih (fun v hv => hreads v (by simp [hv])) (by simp)
        (done ++ [value]) p₁
      refine ⟨p₂, element', ?_⟩
      rw [parseSlice_complete _ hdone, nil_append]
      simpa using hnext

theorem reads_array (hreads : ∀ value ∈ values, Reads value)
    (hlen : values.length < 2 ^ 64) : Reads (.array values) := by
  intro p rest tail
  have hstart : startValue 42 = .ok (.integerStart, .array []) := rfl
  have hnat := toNat_length values.length hlen
  have hencode : encode (.array values) ++ tail =
      42 :: ((if false = true then [45] else []) ++ itoa values.length.toUInt64 ++ crlf ++
        (encodeAll values ++ tail)) := by
    simp [encode]
  rw [hencode, parseSlice_start hstart]
  by_cases hnil : values = []
  · subst hnil
    refine ⟨⟨0, false⟩, 0, ?_⟩
    exact parseSlice_integerLine 0 false ⟨.array [], 0⟩ rest _ tail rfl
  · have hne : values.length.toUInt64 ≠ 0 := by
      intro hzero
      rw [hzero] at hnat
      exact hnil (length_eq_zero_iff.mp hnat.symm)
    have hdone : integerDone ⟨values.length.toUInt64, false⟩ ⟨.array [], 0⟩ rest =
        .ok ⟨.valueStart, ⟨values.length.toUInt64, false⟩, ⟨.null, 0⟩ ::
          ⟨.array (List.replicate values.length .null), 0⟩ :: rest⟩ := by
      simp [integerDone, if_neg hne, hnat]
    rw [parseSlice_integerLine _ _ _ _ _ _ hdone]
    exact parseSlice_elements values hreads hnil [] _ rest tail

mutual

theorem reads_of_valid : (value : RespValue) → value.Valid → Reads value
  | .null, _ => reads_null
  | .integer i, _ => reads_integer i
  | .simpleString s, h => reads_simpleString s h
  | .error s, h => reads_error s h
  | .bulkString s, h => reads_bulkString s h
  | .array values, h => reads_array values (reads_of_allValid values h.2) h.1

theorem reads_of_allValid : (values : List RespValue) → AllValid values →
    ∀ value ∈ values, Reads value
  | [], _ => by simp
  | first :: values, h => by
    intro value hvalue
    rcases mem_cons.mp hvalue with hfirst | hvalue
    · rw [hfirst]
      exact reads_of_valid first h.1
    · exact reads_of_allValid values h.2 value hvalue

end

theorem encode_eq_cons (value : RespValue) : ∃ c bytes, encode value = c :: bytes := by
  cases value with
  | null => exact ⟨_, _, rfl⟩
  | integer i =>
    rw [encode, encodeInteger]
    split
    · exact ⟨_, _, rfl⟩
    · exact ⟨_, _, rfl⟩
  | simpleString s =>
    rw [encode, encodeSimpleString]
    exact ⟨_, _, rfl⟩
  | error s =>
    rw [encode, encodeError]
    exact ⟨_, _, rfl⟩
  | bulkString s =>
    rw [encode, encodeBulkString]
    exact ⟨_, _, rfl⟩
  | array values =>
    rw [encode]
    exact ⟨_, _, rfl⟩

theorem parseSlice_encodeAll (values : List RespValue) (h : AllValid values) (d : Decoder)
    (hd : d.Initial) : ∃ d', d'.Initial ∧ parseSlice d (encodeAll values) = ⟨values, .ok d'⟩ := by
  induction values generalizing d with
  | nil =>
    refine ⟨d, hd, ?_⟩
    rw [encodeAll, parseSlice_of_none (turn_nil (by rw [hd.1]; decide))]
  | cons value values ih =>
    obtain ⟨state, p, stack⟩ := d
    obtain ⟨rfl, rfl⟩ : state = .valueRootStart ∧ stack = [] := hd
    obtain ⟨c, bytes, hbytes⟩ := encode_eq_cons value
    have hroot : readByte ⟨.valueRootStart, p, []⟩ c (bytes ++ encodeAll values) =
        .ok ⟨⟨.valueStart, p, [⟨.null, 0⟩]⟩, c :: (bytes ++ encodeAll values), []⟩ := rfl
    obtain ⟨p', element, hvalue⟩ := reads_of_valid value h.1 p [] (encodeAll values)
    obtain ⟨d', hd', hrest⟩ := ih h.2 ⟨.valueRootStart, p', []⟩ ⟨rfl, rfl⟩
    refine ⟨d', hd', ?_⟩
    rw [hbytes, cons_append] at hvalue
    rw [encodeAll, hbytes, cons_append, parseSlice_read (by simp) hroot, hvalue,
      parseSlice_complete _ rfl, hrest]
    rfl

/-- The value under construction, by the state that is reading it. -/
def Holds (p : PendingInteger) (value : RespValue) : State → Prop
  | .valueRootStart => False
  | .valueStart => True
  | .integerStart | .integer | .integerLF =>
    value = .array [] ∨ value = .bulkString [] ∨ ∃ i, value = .integer i
  | .bulkStringBody => ∃ s, value = .bulkString s ∧ s.length + p.integer.toNat < 2 ^ 64
  | .simpleString => ∃ s, 13 ∉ s ∧ (value = .simpleString s ∨ value = .error s)
  | .cr | .lf | .valueComplete => value.Valid

def FrameOk (frame : PendingValue) : Prop :=
  ∃ values, frame.value = .array values ∧ values.length < 2 ^ 64 ∧ AllValid values

/-- The invariant of the decoder: between values, or with arrays of valid values below
the value that it is reading. -/
inductive Ok : Decoder → Prop where
  | initial (p : PendingInteger) : Ok ⟨.valueRootStart, p, []⟩
  | reading {state : State} {p : PendingInteger} {current : PendingValue}
      {rest : List PendingValue} (hcurrent : Holds p current.value state)
      (hrest : ∀ frame ∈ rest, FrameOk frame) : Ok ⟨state, p, current :: rest⟩

theorem allValid_set (values : List RespValue) (i : Nat) (value : RespValue)
    (h : AllValid values) (hvalue : value.Valid) : AllValid (values.set i value) := by
  rw [allValid_iff] at h ⊢
  intro v hv
  rcases mem_or_eq_of_mem_set hv with hv | rfl
  · exact h v hv
  · exact hvalue

theorem allValid_replicate (n : Nat) : AllValid (List.replicate n .null) := by
  rw [allValid_iff]
  intro v hv
  rw [eq_of_mem_replicate hv]
  trivial

variable {p : PendingInteger} {value : RespValue} {rest : List PendingValue} {d : Decoder}

theorem valueDone_ok {emitted : List RespValue} (h : valueDone p value rest = .ok (d, emitted))
    (hvalue : value.Valid) (hrest : ∀ frame ∈ rest, FrameOk frame) : Ok d ∧ AllValid emitted := by
  match rest, h, hrest with
  | [], h, _ =>
    obtain ⟨rfl, rfl⟩ := by simpa [valueDone] using h
    exact ⟨.initial p, hvalue, trivial⟩
  | ⟨.array values, element⟩ :: rest, h, hrest =>
    obtain ⟨values', hvalues, hlen, hall⟩ := hrest ⟨.array values, element⟩ (by simp)
    obtain rfl : values = values' := RespValue.array.inj hvalues
    have hlen' : (values.set element value).length < 2 ^ 64 := by simpa using hlen
    have hset := allValid_set values element value hall hvalue
    have hrest' : ∀ frame ∈ rest, FrameOk frame := fun frame hframe => hrest frame (by simp [hframe])
    by_cases hlast : element < values.length - 1
    · obtain ⟨rfl, rfl⟩ := by simpa [valueDone, hlast] using h
      refine ⟨.reading trivial ?_, trivial⟩
      intro frame hframe
      rcases mem_cons.mp hframe with rfl | hframe
      · exact ⟨_, rfl, hlen', hset⟩
      · exact hrest' frame hframe
    · obtain ⟨rfl, rfl⟩ := by simpa [valueDone, hlast] using h
      exact ⟨.reading ⟨hlen', hset⟩ hrest', trivial⟩

theorem integerDone_ok {current : PendingValue} (h : integerDone p current rest = .ok d)
    (hcurrent : Holds p current.value .integerLF) (hrest : ∀ frame ∈ rest, FrameOk frame) :
    Ok d := by
  obtain ⟨value, element⟩ := current
  rcases hcurrent with rfl | rfl | ⟨i, rfl⟩
  · by_cases hnegative : p.negative = true
    · obtain rfl := by simpa [integerDone, hnegative] using h
      exact .reading trivial hrest
    · by_cases hzero : p.integer = 0
      · obtain rfl := by simpa [integerDone, hnegative, hzero] using h
        exact .reading ⟨by simp, trivial⟩ hrest
      · obtain rfl := by simpa [integerDone, hnegative, hzero] using h
        refine .reading trivial ?_
        intro frame hframe
        rcases mem_cons.mp hframe with rfl | hframe
        · exact ⟨_, rfl, by simpa using p.integer.toNat_lt, allValid_replicate _⟩
        · exact hrest frame hframe
  · by_cases hnegative : p.negative = true
    · obtain rfl := by simpa [integerDone, hnegative] using h
      exact .reading trivial hrest
    · obtain rfl := by simpa [integerDone, hnegative] using h
      exact .reading ⟨[], rfl, by simpa using p.integer.toNat_lt⟩ hrest
  · obtain rfl := by simpa [integerDone] using h
    exact .reading trivial hrest

variable {c : UInt8}

theorem startValue_holds {state : State} (p : PendingInteger)
    (h : startValue c = .ok (state, value)) : Holds p value state := by
  unfold startValue at h
  split at h
  · cases h
    exact .inl rfl
  split at h
  · cases h
    exact .inr (.inl rfl)
  split at h
  · cases h
    exact ⟨[], by simp, .inr rfl⟩
  split at h
  · cases h
    exact ⟨[], by simp, .inl rfl⟩
  split at h
  · cases h
    exact .inr (.inr ⟨0, rfl⟩)
  · cases h

variable {value' : RespValue}

theorem holds_simpleString_append (hc : c ≠ 13) (h : Holds p value .simpleString)
    (happend : appendString value [c] = .ok value') : Holds p value' .simpleString := by
  obtain ⟨s, hs, rfl | rfl⟩ := h
  · obtain rfl := by simpa [appendString] using happend
    exact ⟨s ++ [c], by simp [hs, Ne.symm hc], .inl rfl⟩
  · obtain rfl := by simpa [appendString] using happend
    exact ⟨s ++ [c], by simp [hs, Ne.symm hc], .inr rfl⟩

theorem holds_body {bytes : Bytes} {k : Nat} (h : Holds p value .bulkStringBody)
    (hk : k ≤ p.integer.toNat) (hbytes : bytes.length ≤ k)
    (happend : appendString value bytes = .ok value') :
    Holds { p with integer := p.integer - k.toUInt64 } value'
      (if p.integer - k.toUInt64 = 0 then .cr else .bulkStringBody) := by
  obtain ⟨s, rfl, hlen⟩ := h
  obtain rfl := by simpa [appendString] using happend
  have hsub := toNat_sub_toUInt64 p.integer k hk
  split
  · change (s ++ bytes).length < 2 ^ 64
    rw [length_append]
    omega
  · refine ⟨s ++ bytes, rfl, ?_⟩
    rw [length_append]
    change s.length + bytes.length + (p.integer - k.toUInt64).toNat < 2 ^ 64
    omega

variable {buffer : Bytes}

theorem readByte_ok {t : Turn} (hd : Ok d) (h : readByte d c buffer = .ok t) :
    Ok t.decoder ∧ AllValid t.emitted := by
  cases hd with
  | initial p =>
    cases read_of_readByte h
    exact ⟨.reading trivial (by simp), trivial⟩
  | reading hcurrent hrest =>
    cases read_of_readByte h with
    | root => exact absurd hcurrent id
    | type hstart => exact ⟨.reading (startValue_holds _ hstart) hrest, trivial⟩
    | minus | digits | integerCR | digit => exact ⟨.reading hcurrent hrest, trivial⟩
    | integerLF _ hdone => exact ⟨integerDone_ok hdone hcurrent hrest, trivial⟩
    | body hn happend =>
      refine ⟨.reading (holds_body hcurrent (by omega) ?_ happend) hrest, trivial⟩
      exact length_take_le _ _
    | cr | lf => exact ⟨.reading hcurrent hrest, trivial⟩
    | stringCR =>
      refine ⟨.reading ?_ hrest, trivial⟩
      obtain ⟨s, hs, hvalue | hvalue⟩ := hcurrent <;> rw [hvalue] <;> exact hs
    | string hc happend =>
      exact ⟨.reading (holds_simpleString_append hc hcurrent happend) hrest, trivial⟩

theorem turn_ok {t : Turn} (hd : Ok d) (h : turn d buffer = some (.ok t)) :
    Ok t.decoder ∧ AllValid t.emitted := by
  obtain ⟨p, current, rest, d', emitted, rfl, hdone, rfl⟩ | ⟨c, tail, rfl, hread⟩ := turn_cases h
  · cases hd with
    | reading hcurrent hrest => exact valueDone_ok hdone hcurrent hrest
  · exact readByte_ok hd hread

theorem parseSlice_emitted_valid (d : Decoder) (buffer : Bytes) (hd : Ok d) :
    AllValid (parseSlice d buffer).emitted := by
  induction d, buffer using parseSlice.induct with
  | case1 d buffer h =>
    rw [parseSlice_of_none h]
    trivial
  | case2 d buffer e h =>
    rw [parseSlice_of_error h]
    trivial
  | case3 d buffer t h ih =>
    obtain ⟨hok, hemitted⟩ := turn_ok hd h
    have hrest := ih hok
    rw [parseSlice_of_ok h]
    rw [allValid_iff] at hemitted hrest ⊢
    intro value hvalue
    rcases mem_append.mp hvalue with hvalue | hvalue
    · exact hemitted value hvalue
    · exact hrest value hvalue

/-- However the bytes of a sequence of values are cut into slices and calls, the decoder
emits these values and is back in its initial state. -/
theorem decodeCalls_encodeAll (values : List RespValue) (h : AllValid values)
    (calls : List (List Bytes)) (hcalls : calls.flatten.flatten = encodeAll values) (d : Decoder)
    (hd : d.Initial) : ∃ d', d'.Initial ∧ decodeCalls d calls = ⟨values, .ok d'⟩ := by
  rw [decodeCalls_eq_parseSlice calls d (by rw [hd.1]; decide), hcalls]
  exact parseSlice_encodeAll values h d hd

theorem decodeCalls_emitted_valid (calls : List (List Bytes)) (d : Decoder) (hd : d.Initial) :
    AllValid (decodeCalls d calls).emitted := by
  obtain ⟨state, p, stack⟩ := d
  obtain ⟨rfl, rfl⟩ : state = .valueRootStart ∧ stack = [] := hd
  rw [decodeCalls_eq_parseSlice calls _ (by simp)]
  exact parseSlice_emitted_valid _ _ (.initial p)

/-- The round trip in both directions, under any segmentation. -/
theorem codec_roundTrip (d : Decoder) (hd : d.Initial) :
    (∀ (values : List RespValue) (calls : List (List Bytes)), AllValid values →
      calls.flatten.flatten = encodeAll values →
        ∃ d', d'.Initial ∧ decodeCalls d calls = ⟨values, .ok d'⟩) ∧
    ∀ (input : List (List Bytes)) (value : RespValue), value ∈ (decodeCalls d input).emitted →
      ∀ calls : List (List Bytes), calls.flatten.flatten = encode value →
        ∃ d', d'.Initial ∧ decodeCalls d calls = ⟨[value], .ok d'⟩ := by
  constructor
  · intro values calls hvalid hcalls
    exact decodeCalls_encodeAll values hvalid calls hcalls d hd
  · intro input value hvalue calls hcalls
    have hvalid := (allValid_iff _).mp (decodeCalls_emitted_valid input d hd) value hvalue
    have hone : calls.flatten.flatten = encodeAll [value] := by
      rw [hcalls, encodeAll, encodeAll, append_nil]
    exact decodeCalls_encodeAll [value] ⟨hvalid, trivial⟩ calls hone d hd

/-- A nested array cut after its fifth byte. -/
theorem codec_roundTrip_nested :
    let value := RespValue.array [.bulkString (ascii "a"), .array [.null, .integer 7]]
    ∃ d', d'.Initial ∧ decodeCalls ⟨.valueRootStart, ⟨0, false⟩, []⟩
      [[(encode value).take 5], [(encode value).drop 5]] = ⟨[value], .ok d'⟩ := by
  intro value
  refine (codec_roundTrip ⟨.valueRootStart, ⟨0, false⟩, []⟩ ⟨rfl, rfl⟩).1 [value] _ ?_ ?_
  · simp [AllValid, RespValue.Valid, value, ascii]
  · simp [encodeAll]

end Meliproxy.Envoy.Redis
