import Meliproxy.Logs.AccessLog

/-!
# What the log reader understands

The reader gets back the values of a request exactly when `Readable` holds of them: no client
has put a quote into a header or a path, the texts are UTF-8, the two counts are doubles, and
the upstream time is a number or does not begin like one.
-/

namespace Meliproxy.Logs

open Lib List Envoy.Http Envoy.Http.AccessLog

theorem isDigit_or_minus {v : Bytes} {n : Int} (h : numeric v = some n) :
    ∀ b ∈ v, 34 < b ∧ b < 0x80 := by
  refine word_of_isDigit fun b hb => ?_
  rcases mem_numeric h hb with hb | hb
  · exact Or.inl hb
  · exact Or.inr (isDigit_bounds hb)

theorem not_isWhiteSpace {b : UInt8} (h : 34 < b ∧ b < 0x80) :
    isWhiteSpace (Char.ofNat b.toNat) = false := by
  have hlo : 34 < b.toNat := h.1
  have hhi : b.toNat < 128 := h.2
  rw [isWhiteSpace, Utf8.toNat_ofNat_of_lt (Nat.lt_trans hhi (by decide))]
  simp only [contains_cons, contains_nil, Bool.or_false, Bool.or_eq_false_iff,
    Bool.and_eq_false_iff, decide_eq_false_iff_not, beq_eq_false_iff_ne]
  omega

theorem firstWord_decode {v : Bytes} (h : Word v) : firstWord (Utf8.decode v) = Utf8.decode v := by
  rw [firstWord, takeWhile_eq_self_iff]
  intro c hc
  have hquote : c ≠ '"' := fun heq => quote_notMem_decode (Word.notMem h (by decide)) (heq ▸ hc)
  have hspace : c ≠ ' ' := fun heq => Word.notMem h (by decide)
    ((@Utf8.mem_decode_iff 32 v (by decide) (by decide)).mp (heq ▸ hc))
  simp [hquote, hspace]

theorem parseInt_decode {v : Bytes} {n : Int} (h : numeric v = some n) :
    parseInt (Utf8.decode v) = .ofInt n := by
  have hword := isDigit_or_minus h
  have hascii : ∀ b ∈ v, b < 0x80 := fun b hb => (hword b hb).2
  have htrim : (Utf8.decode v).dropWhile isWhiteSpace = Utf8.decode v := by
    rw [Utf8.decode_ascii hascii]
    cases v with
    | nil => rfl
    | cons b v =>
      rw [map_cons, dropWhile_cons_of_neg]
      rw [not_isWhiteSpace (hword b mem_cons_self)]
      exact Bool.false_ne_true
  rw [parseInt, htrim, (Utf8.valid_ascii hascii).encode_decode, readInt_numeric h]

theorem exact_uint32 (n : UInt32) : Number.Exact (n.toNat : Int) :=
  Number.exact_of_lt (Nat.lt_trans n.toNat_lt (by decide))

namespace Logged

variable {l : Logged} {time : Bytes}

theorem request_eq {line : JsString} {record : RequestObject}
    (h : requestObject line = .ok record) : record.request = (line.splitOn '"')[1]? := by
  unfold requestObject at h
  dsimp only at h
  split at h
  · cases h
  · cases h
    rfl

theorem splitOn_numbers (hw : l.Written) (rest : JsString) :
    (terminated ' ' (l.fields.map Utf8.decode) ++ rest).splitOn ' ' =
      l.fields.map Utf8.decode ++ rest.splitOn ' ' := by
  rw [splitOn_terminated, pieces_of_notMem]
  intro v hv hmem
  obtain ⟨field, hfield, rfl⟩ := mem_map.mp hv
  exact Word.notMem (word_fields hw field hfield) (by decide)
    ((@Utf8.mem_decode_iff 32 field (by decide) (by decide)).mp hmem)

theorem upstream_eq (l : Logged) :
    ((l.upstreamPieces.headD []).splitOn ' ')[0]? = some (firstWord (Utf8.decode l.upstreamText)) := by
  obtain ⟨tail, hpieces, -⟩ := splitOn_eq_cons '"' (Utf8.decode l.upstreamText ++ [' '])
  obtain ⟨tail', hwords, -⟩ := splitOn_eq_cons ' ' (l.upstreamPieces.headD [])
  rw [hwords, upstreamPieces, hpieces, headD_cons, takeWhile_firstWord]
  rfl

theorem requestObject_text (hw : l.Written) (ht : Word time) (hrequest : (34 : UInt8) ∉ l.request) :
    ∃ datetime, requestObject (l.text time) = .ok {
      datetime := datetime
      request := some (Utf8.decode l.request)
      responseCode := .ofInt l.responseCode.toNat
      responseFlags := some (Utf8.decode l.responseFlags)
      bytesReceived := .ofInt l.bytesReceived.toNat
      bytesSent := some (Utf8.decode (decimal l.bytesSent.toNat))
      duration := .ofInt l.duration
      upstreamTime := parseInt (firstWord (Utf8.decode l.upstreamText))
      xForwardedFor := l.afterNumbers[0]?
      userAgent := l.afterNumbers[2]?
      requestId := l.afterNumbers[4]?
      requestAuthority := l.afterNumbers[6]?
      upstreamHost := l.afterNumbers[8]? } := by
  have hparts := splitOn_text hw ht
  rw [splitOn_eq_singleton (quote_notMem_decode hrequest), singleton_append] at hparts
  refine ⟨stripDatetime (((Utf8.decode (91 :: time ++ [93, 32])).splitOn ' ').headD []), ?_⟩
  unfold requestObject
  rw [hparts]
  dsimp only [getElem?_cons_succ, getElem?_cons_zero]
  rw [splitOn_numbers hw]
  simp only [fields, map_cons, map_nil, cons_append, nil_append,
    getElem?_cons_succ, getElem?_cons_zero, upstream_eq, parseInt?,
    parseInt_decode (numeric_decimal _), parseInt_decode (numeric_formatInt _)]
  rfl

def Plain (v : Bytes) : Prop := Utf8.Valid v ∧ (34 : UInt8) ∉ v

/-- The upstream time is an integer that is a double, or does not begin like a number. -/
def ReadableTime (v : Bytes) : Prop :=
  match numeric v with
  | some n => Number.Exact n
  | none => startsNumber (Utf8.encode ((firstWord (Utf8.decode v)).dropWhile isWhiteSpace)) = false

/-- The columns after the upstream time, pushed back by the quotes in its text. -/
def shifted (l : Logged) : List JsString := l.upstreamPieces.tail ++ l.quoted.map Utf8.decode

/-- What must hold of the values of a request for the reader to get them back. The five quoted
values are every second column; where the upstream time holds quotes, they have to stand where
they would without. -/
structure Readable (l : Logged) : Prop where
  request : Plain l.request
  quoted : ∀ i < 5, ∀ v ∈ l.quoted[2 * i]?, Plain v
  upstreamHost : (10 : UInt8) ∉ l.upstreamHost
  bytesReceived : Number.Exact l.bytesReceived.toNat
  duration : Number.Exact l.duration
  upstreamTime : ∀ v ∈ l.upstreamTime, ReadableTime v
  aligned : (34 : UInt8) ∈ l.upstreamText →
    ∀ i < 5, l.shifted[2 * i]? = (l.quoted.map Utf8.decode)[2 * i]?

theorem upstreamTime_iff (upstreamTime : Option Bytes) :
    (parseInt (firstWord (Utf8.decode (upstreamTime.getD [45]))) =
      match upstreamTime.bind numeric with
      | some n => .finite n
      | none => .nan) ↔ ∀ v ∈ upstreamTime, ReadableTime v := by
  cases upstreamTime with
  | none =>
    refine iff_of_true ?_ (by simp)
    exact (by decide +kernel : parseInt (firstWord (Utf8.decode [45])) = .nan)
  | some v =>
    have hall : (∀ w ∈ some v, ReadableTime w) ↔ ReadableTime v := by simp
    rw [hall, ReadableTime, Option.getD_some, Option.bind_some]
    cases hv : numeric v with
    | none => exact parseInt_eq_nan_iff _
    | some n =>
      rw [firstWord_decode (isDigit_or_minus hv), parseInt_decode hv]
      exact Number.ofInt_eq_finite_self_iff n

theorem valid_word {v : Bytes} (h : Word v) : Utf8.encode (Utf8.decode v) = v :=
  (Utf8.valid_ascii fun b hb => (h b hb).2).encode_decode

theorem plain_of_encode {s : JsString} {v : Bytes} (hs : '"' ∉ s) (h : Utf8.encode s = v) :
    Plain v ∧ Utf8.decode v = s := by
  subst h
  refine ⟨⟨⟨s, rfl⟩, fun hmem => hs ?_⟩, Utf8.decode_encode_text s⟩
  exact (@Utf8.mem_encode 34 s (by decide)).mp hmem

section

variable (h : ∀ i < 5, ∀ v ∈ l.quoted[2 * i]?, (34 : UInt8) ∉ v)
include h

theorem pieces_quoted : pieces '"' (l.quoted.map Utf8.decode) = l.quoted.map Utf8.decode := by
  apply pieces_of_notMem
  intro s hs
  obtain ⟨v, hv, rfl⟩ := mem_map.mp hs
  apply quote_notMem_decode
  have h0 := h 0 (by decide) _ rfl
  have h1 := h 1 (by decide) _ rfl
  have h2 := h 2 (by decide) _ rfl
  have h3 := h 3 (by decide) _ rfl
  have h4 := h 4 (by decide) _ rfl
  simp only [quoted, mem_cons, not_mem_nil, or_false] at hv
  rcases hv with rfl | rfl | rfl | rfl | rfl | rfl | rfl | rfl | rfl
  · exact h0
  · decide
  · exact h1
  · decide
  · exact h2
  · decide
  · exact h3
  · decide
  · exact h4

theorem afterNumbers_eq : l.afterNumbers = l.shifted ++ [[]] := by
  rw [afterNumbers, pieces_quoted h, shifted]

theorem getElem?_afterNumbers {i : Nat}
    (hi : i < 5) : l.afterNumbers[2 * i]? = l.shifted[2 * i]? := by
  have hlength : 2 * i < l.shifted.length := by
    simp only [shifted, quoted, length_append, length_map, length_cons, length_nil]
    omega
  rw [afterNumbers_eq h, getElem?_append_left hlength]

end

theorem quote_notMem_afterNumbers {s : JsString} (h : s ∈ l.afterNumbers) : '"' ∉ s := by
  rcases mem_append.mp h with h | h
  · rcases mem_append.mp h with h | h
    · exact notMem_of_mem_splitOn (mem_of_mem_tail h)
    · obtain ⟨t, -, ht⟩ := mem_flatMap.mp h
      exact notMem_of_mem_splitOn ht
  · rw [mem_singleton.mp h]
    exact not_mem_nil

theorem quoted_iff (l : Logged) :
    (∀ i < 5, l.afterNumbers[2 * i]?.map Utf8.encode = l.quoted[2 * i]?) ↔
      (∀ i < 5, ∀ v ∈ l.quoted[2 * i]?, Plain v) ∧ ((34 : UInt8) ∈ l.upstreamText →
          ∀ i < 5, l.shifted[2 * i]? = (l.quoted.map Utf8.decode)[2 * i]?) := by
  constructor
  · intro h
    have hplain : ∀ i < 5, ∀ v ∈ l.quoted[2 * i]?,
        Plain v ∧ l.afterNumbers[2 * i]? = some (Utf8.decode v) := by
      intro i hi v hv
      have hi' := h i hi
      rw [hv] at hi'
      obtain ⟨s, hs, hencode⟩ := Option.map_eq_some_iff.mp hi'
      obtain ⟨hplain, hdecode⟩ :=
        plain_of_encode (quote_notMem_afterNumbers (mem_of_getElem? hs)) hencode
      exact ⟨hplain, hdecode ▸ hs⟩
    refine ⟨fun i hi v hv => (hplain i hi v hv).1, fun _ i hi => ?_⟩
    rw [← getElem?_afterNumbers (fun i hi v hv => (hplain i hi v hv).1.2) hi, getElem?_map]
    cases hv : l.quoted[2 * i]? with
    | none =>
      have hi' := h i hi
      rw [hv, Option.map_eq_none_iff] at hi'
      exact hi'
    | some v => exact (hplain i hi v hv).2
  · rintro ⟨hplain, haligned⟩ i hi
    have hshifted : l.shifted[2 * i]? = (l.quoted.map Utf8.decode)[2 * i]? := by
      by_cases hquote : (34 : UInt8) ∈ l.upstreamText
      · exact haligned hquote i hi
      · have hnone : '"' ∉ Utf8.decode l.upstreamText ++ [' '] := by
          simp [quote_notMem_decode hquote]
        rw [shifted, upstreamPieces, splitOn_eq_singleton hnone]
        rfl
    rw [getElem?_afterNumbers (fun i hi v hv => (hplain i hi v hv).2) hi, hshifted,
      getElem?_map, Option.map_map]
    cases hv : l.quoted[2 * i]? with
    | none => rfl
    | some v => exact congrArg some (hplain i hi v hv).1.encode_decode

theorem plain_request {record : RequestObject} (hw : l.Written) (ht : Word time)
    (h : requestObject (l.text time) = .ok record)
    (hrequest : record.request.map Utf8.encode = some l.request) : Plain l.request := by
  obtain ⟨tail, hpieces, -⟩ := splitOn_eq_cons '"' (Utf8.decode l.request)
  rw [request_eq h, splitOn_text hw ht, hpieces] at hrequest
  refine (plain_of_encode ?_ (Option.some.inj hrequest)).1
  exact notMem_of_mem_splitOn (hpieces ▸ mem_cons_self)

theorem reports_iff (hw : l.Written) (ht : Word time) (hplain : Plain l.request) :
    (∃ record, requestObject (l.text time) = .ok record ∧ record.Reports l) ↔
      Number.Exact l.bytesReceived.toNat ∧ Number.Exact l.duration ∧
        (∀ v ∈ l.upstreamTime, ReadableTime v) ∧
        (∀ i < 5, l.afterNumbers[2 * i]?.map Utf8.encode = l.quoted[2 * i]?) := by
  obtain ⟨datetime, hobject⟩ := requestObject_text hw ht hplain.2
  constructor
  · rintro ⟨record, hrecord, hreports⟩
    cases hobject.symm.trans hrecord
    refine ⟨(Number.ofInt_eq_finite_self_iff (l.bytesReceived.toNat : Int)).mp hreports.bytesReceived,
      (Number.ofInt_eq_finite_self_iff l.duration).mp hreports.duration,
      (upstreamTime_iff l.upstreamTime).mp hreports.upstreamTime, ?_⟩
    intro i hi
    obtain rfl | rfl | rfl | rfl | rfl : i = 0 ∨ i = 1 ∨ i = 2 ∨ i = 3 ∨ i = 4 := by omega
    · exact hreports.xForwardedFor
    · exact hreports.userAgent
    · exact hreports.requestId
    · exact hreports.requestAuthority
    · exact hreports.upstreamHost
  · rintro ⟨hreceived, hduration, hupstream, hquoted⟩
    refine ⟨_, hobject, ?_⟩
    exact {
      request := congrArg some hplain.1.encode_decode
      responseCode := (Number.ofInt_eq_finite_self_iff (l.responseCode.toNat : Int)).mpr (exact_uint32 _)
      responseFlags := congrArg some (valid_word hw.responseFlags)
      bytesReceived := (Number.ofInt_eq_finite_self_iff (l.bytesReceived.toNat : Int)).mpr hreceived
      bytesSent := congrArg some (valid_word (word_decimal _))
      duration := (Number.ofInt_eq_finite_self_iff l.duration).mpr hduration
      upstreamTime := (upstreamTime_iff l.upstreamTime).mpr hupstream
      xForwardedFor := hquoted 0 (by decide)
      userAgent := hquoted 1 (by decide)
      requestId := hquoted 2 (by decide)
      requestAuthority := hquoted 3 (by decide)
      upstreamHost := hquoted 4 (by decide) }

/-- Reading the line gives one object, and what was logged, exactly from readable values. -/
theorem readable_iff (hw : l.Written) (ht : Word time) :
    (∃ record, requestObjects (l.line time) = .ok [record] ∧ record.Reports l) ↔ l.Readable := by
  constructor
  · rintro ⟨record, hrecord, hreports⟩
    have hhost := upstreamHost_oneLine hrecord
    rw [requestObjects_line hw ht hhost] at hrecord
    obtain ⟨record', hobject⟩ : ∃ record', requestObject (l.text time) = .ok record' := by
      cases hobject : requestObject (l.text time) with
      | error e =>
        rw [hobject] at hrecord
        cases hrecord
      | ok record' => exact ⟨record', rfl⟩
    rw [hobject] at hrecord
    obtain rfl := singleton_inj.mp (Except.ok.inj hrecord)
    have hplain := plain_request hw ht hobject hreports.request
    obtain ⟨hreceived, hduration, hupstream, hquoted⟩ :=
      (reports_iff hw ht hplain).mp ⟨record', hobject, hreports⟩
    obtain ⟨hvalues, haligned⟩ := (quoted_iff l).mp hquoted
    exact ⟨hplain, hvalues, hhost, hreceived, hduration, hupstream, haligned⟩
  · intro h
    obtain ⟨record, hobject, hreports⟩ := (reports_iff hw ht h.request).mpr
      ⟨h.bytesReceived, h.duration, h.upstreamTime, (quoted_iff l).mpr ⟨h.quoted, h.aligned⟩⟩
    refine ⟨record, ?_, hreports⟩
    rw [requestObjects_line hw ht h.upstreamHost, hobject]
    rfl

end Logged

/-- The reader understands the line of a request exactly when the values are readable. -/
theorem understood_iff_readable (errno : Bool) (request response : AdmittedHeaders)
    (info : RequestInfo) :
    Understood errno request response info ↔ (logged request response info).Readable := by
  rw [← Logged.readable_iff (written_logged request response info) (word_fromTime info.startTime)]
  constructor
  · rintro ⟨formatters, record, hparse, hobjects, hreports⟩
    rw [parse_defaultFormat] at hparse
    cases hparse
    rw [format_default] at hobjects
    exact ⟨record, hobjects, hreports⟩
  · rintro ⟨record, hobjects, hreports⟩
    refine ⟨defaultFormatters, record, parse_defaultFormat errno, ?_, hreports⟩
    rw [format_default]
    exact hobjects

def forgingRequest : AdmittedHeaders where
  map := (headersOf [(ascii ":method", ascii "GET"), (ascii ":path", ascii "/\" 200 - 0 0 1 1 \""),
    (ascii ":authority", ascii "api")]).1
  admitted := by decide +kernel

def noHeaders : AdmittedHeaders where
  map := .new
  admitted := fun _ h => absurd h not_mem_nil

def limitedInfo : RequestInfo where
  startTime := 0
  requestReceivedDuration := 0
  responseReceivedDuration := 0
  bytesReceived := 0
  protocol := .http11
  responseCode := some 429
  bytesSent := 0
  duration := 2000
  getResponseFlag := fun flag => flag = .rateLimited
  upstreamHost := none

/-- The reader takes the code from the path. -/
example : (requestObjects (format defaultFormatters forgingRequest.map noHeaders.map
    limitedInfo)).toOption.map (fun records => records.map (·.responseCode)) =
    some [.finite 200] := by decide +kernel

theorem forgingRequest_not_understood :
    ¬ ∀ (errno : Bool) (request response : AdmittedHeaders) (info : RequestInfo),
      Understood errno request response info := by
  intro h
  obtain ⟨formatters, record, hparse, hobjects, hreports⟩ :=
    h false forgingRequest noHeaders limitedInfo
  rw [parse_defaultFormat] at hparse
  cases hparse
  rw [format_default] at hobjects
  have hwritten := written_logged forgingRequest noHeaders limitedInfo
  have hreadable := (Logged.readable_iff hwritten (word_fromTime 0)).mp ⟨record, hobjects, hreports⟩
  exact hreadable.request.2 (by decide +kernel)

end Meliproxy.Logs
