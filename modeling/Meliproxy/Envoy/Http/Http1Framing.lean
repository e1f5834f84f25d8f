import Meliproxy.Envoy.Http.Http1Encoder

/-!
# Messages are read back

A standard reader gets the headers of a message in their order, and its body, and stops at the
last byte that was written. So it takes apart messages that were written one after the other.
-/

namespace Meliproxy.Envoy.Http.Http1

open Lib List HttpMessage

variable {m : OutgoingMessage} {field : Field}

variable {key : Bytes}

theorem cases_isName (h : OutgoingMessage.isName key = true) :
    isFieldName key = true ∨ key = ascii ":authority" ∨
      (key.head? = some 58 ∧ key.take 2 ≠ ascii ":a") := by
  simp only [OutgoingMessage.isName, Bool.or_eq_true, Bool.and_eq_true, decide_eq_true_eq] at h
  rcases h with hname | ⟨hhead, hshort | hauthority⟩
  · exact .inl hname
  · exact .inr (.inr ⟨hhead, hshort⟩)
  · exact .inr (.inl hauthority)

theorem head_of_isFieldName (h : isFieldName key = true) : key.head? ≠ some 58 := by
  intro hhead
  have hmem : (58 : UInt8) ∈ key := mem_of_mem_head? hhead
  exact notMem_name h (by decide) hmem

theorem keyToUse_eq (h : ∀ rest, key ≠ 58 :: 97 :: rest) :
    StreamEncoderImpl.keyToUse key = key := by
  unfold StreamEncoderImpl.keyToUse
  split
  · exact absurd rfl (h _)
  · rfl

theorem meant_eq (value : Bytes) (h : OutgoingMessage.isName key = true) :
    OutgoingMessage.meant (key, value) =
      if (StreamEncoderImpl.keyToUse key).head? = some 58 then none
      else some (StreamEncoderImpl.keyToUse key, value) := by
  rcases cases_isName h with hname | rfl | ⟨hhead, hshort⟩
  · have hne := head_of_isFieldName hname
    have hkey : StreamEncoderImpl.keyToUse key = key :=
      keyToUse_eq (by rintro rest rfl; exact hne rfl)
    rw [hkey, if_neg hne, OutgoingMessage.meant, if_neg, if_neg hne]
    rintro rfl
    exact hne rfl
  · rfl
  · have hkey : StreamEncoderImpl.keyToUse key = key :=
      keyToUse_eq (by rintro rest rfl; exact hshort rfl)
    rw [hkey, if_pos hhead, OutgoingMessage.meant, if_neg, if_pos hhead]
    rintro rfl
    exact hshort rfl

theorem isFieldName_meant (h : OutgoingMessage.isName field.1 = true) {f : Field}
    (hf : OutgoingMessage.meant field = some f) : isFieldName f.1 = true ∧ f.2 = field.2 := by
  obtain ⟨key, value⟩ := field
  rw [OutgoingMessage.meant] at hf
  split at hf
  · cases hf
    have hhost : isFieldName (ascii "host") = true := by decide
    exact ⟨hhost, rfl⟩
  split at hf
  · cases hf
  · rename_i hauthority hhead
    cases hf
    refine ⟨?_, rfl⟩
    rcases cases_isName h with hname | hkey | ⟨hcolon, -⟩
    · exact hname
    · exact absurd hkey hauthority
    · exact absurd hcolon hhead

theorem OutgoingMessage.Proper.writable (h : m.Proper) {f : Field}
    (hf : f ∈ m.fields.filterMap OutgoingMessage.meant) : Writable f := by
  obtain ⟨field, hmem, hmeant⟩ := mem_filterMap.mp hf
  obtain ⟨hname, hvalue⟩ := isFieldName_meant (h.names field hmem) hmeant
  refine ⟨hname, ?_⟩
  rw [hvalue]
  exact (h.values field hmem).1

namespace StreamEncoderImpl

theorem encodeHeader_eq (s : StreamEncoderImpl) (field : Field) (h : isFieldName field.1 = true) :
    s.encodeHeader field.1 field.2 = some (s.write (writeField field)) := by
  rw [encodeHeader, if_neg, writeField]
  intro hempty
  simp [isFieldName, hempty] at h

theorem foldl_encodeEntry {l : List (HeaderString × HeaderString)}
    (h : ∀ e ∈ l, OutgoingMessage.isName e.1.bytes = true) (s : StreamEncoderImpl) :
    l.foldl (fun s e => encodeEntry e s) (some s) = some (s.write
      (((l.map fun e => (e.1.bytes, e.2.bytes)).filterMap OutgoingMessage.meant).flatMap writeField)) := by
  induction l generalizing s with
  | nil => simp [write]
  | cons e l ih =>
    have hname := h e mem_cons_self
    have hrest := ih fun e' he' => h e' (mem_cons_of_mem e he')
    have hmeant := meant_eq e.2.bytes hname
    rw [foldl_cons, map_cons, encodeEntry]
    by_cases hskip : (keyToUse e.1.bytes).head? = some 58
    · rw [if_pos hskip] at hmeant
      rw [if_pos hskip, hrest, filterMap_cons_none hmeant]
    · rw [if_neg hskip] at hmeant
      rw [if_neg hskip, filterMap_cons_some hmeant, Option.bind_some,
        encodeHeader_eq s (keyToUse e.1.bytes, e.2.bytes) (isFieldName_meant hname hmeant).1,
        hrest]
      simp [write]

theorem encodeHeaders_eq (headers : HeaderMap) (endStream : Bool)
    (hnames : ∀ e ∈ headers.headers, OutgoingMessage.isName e.key.bytes = true)
    (hcoding : headers.value .transferEncoding = none) :
    create.encodeHeaders headers endStream = some (let frame :=
        if (headers.value .contentLength).isSome then []
        else if endStream then [(ascii "content-length", ascii "0")]
        else [(ascii "transfer-encoding", ascii "chunked")]
      let fields := (headers.headers.map fun e => (e.key.bytes, e.value.bytes)).filterMap
        OutgoingMessage.meant
      { chunkEncoding := !(headers.value .contentLength).isSome && !endStream
        output := (fields ++ frame).flatMap writeField ++ crlf
        completed := if endStream then 1 else 0 }) := by
  have hfields := foldl_encodeEntry (l := headers.headers.map fun e => (e.key, e.value)) (by
    intro e he
    obtain ⟨entry, hentry, rfl⟩ := mem_map.mp he
    exact hnames entry hentry) create
  rw [map_map] at hfields
  have hlength : ∀ s : StreamEncoderImpl, s.encodeHeader (ascii "content-length") (ascii "0") =
      some (s.write (writeField (ascii "content-length", ascii "0"))) :=
    fun s => encodeHeader_eq s (ascii "content-length", ascii "0") (by decide)
  have hchunked : ∀ s : StreamEncoderImpl,
      s.encodeHeader (ascii "transfer-encoding") (ascii "chunked") =
      some (s.write (writeField (ascii "transfer-encoding", ascii "chunked"))) :=
    fun s => encodeHeader_eq s (ascii "transfer-encoding", ascii "chunked") (by decide)
  rw [encodeHeaders, HeaderMap.iterate, HeaderMap.iterateFrom_continue, hfields]
  simp only [Option.bind_eq_bind, Option.bind_some, hcoding, Option.isSome_none, Bool.false_eq_true,
    if_false, hlength, hchunked]
  cases (headers.value .contentLength).isSome <;> cases endStream <;>
    simp [create, write, endEncode, Function.comp_def]

variable {s : StreamEncoderImpl}

theorem foldl_encodeData_length (h : s.chunkEncoding = false) (chunks : List Bytes) :
    chunks.foldl (fun s data => s.encodeData data false) s = s.write chunks.flatten := by
  induction chunks generalizing s with
  | nil => simp [write]
  | cons data chunks ih =>
    have hdata : s.encodeData data false = s.write data := by
      by_cases hempty : data = []
      · simp [encodeData, hempty, write]
      · simp [encodeData, hempty, h]
    have hnext : (s.write data).chunkEncoding = false := h
    rw [foldl_cons, hdata, ih hnext]
    simp [write]

theorem foldl_encodeData_chunked (h : s.chunkEncoding = true) (chunks : List Bytes) :
    chunks.foldl (fun s data => s.encodeData data false) s =
      s.write ((chunks.filter fun data => data ≠ []).flatMap writeChunk) := by
  induction chunks generalizing s with
  | nil => simp [write]
  | cons data chunks ih =>
    rw [foldl_cons]
    by_cases hempty : data = []
    · have hdata : s.encodeData data false = s := by simp [encodeData, hempty]
      rw [hdata, ih h, filter_cons_of_neg (by simpa using hempty)]
    · have hdata : s.encodeData data false = s.write (writeChunk data) := by
        simp [encodeData, hempty, h, writeChunk]
      have hnext : (s.write (writeChunk data)).chunkEncoding = true := h
      rw [hdata, ih hnext, filter_cons_of_pos (by simpa using hempty)]
      simp [write]

theorem encodeData_end (s : StreamEncoderImpl) (data : Bytes) :
    s.encodeData data true = (s.encodeData data false).endEncode := rfl

end StreamEncoderImpl

open StreamEncoderImpl in
theorem encode_withBody {headers : Headers} {chunks : List Bytes} {last : Option Bytes}
    {s : StreamEncoderImpl} (h : create.encodeHeaders headers.1 false = some s) :
    (OutgoingMessage.withBody headers chunks last).encode =
      some ((chunks ++ last.toList).foldl (fun s data => s.encodeData data false) s).endEncode := by
  rw [OutgoingMessage.encode, h]
  cases last with
  | none => simp [encodeTrailers]
  | some data => simp [encodeData_end]

namespace OutgoingMessage

theorem names_of_proper (h : m.Proper) : ∀ e ∈ m.headers.headers, isName e.key.bytes = true :=
  fun e he => h.names (e.key.bytes, e.value.bytes) (mem_map_of_mem he)

theorem consistent_headers (m : OutgoingMessage) : m.headers.Consistent := by
  cases m with
  | headersOnly headers => exact headers.2
  | withBody headers chunks last => exact headers.2

theorem mem_fields_of_value (h : m.Proper) (header : InlineHeader)
    (hkey : header.key.head? ≠ some 58) (hsome : m.headers.value header ≠ none) :
    ∃ value, (header.key, value) ∈ m.fields := by
  obtain ⟨e, he, hkeyOf⟩ := (HeaderMap.hasKey_iff m.consistent_headers).mpr hsome
  refine ⟨e.value.bytes, mem_map.mpr ⟨e, he, ?_⟩⟩
  have hbytes : e.key.bytes = header.key := by
    have hzero : 0 ∉ e.key.bytes := by
      rcases cases_isName (names_of_proper h e he) with hname | hauthority | ⟨hhead, -⟩
      · exact notMem_name hname (by decide)
      · rw [hauthority]
        decide
      · -- A pseudo header is none of the inline headers that are meant here.
        intro _
        apply hkey
        rw [← hkeyOf, HeaderString.cStr, cStr]
        cases hbytes : e.key.bytes with
        | nil => simp [hbytes] at hhead
        | cons c rest =>
          rw [hbytes] at hhead
          obtain rfl : c = 58 := by simpa using hhead
          rfl
    rw [← hkeyOf, HeaderString.cStr, cStr_eq_self hzero]
  rw [hbytes]

theorem value_transferEncoding (h : m.Proper) : m.headers.value .transferEncoding = none := by
  by_contra hsome
  obtain ⟨value, hmem⟩ := mem_fields_of_value h _ (by decide) hsome
  have hsame : sameName InlineHeader.transferEncoding.key (ascii "transfer-encoding") = true := by
    decide
  cases hsame.symm.trans (h.coding _ hmem)

/-- What the reader gets: the values come without the blanks around them. -/
def received (m : OutgoingMessage) : Message := ⟨m.meantMessage.fields.map trimmed, m.body⟩

variable {name value : Bytes}

theorem mem_valuesOf {fields : List Field} :
    value ∈ valuesOf fields name ↔ ∃ f ∈ fields, sameName f.1 name = true ∧ f.2 = value := by
  simp [valuesOf, and_assoc]

theorem valuesOf_append (fields fields' : List Field) (name : Bytes) :
    valuesOf (fields ++ fields') name = valuesOf fields name ++ valuesOf fields' name := by
  simp [valuesOf]

theorem mem_valuesOf_meant (hhost : sameName (ascii "host") name = false)
    (h : value ∈ valuesOf ((m.fields.filterMap meant).map trimmed) name) :
    ∃ field ∈ m.fields, sameName field.1 name = true ∧ value = trim field.2 := by
  obtain ⟨f, hf, hname, rfl⟩ := mem_valuesOf.mp h
  obtain ⟨g, hg, rfl⟩ := mem_map.mp hf
  obtain ⟨field, hfield, hmeant⟩ := mem_filterMap.mp hg
  refine ⟨field, hfield, ?_⟩
  rw [meant] at hmeant
  split at hmeant
  · cases hmeant
    cases hname.symm.trans hhost
  split at hmeant
  · cases hmeant
  · cases hmeant
    exact ⟨hname, rfl⟩

theorem valuesOf_coding (h : m.Proper) :
    valuesOf ((m.fields.filterMap meant).map trimmed) (ascii "transfer-encoding") = [] := by
  apply eq_nil_iff_forall_not_mem.mpr
  intro value hvalue
  obtain ⟨field, hfield, hname, -⟩ := mem_valuesOf_meant (by decide) hvalue
  rw [h.coding field hfield] at hname
  cases hname

theorem readLength_valuesOf (h : m.Proper)
    (hvalue : value ∈ valuesOf ((m.fields.filterMap meant).map trimmed) (ascii "content-length")) :
    readLength value = some m.body.length := by
  obtain ⟨field, hfield, hname, rfl⟩ := mem_valuesOf_meant (by decide) hvalue
  exact h.length field hfield hname

theorem valuesOf_length_ne_nil (h : m.Proper) (hsome : (m.headers.value .contentLength).isSome = true) :
    valuesOf ((m.fields.filterMap meant).map trimmed) (ascii "content-length") ≠ [] := by
  obtain ⟨value, hmem⟩ := mem_fields_of_value h .contentLength (by decide)
    (Option.isSome_iff_ne_none.mp hsome)
  have hmeant : meant (ascii "content-length", value) = some (ascii "content-length", value) := by
    rw [meant, if_neg, if_neg]
    · show (ascii "content-length").head? ≠ some 58
      decide
    · show ascii "content-length" ≠ ascii ":authority"
      decide
  have hsame : sameName (ascii "content-length") (ascii "content-length") = true := by decide
  apply ne_nil_of_mem (a := trim value)
  refine mem_valuesOf.mpr ⟨(ascii "content-length", trim value), ?_, hsame, rfl⟩
  exact mem_map_of_mem (f := trimmed) (mem_filterMap.mpr ⟨_, hmem, hmeant⟩)

theorem framing_length_of_some (h : m.Proper)
    (hsome : (m.headers.value .contentLength).isSome = true) :
    framing m.received.fields = .ok (.length m.body.length) := by
  have hfields : m.received.fields = (m.fields.filterMap meant).map trimmed := by
    simp [received, meantMessage, frameField, hsome]
  rw [hfields]
  exact framing_length (valuesOf_coding h) (valuesOf_length_ne_nil h hsome)
    (fun value hvalue => readLength_valuesOf h hvalue)

variable {headers : Headers}

theorem framing_headersOnly (h : (headersOnly headers).Proper)
    (hnone : (headers.1.value .contentLength).isSome = false) :
    framing (headersOnly headers).received.fields = .ok (.length 0) := by
  have hfields : (headersOnly headers).received.fields =
      ((headersOnly headers).fields.filterMap meant).map trimmed ++
        [(ascii "content-length", ascii "0")] := by
    have hone : trimmed (ascii "content-length", ascii "0") = (ascii "content-length", ascii "0") := by
      decide
    simp [received, meantMessage, frameField, OutgoingMessage.headers, hnone, hone]
  rw [hfields]
  apply framing_length
  · rw [valuesOf_append, valuesOf_coding h]
    decide
  · rw [valuesOf_append]
    apply append_ne_nil_of_right_ne_nil
    decide
  · intro value hvalue
    rw [valuesOf_append, mem_append] at hvalue
    rcases hvalue with hvalue | hvalue
    · exact readLength_valuesOf h hvalue
    · have hzero : valuesOf [(ascii "content-length", ascii "0")] (ascii "content-length") =
          [ascii "0"] := by decide
      rw [hzero] at hvalue
      obtain rfl := mem_singleton.mp hvalue
      decide

theorem framing_withBody {chunks : List Bytes} {last : Option Bytes}
    (h : (withBody headers chunks last).Proper)
    (hnone : (headers.1.value .contentLength).isSome = false) :
    framing (withBody headers chunks last).received.fields = .ok .chunked := by
  have hfields : (withBody headers chunks last).received.fields =
      ((withBody headers chunks last).fields.filterMap meant).map trimmed ++
        [(ascii "transfer-encoding", ascii "chunked")] := by
    have hone : trimmed (ascii "transfer-encoding", ascii "chunked") =
        (ascii "transfer-encoding", ascii "chunked") := by
      decide
    simp [received, meantMessage, frameField, OutgoingMessage.headers, hnone, hone]
  rw [hfields]
  apply framing_chunked
  rw [valuesOf_append, valuesOf_coding h]
  decide

theorem writable_meantMessage (h : m.Proper) : ∀ f ∈ m.meantMessage.fields, Writable f := by
  intro f hf
  rcases mem_append.mp hf with hf | hf
  · exact h.writable hf
  · have hlength : Writable (ascii "content-length", ascii "0") := ⟨by decide, by decide⟩
    have hcoding : Writable (ascii "transfer-encoding", ascii "chunked") := ⟨by decide, by decide⟩
    cases m with
    | headersOnly headers =>
      simp only [frameField] at hf
      split at hf
      · cases hf
      · exact mem_singleton.mp hf ▸ hlength
    | withBody headers chunks last =>
      simp only [frameField] at hf
      split at hf
      · cases hf
      · exact mem_singleton.mp hf ▸ hcoding

/-- The bytes of a message: its header block, and its body as a whole or in chunks. -/
theorem encode_eq (h : m.Proper) : ∃ s body, m.encode = some s ∧ s.completed = 1 ∧
      s.output = m.meantMessage.fields.flatMap writeField ++ crlf ++ body ∧
      ∃ how, framing m.received.fields = .ok how ∧ ∀ rest, Reads (readBody how) body m.body rest := by
  cases m with
  | headersOnly headers =>
    have hencode := StreamEncoderImpl.encodeHeaders_eq headers.1 true (names_of_proper h)
      (value_transferEncoding h)
    refine ⟨_, [], hencode, rfl, (append_nil _).symm, .length 0, ?_, reads_length []⟩
    cases hsome : (headers.1.value .contentLength).isSome with
    | true => exact framing_length_of_some h hsome
    | false => exact framing_headersOnly h hsome
  | withBody headers chunks last =>
    have hencode := StreamEncoderImpl.encodeHeaders_eq headers.1 false (names_of_proper h)
      (value_transferEncoding h)
    have hbody : (withBody headers chunks last).body = (chunks ++ last.toList).flatten := by
      cases last <;> simp [body]
    have hblock : StreamEncoderImpl.create.encodeHeaders headers.1 false = some
        ⟨!(headers.1.value .contentLength).isSome,
          (withBody headers chunks last).meantMessage.fields.flatMap writeField ++ crlf, 0⟩ := by
      rw [hencode]
      cases hsome : (headers.1.value .contentLength).isSome <;>
        simp [hsome, meantMessage, frameField, OutgoingMessage.headers, fields]
    cases hsome : (headers.1.value .contentLength).isSome with
    | true =>
      rw [hsome] at hblock
      refine ⟨_, (withBody headers chunks last).body, encode_withBody hblock, ?_, ?_,
        .length (withBody headers chunks last).body.length, framing_length_of_some h hsome,
        reads_length _⟩
      · rw [StreamEncoderImpl.foldl_encodeData_length rfl]
        rfl
      · rw [StreamEncoderImpl.foldl_encodeData_length rfl, hbody]
        rfl
    | false =>
      rw [hsome] at hblock
      have hchunks : (withBody headers chunks last).body =
          ((chunks ++ last.toList).filter fun data => data ≠ []).flatten := by
        rw [hbody]
        exact (flatten_filter_ne_nil).symm
      refine ⟨_, ((chunks ++ last.toList).filter fun data => data ≠ []).flatMap writeChunk ++
        (hex 0 ++ crlf ++ crlf), encode_withBody hblock, ?_, ?_, .chunked, framing_withBody h hsome, ?_⟩
      · rw [StreamEncoderImpl.foldl_encodeData_chunked rfl]
        rfl
      · have hlast : ascii "0\r\n\r\n" = hex 0 ++ crlf ++ crlf := by
          rw [hex]
          decide
        rw [StreamEncoderImpl.foldl_encodeData_chunked rfl]
        simp [StreamEncoderImpl.endEncode, StreamEncoderImpl.write, hlast]
      · intro rest
        rw [hchunks]
        apply reads_chunked
        intro data hdata
        simpa using (mem_filter.mp hdata).2

/-- The reader stops at the last byte of the message. -/
theorem reads_output (h : m.Proper) : ∃ s, m.encode = some s ∧ s.completed = 1 ∧
      ∀ rest, Reads readMessage s.output m.received rest := by
  obtain ⟨s, body, hencode, hcompleted, houtput, how, hframing, hbody⟩ := encode_eq h
  refine ⟨s, hencode, hcompleted, ?_⟩
  intro rest
  rw [houtput]
  exact reads_message (writable_meantMessage h) hframing (hbody rest)

/-- What is written for messages, one after the other, is read back as these messages. -/
theorem messages_read_back (ms : List OutgoingMessage) (h : ∀ m ∈ ms, m.Proper) :
    (∀ m ∈ ms, ∃ s, m.encode = some s ∧ s.completed = 1) ∧
      ∀ rest, Reads (readTimes readMessage ms.length) (ms.flatMap output) (ms.map received) rest := by
  refine ⟨?_, ?_⟩
  · intro m hm
    obtain ⟨s, hencode, hcompleted, -⟩ := reads_output (h m hm)
    exact ⟨s, hencode, hcompleted⟩
  · intro rest
    apply readTimes_map
    intro m hm rest
    obtain ⟨s, hencode, -, hreads⟩ := reads_output (h m hm)
    rw [output, hencode]
    exact hreads rest

theorem framed_iff : m.Framed ↔ ∀ field ∈ m.fields, (13 ∉ field.1 ∧ 10 ∉ field.1) ∧
    (13 ∉ field.2 ∧ 10 ∉ field.2) ∧ sameName field.1 (ascii "transfer-encoding") = false ∧
    (sameName field.1 (ascii "content-length") = true →
      readLength (trim field.2) = some m.body.length) := by
  constructor
  · intro h field hfield
    exact ⟨h.keys field hfield, h.values field hfield, h.coding field hfield, h.length field hfield⟩
  · intro h
    exact ⟨fun field hfield => (h field hfield).1, fun field hfield => (h field hfield).2.1,
      fun field hfield => (h field hfield).2.2.1, fun field hfield => (h field hfield).2.2.2⟩

instance : Decidable m.Framed := decidable_of_iff _ framed_iff.symm

instance : Decidable m.Proper :=
  decidable_of_iff (m.Framed ∧ ∀ field ∈ m.fields, isName field.1 = true)
    ⟨fun h => ⟨h.1, h.2⟩, fun h => ⟨h.toFramed, h.names⟩⟩

def sampleMessages : List OutgoingMessage :=
  [.headersOnly (headersOf [(ascii ":method", ascii "GET"), (ascii ":authority", ascii "a"),
      (ascii "x", ascii "1")]),
    .withBody (headersOf [(ascii ":status", ascii "200")]) [ascii "ab", [], ascii "c"] (some [])]

theorem sampleMessages_read_back : (∀ m ∈ sampleMessages, m.Proper) ∧
      (∀ m ∈ sampleMessages, ∃ s, m.encode = some s ∧ s.completed = 1) ∧
        ∀ rest, Reads (readTimes readMessage sampleMessages.length) (sampleMessages.flatMap output)
          (sampleMessages.map received) rest := by
  have hproper : ∀ m ∈ sampleMessages, m.Proper := by decide +kernel
  exact ⟨hproper, messages_read_back sampleMessages hproper⟩

/-- A name with a colon in it is read up to the colon, any pseudo header that begins with `:a` is
read as `host`, and a value is read without the blanks around it. -/
def misread : List OutgoingMessage :=
  [.headersOnly (headersOf [(ascii "a:b", ascii "c")]),
    .headersOnly (headersOf [(ascii ":abc", ascii "d")]),
    .headersOnly (headersOf [(ascii "e", ascii " f")])]

theorem misread_not_read_back : (∀ m ∈ misread, m.Framed) ∧
      ∀ m ∈ misread, ¬∀ rest, Reads (readTimes readMessage 1) ([m].flatMap output)
        ([m].map meantMessage) rest := by
  constructor
  · decide +kernel
  · have hread : ∀ m ∈ misread, readTimes readMessage 1 ([m].flatMap output ++ []) ≠
        .ok ([m].map meantMessage, []) := by
      decide +kernel
    exact fun m hm hreads => hread m hm (hreads [])

end OutgoingMessage

end Meliproxy.Envoy.Http.Http1
