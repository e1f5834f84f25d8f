import Meliproxy.Envoy.Mongo.BsonRoundTrip
import Meliproxy.Envoy.Mongo.Codec

/-!
# Decoding the messages that were encoded

The bytes of a message are a frame of the decoder: it waits for all of them and reads the message
back, whatever follows in the buffer. So a stream of messages comes out as it went in, in whatever
chunks it arrives.
-/

namespace Meliproxy.Envoy.Mongo

open Lib List Bson BufferHelper

def Message.noNul : Message → Bool
  | .getMore message => 0 ∉ message.fullCollectionName
  | .insert message => 0 ∉ message.fullCollectionName && message.documents.all fieldsNoNul
  | .killCursors _ => true
  | .query message =>
    0 ∉ message.fullCollectionName && message.query.all fieldsNoNul &&
      message.returnFieldsSelector.all fieldsNoNul
  | .reply message => message.documents.all fieldsNoNul

def Message.counted : Message → Bool
  | .reply message => message.numberReturned.toInt = message.documents.length
  | _ => true

/-- The bytes are a header with their number and a body that reads back. -/
def Encoded (message : Message) (bytes : Bytes) : Prop :=
  ∃ ids op body, bytes = encodeCommonHeader (Int32.ofNat (16 + body.length)) ids op ++ body ∧
    (bytes.length < 2 ^ 31 →
      ∀ rest, Reads (decodeBody ids op.toInt32 (UInt32.ofNat body.length)) body message rest)

theorem length_encodeCommonHeader (totalSize : Int32) (ids : MessageIds) (op : OpCode) :
    (encodeCommonHeader totalSize ids op).length = 16 := by
  simp [encodeCommonHeader, length_writeInt32]

variable {ids : MessageIds} {op : OpCode} {body : Bytes} {message : Message}

theorem decodeMessage_reads {messageLength : UInt32} {rest : Bytes} (totalSize : Int32)
    (h : Reads (decodeBody ids op.toInt32 (messageLength - 16)) body message rest) :
    Reads (decodeMessage messageLength) (encodeCommonHeader totalSize ids op ++ body) message rest := by
  unfold encodeCommonHeader
  rw [append_assoc, append_assoc, append_assoc]
  have hdrain := drain_reads (writeInt32 totalSize)
    (writeInt32 ids.requestId ++ (writeInt32 ids.responseTo ++ (writeInt32 op.toInt32 ++ body)) ++ rest)
  rw [length_writeInt32] at hdrain
  apply hdrain.bind
  apply (removeInt32_reads _ _).bind
  apply (removeInt32_reads _ _).bind
  apply (removeInt32_reads _ _).bind
  exact h

theorem toNat_ofNat_length {n : Nat} (h : n < 2 ^ 31) : (UInt32.ofNat n).toNat = n :=
  UInt32.toNat_ofNat_of_lt' (Nat.lt_of_lt_of_le h (by decide))

theorem decode_word {n : Nat} (h : n < 2 ^ 31) (tail : Bytes) :
    decode (writeInt32 (Int32.ofNat n) ++ tail) = if tail.length + 4 < n then .ok none
      else (decodeMessage (UInt32.ofNat n) (writeInt32 (Int32.ofNat n) ++ tail)).map some := by
  have hpeak : peakInt32 (writeInt32 (Int32.ofNat n) ++ tail) = _ := peakInt32_reads _ tail
  have hlength : (writeInt32 (Int32.ofNat n) ++ tail).length = tail.length + 4 := by
    rw [length_append, length_writeInt32, Nat.add_comm]
  rw [decode, if_neg (by omega), hpeak]
  simp only [Int32.toUInt32_ofNat', toNat_ofNat_length h, hlength]

variable {bytes : Bytes}

theorem Encoded.framed (h : Encoded message bytes) (hsize : bytes.length < 2 ^ 31) :
    Framed decode message bytes := by
  obtain ⟨ids, op, body, rfl, hbody⟩ := h
  have hreads := hbody hsize
  have hlength := length_encodeCommonHeader (Int32.ofNat (16 + body.length)) ids op
  rw [length_append, hlength] at hsize
  obtain ⟨more, hmore, hmoreLength⟩ :
      ∃ more, encodeCommonHeader (Int32.ofNat (16 + body.length)) ids op ++ body =
        writeInt32 (Int32.ofNat (16 + body.length)) ++ more ∧ more.length = 12 + body.length := by
    rw [encodeCommonHeader, append_assoc]
    refine ⟨_, rfl, ?_⟩
    simp only [length_append, length_writeInt32]
  refine ⟨?_, ?_, ?_⟩
  · exact append_ne_nil_of_left_ne_nil (ne_nil_of_length_pos (by omega)) body
  · intro rest
    have hbodyLength : UInt32.ofNat (16 + body.length) - 16 = UInt32.ofNat body.length := by
      rw [UInt32.ofNat_add]
      grind
    have hmessage : decodeMessage _ _ = _ := decodeMessage_reads (Int32.ofNat (16 + body.length))
      (hbodyLength ▸ hreads rest)
    rw [hmore, append_assoc] at hmessage ⊢
    rw [decode_word hsize, if_neg, hmessage]
    · rfl
    · rw [length_append]
      omega
  · intro front back hfront hback
    rw [hmore] at hfront
    rcases frame_split hfront with ⟨tail, rfl, htail⟩ | ⟨rest, hrest, hword⟩
    · have hlast := congrArg List.length htail
      have hpos := length_pos_iff.mpr hback
      rw [length_append] at hlast
      rw [decode_word hsize, if_pos (by omega)]
    · have hword := congrArg List.length hword
      have hpos := length_pos_iff.mpr hrest
      rw [length_append, length_writeInt32] at hword
      rw [decode, if_pos (by omega)]

theorem addByteSizes_eq (size : Nat) (documents : List Document) :
    addByteSizes (Int32.ofNat size) documents =
      Int32.ofNat (size + (documents.flatMap Document.encode).length) := by
  induction documents generalizing size with
  | nil => rfl
  | cons document documents ih =>
    have hrest := ih (size + (Document.encode document).length)
    rw [addByteSizes, foldl_cons, Document.byteSize_eq, ← Int32.ofNat_add]
    rw [addByteSizes] at hrest
    rw [hrest, flatMap_cons, length_append, Nat.add_assoc]

variable {documents : List Document}

theorem length_document_le {document : Document} (h : document ∈ documents) :
    (Document.encode document).length ≤ (documents.flatMap Document.encode).length := by
  obtain ⟨before, after, rfl⟩ := append_of_mem h
  rw [flatMap_append, flatMap_cons, length_append, length_append]
  omega

theorem encoded_of_header {size : Int32} (hsize : size = Int32.ofNat (16 + body.length))
    (hreads : 16 + body.length < 2 ^ 31 →
      ∀ rest, Reads (decodeBody ids op.toInt32 (UInt32.ofNat body.length)) body message rest) :
    Encoded message (encodeCommonHeader size ids op ++ body) := by
  refine ⟨ids, op, body, by rw [hsize], ?_⟩
  rw [length_append, length_encodeCommonHeader]
  exact hreads

theorem encodeGetMore_encoded {message : GetMoreMessage} (h : encodeGetMore message = .ok bytes)
    (hnul : (Message.getMore message).noNul = true) : Encoded (.getMore message) bytes := by
  have hname : 0 ∉ message.fullCollectionName := by simpa [Message.noNul] using hnul
  unfold encodeGetMore at h
  split at h
  · cases h
  cases h
  apply encoded_of_header
  · congr 1
    simp only [length_append, length_writeInt32, length_writeInt64, writeCString, length_singleton]
    omega
  · intro hsize rest
    simp only [length_append, writeCString, length_singleton] at hsize
    apply Reads.map
    apply (removeInt32_reads _ _).bind
    apply (removeCString_reads hname (by omega) _).bind
    apply (removeInt32_reads _ _).bind
    exact (removeInt64_reads _ _).map

theorem length_flatMap_writeInt64 (values : List Int64) :
    (values.flatMap writeInt64).length = values.length * 8 := by
  induction values with
  | nil => rfl
  | cons value values ih =>
    rw [flatMap_cons, length_append, length_writeInt64, ih, length_cons]
    omega

theorem encodeKillCursors_encoded {message : KillCursorsMessage}
    (h : encodeKillCursors message = .ok bytes) : Encoded (.killCursors message) bytes := by
  unfold encodeKillCursors at h
  split at h
  · cases h
  rename_i hcount
  obtain ⟨-, hcount⟩ := not_or.mp hcount
  rw [ne_eq, Classical.not_not] at hcount
  cases h
  apply encoded_of_header
  · simp only [length_append, length_writeInt32, length_flatMap_writeInt64, hcount,
      Int32.ofNat_add, Int32.ofNat_mul]
    grind
  · intro hsize rest
    simp only [length_append, length_writeInt32, length_flatMap_writeInt64] at hsize
    have htimes : message.numberOfCursorIds.toInt.toNat = message.cursorIds.length := by
      rw [hcount, Int32.toInt_ofNat_of_lt (by omega)]
      rfl
    apply Reads.map
    apply (removeInt32_reads _ _).bind
    apply (removeInt32_reads _ _).bind
    rw [htimes]
    exact (readTimes_reads (fun value _ rest => removeInt64_reads value rest) rest).map

theorem encodeReply_encoded {message : ReplyMessage} (h : encodeReply message = .ok bytes)
    (hnul : (Message.reply message).noNul = true)
    (hcounted : (Message.reply message).counted = true) : Encoded (.reply message) bytes := by
  have hdocuments : ∀ document ∈ message.documents, fieldsNoNul document = true := by
    simpa [Message.noNul] using hnul
  have hcount : message.numberReturned.toInt = message.documents.length := by
    simpa [Message.counted] using hcounted
  cases h
  apply encoded_of_header
  · rw [show (16 : Int32) + 20 = Int32.ofNat 36 from rfl, addByteSizes_eq]
    congr 1
    simp only [length_append, length_writeInt32, length_writeInt64]
    omega
  · intro hsize rest
    simp only [length_append] at hsize
    apply Reads.map
    apply (removeInt32_reads _ _).bind
    apply (removeInt64_reads _ _).bind
    apply (removeInt32_reads _ _).bind
    apply (removeInt32_reads _ _).bind
    rw [hcount, Int.toNat_natCast]
    apply Reads.map
    apply readTimes_reads
    intro document hmem rest
    have hle := length_document_le hmem
    exact create_reads (hdocuments document hmem) (by omega) rest

theorem bytesRemaining_eq_zero {left : Bytes} (h : left.length < 2 ^ 31) (rest : Bytes) (total : Nat) :
    bytesRemaining (left ++ rest).length (total + rest.length) (UInt64.ofNat total) = 0 ↔
      left = [] := by
  rw [length_append, bytesRemaining_eq, ← UInt64.toNat_inj, toNat_ofNat_small h]
  exact length_eq_zero_iff

theorem encode_ne_nil (document : Document) : Document.encode document ≠ [] := by
  apply ne_nil_of_length_pos
  rw [Document.length_encode]
  omega

theorem removeDocuments_reads (hnul : ∀ document ∈ documents, fieldsNoNul document = true)
    (hsize : (documents.flatMap Document.encode).length < 2 ^ 31) {fuel : Nat}
    (hfuel : (documents.flatMap Document.encode).length < fuel) (total : Nat) (rest : Bytes) :
    Reads (removeDocuments fuel (total + rest.length) (UInt64.ofNat total))
      (documents.flatMap Document.encode) documents rest := by
  induction documents generalizing fuel with
  | nil =>
    obtain ⟨fuel, rfl⟩ : ∃ n, fuel = n + 1 := ⟨fuel - 1, by omega⟩
    rw [removeDocuments]
    apply reads_get
    rw [if_pos ((bytesRemaining_eq_zero hsize rest total).mpr rfl)]
    exact reads_pure [] rest
  | cons document documents ih =>
    obtain ⟨fuel, rfl⟩ : ∃ n, fuel = n + 1 := ⟨fuel - 1, by omega⟩
    have hlength := Document.length_encode document
    rw [removeDocuments]
    apply reads_get
    rw [if_neg]
    · rw [flatMap_cons, length_append] at hsize hfuel
      apply (create_reads (hnul document mem_cons_self) (by omega) _).bind
      apply Reads.map
      apply ih (fun d hd => hnul d (mem_cons_of_mem document hd))
      · omega
      · omega
    · rw [bytesRemaining_eq_zero hsize]
      exact append_ne_nil_of_left_ne_nil (encode_ne_nil document) _

theorem length_body (h : 16 + body.length < 2 ^ 31) :
    (UInt32.ofNat body.length).toUInt64 = UInt64.ofNat body.length := by
  have hsmall : body.length < UInt32.size := Nat.lt_of_lt_of_le (by omega : _ < 2 ^ 31) (by decide)
  exact UInt32.toUInt64_ofNat' hsmall

theorem encodeInsert_encoded {message : InsertMessage} (h : encodeInsert message = .ok bytes)
    (hnul : (Message.insert message).noNul = true) : Encoded (.insert message) bytes := by
  obtain ⟨hname, hdocuments⟩ : 0 ∉ message.fullCollectionName ∧
      ∀ document ∈ message.documents, fieldsNoNul document = true := by
    simpa [Message.noNul] using hnul
  unfold encodeInsert at h
  split at h
  · cases h
  cases h
  apply encoded_of_header
  · rw [addByteSizes_eq]
    congr 1
    simp only [length_append, length_writeInt32, writeCString, length_singleton]
    omega
  · intro hsize rest
    have hbody64 := length_body hsize
    simp only [length_append, writeCString, length_singleton] at hsize
    have hdocumentsSize : (message.documents.flatMap Document.encode).length < 2 ^ 31 := by omega
    apply Reads.map
    apply reads_get
    rw [hbody64, length_append]
    apply (removeInt32_reads _ _).bind
    apply (removeCString_reads hname (by omega) _).bind
    apply Reads.map
    apply removeDocuments_reads hdocuments hdocumentsSize
    simp only [length_append]
    omega

theorem encodeQuery_encoded {message : QueryMessage} (h : encodeQuery message = .ok bytes)
    (hnul : (Message.query message).noNul = true) : Encoded (.query message) bytes := by
  obtain ⟨ids, flags, name, skip, number, query, selector⟩ := message
  unfold encodeQuery at h
  split at h
  · cases h
  rename_i document hquery
  split at h
  · cases h
  simp only at hquery
  subst hquery
  obtain ⟨⟨hname, hdocument⟩, hselector⟩ : (0 ∉ name ∧ fieldsNoNul document = true) ∧
      selector.all fieldsNoNul = true := by
    simpa [Message.noNul] using hnul
  cases h
  apply encoded_of_header
  · rw [Document.byteSize_eq, ← Int32.ofNat_add, addByteSizes_eq]
    congr 1
    simp only [length_append, length_writeInt32, writeCString, length_singleton]
    omega
  · intro hsize rest
    have hbody64 := length_body hsize
    simp only [length_append, writeCString, length_singleton] at hsize
    apply Reads.map
    apply reads_get
    rw [hbody64, length_append]
    apply (removeInt32_reads _ _).bind
    apply (removeCString_reads hname (by omega) _).bind
    apply (removeInt32_reads _ _).bind
    apply (removeInt32_reads _ _).bind
    apply (create_reads hdocument (by omega) _).bind
    apply reads_get
    have hleft : (selector.toList.flatMap Document.encode).length < 2 ^ 31 := by omega
    cases selector with
    | none =>
      rw [if_pos ((bytesRemaining_eq_zero hleft rest _).mpr rfl)]
      exact reads_pure _ rest
    | some selector =>
      have hsome : (some selector).toList.flatMap Document.encode = Document.encode selector := by
        simp
      rw [if_neg]
      · rw [hsome] at hleft ⊢
        exact (create_reads hselector hleft rest).map
      · rw [bytesRemaining_eq_zero hleft, hsome]
        exact encode_ne_nil selector

theorem encode_encoded (h : encode message = .ok bytes) (hnul : message.noNul = true)
    (hcounted : message.counted = true) : Encoded message bytes := by
  cases message with
  | getMore message => exact encodeGetMore_encoded h hnul
  | insert message => exact encodeInsert_encoded h hnul
  | killCursors message => exact encodeKillCursors_encoded h
  | query message => exact encodeQuery_encoded h hnul
  | reply message => exact encodeReply_encoded h hnul hcounted

/-- A message of the stream and its bytes. -/
structure Sent (sent : Message × Bytes) : Prop where
  encodes : encode sent.1 = .ok sent.2
  noNul : sent.1.noNul = true
  counted : sent.1.counted = true
  fits : sent.2.length < 2 ^ 31

/-- The bytes of a message read back and nothing more is taken off the buffer, and a stream of
messages reads back in whatever chunks it arrives. -/
theorem decode_encode :
    (∀ sent, Sent sent → ∀ rest, decode (sent.2 ++ rest) = .ok (some (sent.1, rest))) ∧
    ∀ stream : List (Message × Bytes), (∀ sent ∈ stream, Sent sent) →
      ∀ chunks : List Bytes, chunks.flatten = stream.flatMap Prod.snd →
        feedFrames onData [] chunks = (stream.map Prod.fst, .ok []) := by
  have hframed : ∀ sent, Sent sent → Framed decode sent.1 sent.2 :=
    fun sent h => (encode_encoded h.encodes h.noNul h.counted).framed h.fits
  refine ⟨fun sent h => (hframed sent h).whole, ?_⟩
  intro stream hstream chunks hchunks
  apply feedFrames_framed (fun _ => rfl) (fun sent h => hframed sent (hstream sent h))
  · cases stream with
    | nil => rfl
    | cons sent stream =>
      exact ⟨sent.2, (hframed sent (hstream sent mem_cons_self)).nonempty, rfl⟩
  · exact hchunks

def replySent : Message × Bytes :=
  (.reply ⟨⟨1, 2⟩, 0, 3, 0, 1,
    [[.mk (ascii "a") (.document [.mk (ascii "b") (.string (ascii "x"))]),
      .mk (ascii "c") (.boolean true)]]⟩,
   [62, 0, 0, 0, 1, 0, 0, 0, 2, 0, 0, 0, 1, 0, 0, 0, 0, 0, 0, 0, 3, 0, 0, 0, 0, 0, 0, 0,
    0, 0, 0, 0, 1, 0, 0, 0, 26, 0, 0, 0, 3, 97, 0, 14, 0, 0, 0, 2, 98, 0, 2, 0, 0, 0, 120, 0, 0,
    8, 99, 0, 1, 0])

def getMoreSent : Message × Bytes :=
  (.getMore ⟨⟨1, 2⟩, ascii "t", 5, -1⟩,
   [34, 0, 0, 0, 1, 0, 0, 0, 2, 0, 0, 0, 213, 7, 0, 0, 0, 0, 0, 0, 116, 0, 5, 0, 0, 0,
    255, 255, 255, 255, 255, 255, 255, 255])

theorem sent_replySent : Sent replySent := ⟨rfl, rfl, rfl, by decide⟩

theorem sent_getMoreSent : Sent getMoreSent := ⟨rfl, rfl, rfl, by decide⟩

theorem replySent_then_getMoreSent :
    decode (replySent.2 ++ [62, 0]) = .ok (some (replySent.1, [62, 0])) ∧ feedFrames onData []
          [replySent.2.take 3, replySent.2.drop 3 ++ getMoreSent.2.take 20, getMoreSent.2.drop 20] =
        ([replySent.1, getMoreSent.1], .ok []) := by
  refine ⟨decode_encode.1 replySent sent_replySent _, ?_⟩
  apply decode_encode.2 [replySent, getMoreSent]
  · intro sent hsent
    rcases mem_pair.mp hsent with rfl | rfl
    · exact sent_replySent
    · exact sent_getMoreSent
  · rfl

end Meliproxy.Envoy.Mongo
