import Meliproxy.Envoy.Mongo.BsonGrammar
import Meliproxy.Envoy.Mongo.CodecRoundTrip

/-!
# The bytes of a message

What the decoder takes for the body of each message, and where it oversteps the buffer. The bodies
of a query and of an insert depend on the length that the header announces, the others do not.
-/

namespace Meliproxy.Envoy.Mongo

open Lib Format Bson BufferHelper List

variable (ids : MessageIds)

def getMoreFormat : Format GetMoreMessage :=
  int32.seq fun _ _ => cString.seq fun fullCollectionName _ => int32.seq fun numberToReturn _ =>
    int64.map fun cursorId => ⟨ids, fullCollectionName, numberToReturn, cursorId⟩

def killCursorsFormat : Format KillCursorsMessage :=
  int32.seq fun _ _ => int32.seq fun numberOfCursorIds _ =>
    (int64.times numberOfCursorIds.toInt.toNat).map fun cursorIds =>
      ⟨ids, numberOfCursorIds, cursorIds⟩

def replyFormat : Format ReplyMessage :=
  int32.seq fun flags _ => int64.seq fun cursorId _ => int32.seq fun startingFrom _ =>
    int32.seq fun numberReturned _ => (Format.times SpellsDocument numberReturned.toInt.toNat).map
      fun documents => ⟨ids, flags, cursorId, startingFrom, numberReturned, documents⟩

def selectorFormat (consumed total : Nat) : Format (Option Document) :=
  if consumed = total then nothing none else Format.map some SpellsDocument

def queryFormat (total : Nat) : Format QueryMessage :=
  int32.seq fun flags flagBytes => cString.seq fun fullCollectionName nameBytes =>
    int32.seq fun numberToSkip skipBytes => int32.seq fun numberToReturn returnBytes =>
      Format.seq SpellsDocument fun query queryBytes => (selectorFormat
        (flagBytes ++ nameBytes ++ skipBytes ++ returnBytes ++ queryBytes).length total).map
          fun selector => ⟨ids, flags, fullCollectionName, numberToSkip, numberToReturn, some query,
            selector⟩

/-- Documents up to the end of a body of `total` bytes, of which so many are read. -/
inductive SpellsDocuments (total : Nat) : Nat → Bytes → List Document → Prop where
  | nil : SpellsDocuments total total [] []
  | cons {consumed : Nat} {front back : Bytes} {document : Document} {documents : List Document} :
      consumed ≠ total → SpellsDocument front document →
      SpellsDocuments total (consumed + front.length) back documents →
      SpellsDocuments total consumed (front ++ back) (document :: documents)

def insertFormat (total : Nat) : Format InsertMessage :=
  int32.seq fun flags flagBytes => cString.seq fun fullCollectionName nameBytes =>
    Format.map (fun documents => ⟨ids, flags, fullCollectionName, documents⟩)
      (SpellsDocuments total (flagBytes ++ nameBytes).length)

def bodyFormat (opCode : Int32) (total : Nat) : Format Message :=
  match OpCode.ofInt32 opCode with
  | some .reply => (replyFormat ids).map .reply
  | some .query => (queryFormat ids total).map .query
  | some .getMore => (getMoreFormat ids).map .getMore
  | some .insert => (insertFormat ids total).map .insert
  | some .killCursors => (killCursorsFormat ids).map .killCursors
  | _ => never

def restFormat (messageLength : UInt32) : Format Message :=
  int32.seq fun requestId _ => int32.seq fun responseTo _ => int32.seq fun opCode _ =>
    bodyFormat ⟨requestId, responseTo⟩ opCode (messageLength - 16).toNat

def messageFormat : Format Message :=
  int32.seq fun messageLength _ => restFormat messageLength.toUInt32

def BadReply : Bytes → Prop :=
  After int32 fun _ _ => After int64 fun _ _ => After int32 fun _ _ =>
    After int32 fun numberReturned _ =>
      BadTimes SpellsDocument BadDocument numberReturned.toInt.toNat

def BadGetMore : Bytes → Prop := After int32 fun _ _ => BadCString

def BadQuery (total : Nat) : Bytes → Prop :=
  After int32 fun _ flagBytes data => BadCString data ∨ After cString (fun _ nameBytes =>
    After int32 fun _ skipBytes => After int32 fun _ returnBytes data =>
      BadDocument data ∨ After SpellsDocument (fun _ queryBytes rest =>
        (flagBytes ++ nameBytes ++ skipBytes ++ returnBytes ++ queryBytes).length ≠ total ∧
          BadDocument rest) data) data

inductive BadDocuments (total : Nat) : Nat → Bytes → Prop where
  | document {consumed : Nat} {data : Bytes} : consumed ≠ total → BadDocument data →
      BadDocuments total consumed data
  | skip {consumed : Nat} {front rest : Bytes} {document : Document} : consumed ≠ total →
      SpellsDocument front document → BadDocuments total (consumed + front.length) rest →
      BadDocuments total consumed (front ++ rest)

def BadInsert (total : Nat) : Bytes → Prop :=
  After int32 fun _ flagBytes data => BadCString data ∨ After cString (fun _ nameBytes =>
    BadDocuments total (flagBytes ++ nameBytes).length) data

def BadBody (opCode : Int32) (total : Nat) (data : Bytes) : Prop :=
  match OpCode.ofInt32 opCode with
  | some .reply => BadReply data
  | some .query => BadQuery total data
  | some .getMore => BadGetMore data
  | some .insert => BadInsert total data
  | _ => False

def BadRest (messageLength : UInt32) : Bytes → Prop :=
  After int32 fun _ _ => After int32 fun _ _ => After int32 fun opCode _ =>
    BadBody opCode (messageLength - 16).toNat

def announcedLength (data : Bytes) : Nat := (word32 (data.take 4)).toUInt32.toNat

/-- The message is there as far as its header says, and its body is bad. -/
def Overreaches (data : Bytes) : Prop :=
  announcedLength data ≤ data.length ∧
    After int32 (fun messageLength _ => BadRest messageLength.toUInt32) data

variable {data : Bytes} (ids : MessageIds)

theorem describes_getMore :
    Describes .undefined (GetMoreMessage.fromBuffer ids) (getMoreFormat ids) (BadGetMore data)
      data := by
  apply (describes_removeInt32 data).bind_of_safe
  intro _ data _ _ _
  apply (describes_removeCString data).bind_safe
  intro _ data _ _ _
  apply (describes_removeInt32 data).bind_safe
  intro _ data _ _ _
  exact (describes_removeInt64 data).map

theorem describes_killCursors :
    Describes .undefined (KillCursorsMessage.fromBuffer ids) (killCursorsFormat ids) False
      data := by
  apply (describes_removeInt32 data).bind_safe
  intro _ data _ _ _
  apply (describes_removeInt32 data).bind_safe
  intro _ data _ _ _
  exact (describes_readTimes_safe _ fun _ rest _ => describes_removeInt64 rest).map

theorem describes_create_suffix (h : data.length < 2 ^ 64) (front rest : Bytes)
    (hdata : data = front ++ rest) :
    Describes .undefined create SpellsDocument (BadDocument rest) rest := by
  apply describes_create
  rw [hdata, length_append] at h
  omega

theorem describes_reply (h : data.length < 2 ^ 64) :
    Describes .undefined (ReplyMessage.fromBuffer ids) (replyFormat ids) (BadReply data) data := by
  apply (describes_removeInt32 data).bind_of_safe
  rintro flagBytes data _ rfl _
  apply (describes_removeInt64 data).bind_of_safe
  rintro cursorBytes data _ rfl _
  apply (describes_removeInt32 data).bind_of_safe
  rintro startBytes data _ rfl _
  apply (describes_removeInt32 data).bind_of_safe
  rintro numberBytes data _ rfl _
  apply Describes.map
  apply describes_readTimes
  apply describes_create_suffix
  simp only [length_append] at h
  omega

theorem describes_query (h : data.length < 2 ^ 64) (messageLength : UInt32) :
    Describes .undefined (QueryMessage.fromBuffer ids messageLength)
      (queryFormat ids messageLength.toNat) (BadQuery messageLength.toNat data) data := by
  apply describes_get
  generalize horiginal : data.length = original
  rw [horiginal] at h
  apply (describes_removeInt32 data).bind_of_safe
  rintro flagBytes data flags rfl _
  apply (describes_removeCString data).bind
  rintro nameBytes data fullCollectionName rfl _
  apply (describes_removeInt32 data).bind_of_safe
  rintro skipBytes data numberToSkip rfl _
  apply (describes_removeInt32 data).bind_of_safe
  rintro returnBytes data numberToReturn rfl _
  have hlength : data.length < 2 ^ 64 := by
    simp only [length_append] at horiginal
    omega
  apply (describes_create hlength).bind
  rintro queryBytes data query rfl _
  have hlength' : data.length < 2 ^ 64 := by
    rw [length_append] at hlength
    omega
  apply describes_get
  have hremaining : bytesRemaining data.length original messageLength.toUInt64 = 0 ↔
      (flagBytes ++ nameBytes ++ skipBytes ++ returnBytes ++ queryBytes).length =
        messageLength.toNat := by
    apply bytesRemaining_eq_iff (by simp only [← horiginal, length_append]; omega) h
    exact Nat.zero_le data.length
  by_cases hend : bytesRemaining data.length original messageLength.toUInt64 = 0
  · have htotal := hremaining.mp hend
    rw [if_pos hend, selectorFormat, if_pos htotal]
    apply ((describes_pure none).map.congr_reader rfl).congr
    · intro bytes rest message _
      exact Iff.rfl
    · exact ⟨False.elim, fun hbad => hbad.1 htotal⟩
  · have htotal := mt hremaining.mpr hend
    rw [if_neg hend, selectorFormat, if_neg htotal]
    apply (describes_create hlength').map.congr
    · intro bytes rest message _
      constructor
      · rintro ⟨selector, hselector, rfl⟩
        exact ⟨some selector, ⟨selector, hselector, rfl⟩, rfl⟩
      · rintro ⟨_, ⟨selector, hselector, rfl⟩, rfl⟩
        exact ⟨selector, hselector, rfl⟩
    · exact (and_iff_right htotal).symm

theorem describes_removeDocuments {fuel consumed original : Nat} {messageLength : UInt64}
    (hfuel : data.length < fuel) (hread : consumed + data.length = original)
    (horiginal : original < 2 ^ 64) :
    Describes .undefined (removeDocuments fuel original messageLength)
      (SpellsDocuments messageLength.toNat consumed)
      (BadDocuments messageLength.toNat consumed data) data := by
  induction fuel generalizing data consumed with
  | zero => exact absurd hfuel (Nat.not_lt_zero _)
  | succ fuel ih =>
    have hremaining : bytesRemaining data.length original messageLength = 0 ↔
        consumed = messageLength.toNat :=
      bytesRemaining_eq_iff hread horiginal (Nat.zero_le data.length)
    rw [removeDocuments]
    apply describes_get
    apply describes_ite
    · intro hend
      apply (describes_pure []).congr
      · intro bytes rest documents _
        constructor
        · rintro ⟨rfl, rfl⟩
          rw [hremaining.mp hend]
          exact .nil
        · intro hspelled
          cases hspelled with
          | nil => exact ⟨rfl, rfl⟩
          | cons hne _ _ => exact absurd (hremaining.mp hend) hne
      · refine ⟨False.elim, fun hbad => ?_⟩
        cases hbad <;> exact absurd (hremaining.mp hend) ‹_›
    · intro hend
      have hne := mt hremaining.mpr hend
      have hlength : data.length < 2 ^ 64 := by omega
      apply ((describes_create hlength).bind fun front rest document hdata hdocument =>
        (ih ?_ ?_).map).congr
      · intro bytes rest documents _
        constructor
        · rintro ⟨front, back, document, rfl, hdocument, documents, hdocuments, rfl⟩
          exact .cons hne hdocument hdocuments
        · intro hspelled
          cases hspelled with
          | nil => exact absurd rfl hne
          | cons _ hdocument hdocuments =>
            exact ⟨_, _, _, rfl, hdocument, _, hdocuments, rfl⟩
      · constructor
        · rintro (hbad | ⟨front, rest, document, rfl, hdocument, hbad⟩)
          · exact .document hne hbad
          · exact .skip hne hdocument hbad
        · intro hbad
          cases hbad with
          | document _ hbad => exact .inl hbad
          | skip _ hdocument hbad => exact .inr ⟨_, _, _, rfl, hdocument, hbad⟩
      · have hpos := hdocument.length_pos
        rw [hdata, length_append] at hfuel
        omega
      · rw [hdata, length_append] at hread
        omega

theorem describes_insert (h : data.length < 2 ^ 64) (messageLength : UInt32) :
    Describes .undefined (InsertMessage.fromBuffer ids messageLength)
      (insertFormat ids messageLength.toNat) (BadInsert messageLength.toNat data) data := by
  apply describes_get
  generalize horiginal : data.length = original
  rw [horiginal] at h
  apply (describes_removeInt32 data).bind_of_safe
  rintro flagBytes data flags rfl _
  apply (describes_removeCString data).bind
  rintro nameBytes data fullCollectionName rfl _
  simp only [length_append] at horiginal
  apply Describes.map
  apply describes_removeDocuments
  · omega
  · rw [length_append]
    omega
  · exact h

theorem describes_decodeBody (h : data.length < 2 ^ 64) (opCode : Int32) (messageLength : UInt32) :
    Describes .undefined (decodeBody ids opCode messageLength)
      (bodyFormat ids opCode messageLength.toNat) (BadBody opCode messageLength.toNat data)
      data := by
  unfold decodeBody bodyFormat BadBody
  cases OpCode.ofInt32 opCode with
  | none => exact describes_throw_of_ne nofun
  | some op =>
    cases op with
    | reply => exact (describes_reply ids h).map
    | query => exact (describes_query ids h messageLength).map
    | getMore => exact (describes_getMore ids).map
    | insert => exact (describes_insert ids h messageLength).map
    | killCursors => exact (describes_killCursors ids).map
    | msg | update | delete => exact describes_throw_of_ne nofun

theorem describes_drain {n : Nat} (h : n ≤ data.length) :
    Describes .undefined (drain n) (fun bytes _ => bytes = data.take n) False data := by
  apply (describes_ok (drain_eq h)).congr
  · intro bytes rest _ _
    exact and_iff_left rfl
  · exact Iff.rfl

theorem int32_iff {front rest : Bytes} {messageLength : Int32} (hheader : 4 ≤ data.length)
    (hdata : data = front ++ rest) : int32 front messageLength ↔
      front = data.take 4 ∧ messageLength = word32 (data.take 4) := by
  constructor
  · rintro ⟨hfour, rfl⟩
    have htake : data.take 4 = front := by rw [hdata, ← hfour, take_left]
    rw [htake]
    exact ⟨rfl, rfl⟩
  · rintro ⟨rfl, rfl⟩
    exact ⟨length_take_of_le hheader, rfl⟩

theorem describes_rest (h : data.length < 2 ^ 64) (messageLength : UInt32) :
    Describes .undefined
      (do
        let requestId ← removeInt32
        let responseTo ← removeInt32
        let opCode ← removeInt32
        decodeBody ⟨requestId, responseTo⟩ opCode (messageLength - 16))
      (restFormat messageLength) (BadRest messageLength data) data := by
  apply (describes_removeInt32 data).bind_of_safe
  rintro requestBytes data requestId rfl _
  apply (describes_removeInt32 data).bind_of_safe
  rintro responseBytes data responseTo rfl _
  apply (describes_removeInt32 data).bind_of_safe
  rintro opCodeBytes data opCode rfl _
  apply describes_decodeBody
  simp only [length_append] at h
  omega

theorem describes_decodeMessage (hheader : 4 ≤ data.length) (h : data.length < 2 ^ 64) :
    Describes .undefined (decodeMessage (word32 (data.take 4)).toUInt32) messageFormat
      (After int32 (fun messageLength _ => BadRest messageLength.toUInt32) data) data := by
  generalize hlength : word32 (data.take 4) = messageLength
  apply ((describes_drain hheader).bind_of_safe fun front rest _ hdata _ =>
    describes_rest ?_ messageLength.toUInt32).congr
  · intro bytes rest message hdata
    constructor
    · rintro ⟨front, back, _, rfl, hfront, hrest⟩
      rw [append_assoc] at hdata
      exact ⟨front, back, _, rfl, (int32_iff hheader hdata).mpr ⟨hfront, hlength.symm⟩, hrest⟩
    · rintro ⟨front, back, _, rfl, hfront, hrest⟩
      rw [append_assoc] at hdata
      obtain ⟨htake, rfl⟩ := (int32_iff hheader hdata).mp hfront
      rw [hlength] at hrest
      exact ⟨front, back, ⟨⟩, rfl, htake, hrest⟩
  · constructor
    · rintro ⟨front, rest, _, hdata, hfront, hrest⟩
      exact ⟨front, rest, _, hdata, (int32_iff hheader hdata).mpr ⟨hfront, hlength.symm⟩, hrest⟩
    · rintro ⟨front, rest, _, hdata, hfront, hrest⟩
      obtain ⟨htake, rfl⟩ := (int32_iff hheader hdata).mp hfront
      rw [hlength] at hrest
      exact ⟨front, rest, ⟨⟩, hdata, htake, hrest⟩
  · rw [hdata, length_append] at h
    omega

theorem decode_waits (h : data.length < 4 ∨ data.length < announcedLength data) :
    decode data = .ok none := by
  by_cases hheader : data.length < 4
  · rw [decode, if_pos hheader]
  · have hlt : data.length < (word32 (data.take 4)).toUInt32.toNat := h.resolve_left hheader
    rw [decode, if_neg hheader, peakInt32_eq (Nat.not_lt.mp hheader)]
    exact if_pos hlt

theorem decode_whole (hheader : 4 ≤ data.length) (h : announcedLength data ≤ data.length) :
    decode data = (decodeMessage (word32 (data.take 4)).toUInt32 data).map some := by
  have hle : ¬ data.length < (word32 (data.take 4)).toUInt32.toNat := Nat.not_lt.mpr h
  rw [decode, if_neg (Nat.not_lt.mpr hheader), peakInt32_eq hheader]
  exact if_neg hle

variable {message : Message}

theorem messageFormat_header {bytes rest : Bytes} (hdata : data = bytes ++ rest)
    (h : messageFormat bytes message) : 4 ≤ data.length := by
  obtain ⟨front, back, messageLength, rfl, ⟨hfour, -⟩, -⟩ := h
  rw [hdata, length_append, length_append]
  omega

theorem Overreaches.header (h : Overreaches data) : 4 ≤ data.length := by
  obtain ⟨-, front, rest, messageLength, rfl, ⟨hfour, -⟩, -⟩ := h
  rw [length_append]
  omega

theorem decode_some_iff (h : data.length < 2 ^ 64) {rest : Bytes} :
    decode data = .ok (some (message, rest)) ↔
      announcedLength data ≤ data.length ∧ ∃ bytes, data = bytes ++ rest ∧
        messageFormat bytes message := by
  by_cases hwait : data.length < 4 ∨ data.length < announcedLength data
  · rw [decode_waits hwait]
    refine ⟨nofun, ?_⟩
    rintro ⟨hwhole, bytes, hdata, hspelled⟩
    have hheader := messageFormat_header hdata hspelled
    omega
  · obtain ⟨hheader, hwhole⟩ : 4 ≤ data.length ∧ announcedLength data ≤ data.length := by omega
    have hmessage := describes_decodeMessage hheader h
    rw [decode_whole hheader hwhole]
    constructor
    · intro hdecode
      cases hread : decodeMessage (word32 (data.take 4)).toUInt32 data with
      | error failure =>
        rw [hread] at hdecode
        cases hdecode
      | ok read =>
        rw [hread] at hdecode
        cases Except.ok.inj hdecode
        exact ⟨hwhole, hmessage.spelled message rest hread⟩
    · rintro ⟨-, bytes, hdata, hspelled⟩
      rw [hmessage.reads bytes rest message hdata hspelled]
      rfl

theorem decode_undefined_iff (h : data.length < 2 ^ 64) :
    decode data = .error .undefined ↔ Overreaches data := by
  by_cases hwait : data.length < 4 ∨ data.length < announcedLength data
  · rw [decode_waits hwait]
    refine ⟨nofun, fun hover => ?_⟩
    have hheader := hover.header
    have hwhole := hover.1
    omega
  · obtain ⟨hheader, hwhole⟩ : 4 ≤ data.length ∧ announcedLength data ≤ data.length := by omega
    have hmessage := describes_decodeMessage hheader h
    rw [decode_whole hheader hwhole, Overreaches, and_iff_right hwhole, ← hmessage.fails]
    cases decodeMessage (word32 (data.take 4)).toUInt32 data with
    | error failure =>
      exact ⟨fun h => congrArg Except.error (Except.error.inj h),
        fun h => congrArg Except.error (Except.error.inj h)⟩
    | ok read => exact ⟨nofun, nofun⟩

/-- Whatever the buffer holds, the only failure of the decoder is an exception, unless the message
oversteps the buffer. -/
theorem decode_inside_iff (h : data.length < 2 ^ 64) :
    (∀ failure, decode data = .error failure → ∃ what, failure = .exception what) ↔
      ¬ Overreaches data := by
  rw [← decode_undefined_iff h]
  constructor
  · intro hall hfail
    obtain ⟨what, hwhat⟩ := hall .undefined hfail
    cases hwhat
  · intro hdefined failure hfail
    cases failure with
    | exception what => exact ⟨what, rfl⟩
    | undefined => exact absurd hfail hdefined

def longString : Bytes :=
  [48, 0, 0, 0, 1, 0, 0, 0, 2, 0, 0, 0, 1, 0, 0, 0, 0, 0, 0, 0, 3, 0, 0, 0, 0, 0, 0, 0,
    0, 0, 0, 0, 1, 0, 0, 0, 12, 0, 0, 0, 2, 97, 0, 100, 0, 0, 0, 0]

theorem longString_overreaches : Overreaches longString ∧ ¬ Overreaches getMoreSent.2 := by
  constructor
  · rw [← not_not (a := Overreaches longString), ← decode_inside_iff (by decide)]
    intro hall
    obtain ⟨what, hwhat⟩ := hall .undefined rfl
    cases hwhat
  · rw [← decode_inside_iff (by decide)]
    intro failure hfail
    cases hfail

theorem longString_undefined :
    ¬ ∀ failure, decode longString = .error failure → ∃ what, failure = .exception what := by
  intro hall
  obtain ⟨what, hwhat⟩ := hall .undefined rfl
  cases hwhat

/-!
## Where a message ends

Only the bodies of queries and inserts are read up to the length that the header announces. The
others end where their fields end, which may be in front of the next message or behind its start.
-/

/-- What a call of the decoder does to the buffer if it minds the frames: a message takes as many
bytes as its header announces. -/
def TakesAnnounced (data : Bytes) : Prop :=
  match decode data with
  | .ok none => True
  | .ok (some (_, rest)) => ∃ bytes, data = bytes ++ rest ∧ bytes.length = announcedLength data
  | .error (.exception _) => True
  | .error .undefined => False

/-- The fields of the message in front, if there are such fields, end where the header says. -/
structure EndsAnnounced (data : Bytes) : Prop where
  inside : ¬ Overreaches data
  ends : ∀ bytes rest message, announcedLength data ≤ data.length → data = bytes ++ rest →
    messageFormat bytes message → bytes.length = announcedLength data

variable {data : Bytes}

theorem takesAnnounced_iff (h : data.length < 2 ^ 64) :
    TakesAnnounced data ↔ EndsAnnounced data := by
  constructor
  · intro htakes
    constructor
    · rw [← decode_undefined_iff h]
      intro hfail
      rw [TakesAnnounced, hfail] at htakes
      exact htakes
    · intro bytes rest message hwhole hdata hspelled
      rw [TakesAnnounced, (decode_some_iff h).mpr ⟨hwhole, bytes, hdata, hspelled⟩] at htakes
      obtain ⟨taken, htaken, hlength⟩ := htakes
      rw [hdata] at htaken
      rw [append_cancel_right htaken]
      exact hlength
  · intro hends
    unfold TakesAnnounced
    split
    · trivial
    · next message rest hdecode =>
      obtain ⟨hwhole, bytes, hdata, hspelled⟩ := (decode_some_iff h).mp hdecode
      exact ⟨bytes, hdata, hends.ends bytes rest message hwhole hdata hspelled⟩
    · trivial
    · next hfail => exact hends.inside ((decode_undefined_iff h).mp hfail)

theorem announcedLength_append (h : 4 ≤ data.length) (rest : Bytes) :
    announcedLength (data ++ rest) = announcedLength data := by
  rw [announcedLength, announcedLength, take_append_of_le_length h]

/-- Bytes that spell a message of the announced length are a frame. -/
theorem framedWithin_of_format (hspelled : messageFormat data message)
    (hlength : data.length = announcedLength data) : FramedWithin (2 ^ 64) decode message data := by
  have hheader := messageFormat_header (append_nil data).symm hspelled
  refine ⟨length_pos_iff.mp (by omega), ?_, ?_⟩
  · intro rest hlimit
    rw [decode_some_iff hlimit, announcedLength_append hheader, ← hlength]
    exact ⟨(prefix_append data rest).length_le, data, rfl, hspelled⟩
  · rintro front back rfl hback
    have hpos := length_pos_iff.mpr hback
    rw [length_append] at hlength
    apply decode_waits
    by_cases hfront : front.length < 4
    · exact .inl hfront
    · rw [announcedLength_append (Nat.not_lt.mp hfront)] at hlength
      omega

theorem EndsAnnounced.takesFrame (h : EndsAnnounced data) : TakesFrame (2 ^ 64) decode data := by
  intro hlimit message rest hdecode
  obtain ⟨hwhole, bytes, hdata, hspelled⟩ := (decode_some_iff hlimit).mp hdecode
  have hlength := h.ends bytes rest message hwhole hdata hspelled
  refine ⟨bytes, hdata, framedWithin_of_format hspelled ?_⟩
  have hheader := messageFormat_header (append_nil bytes).symm hspelled
  rw [hlength, hdata, announcedLength_append hheader]

/-- A call takes what the header announces exactly if the fields end there. In two runs over one
stream whose calls are all of that kind the same messages come out. -/
theorem decode_framing (data : Bytes) (chunks chunks' : List Bytes) (h : data.length < 2 ^ 64)
    (hlimit : chunks.flatten.length < 2 ^ 64) : (TakesAnnounced data ↔ EndsAnnounced data) ∧
    (chunks.flatten = chunks'.flatten → (∀ call ∈ feedCalls decode [] chunks, EndsAnnounced call) →
      (∀ call ∈ feedCalls decode [] chunks', EndsAnnounced call) →
      (feedFrames onData [] chunks).1 = (feedFrames onData [] chunks').1) := by
  refine ⟨takesAnnounced_iff h, ?_⟩
  intro hstream hcalls hcalls'
  apply feedFrames_cut (fun _ => rfl) hstream hlimit
  · exact fun call hcall => (hcalls call hcall).takesFrame
  · exact fun call hcall => (hcalls' call hcall).takesFrame

def shortGetMore : Bytes :=
  [16, 0, 0, 0, 1, 0, 0, 0, 2, 0, 0, 0, 213, 7, 0, 0, 0, 0, 0, 0, 116, 0, 5, 0, 0, 0,
    255, 255, 255, 255, 255, 255, 255, 255]

theorem endsAnnounced_samples : EndsAnnounced getMoreSent.2 ∧ EndsAnnounced replySent.2 ∧
    EndsAnnounced (getMoreSent.2 ++ replySent.2) ∧ EndsAnnounced (getMoreSent.2.take 20) := by
  refine ⟨?_, ?_, ?_, ?_⟩
  · rw [← takesAnnounced_iff (by decide)]
    exact ⟨getMoreSent.2, rfl, rfl⟩
  · rw [← takesAnnounced_iff (by decide)]
    exact ⟨replySent.2, rfl, rfl⟩
  · rw [← takesAnnounced_iff (by decide)]
    exact ⟨getMoreSent.2, rfl, rfl⟩
  · rw [← takesAnnounced_iff (by decide)]
    trivial

theorem decode_framing_sample : TakesAnnounced getMoreSent.2 ∧
      (feedFrames onData [] [getMoreSent.2, replySent.2]).1 =
        (feedFrames onData [] [getMoreSent.2.take 20, getMoreSent.2.drop 20 ++ replySent.2]).1 := by
  obtain ⟨hcall, hruns⟩ := decode_framing getMoreSent.2 [getMoreSent.2, replySent.2]
    [getMoreSent.2.take 20, getMoreSent.2.drop 20 ++ replySent.2] (by decide) (by decide)
  refine ⟨hcall.mpr endsAnnounced_samples.1, hruns rfl ?_ ?_⟩
  · rintro call (_ | ⟨_, _ | ⟨_, ⟨⟩⟩⟩)
    · exact endsAnnounced_samples.1
    · exact endsAnnounced_samples.2.1
  · rintro call (_ | ⟨_, _ | ⟨_, _ | ⟨_, ⟨⟩⟩⟩⟩)
    · exact endsAnnounced_samples.2.2.2
    · exact endsAnnounced_samples.2.2.1
    · exact endsAnnounced_samples.2.1

theorem shortGetMore_overtaken : ¬ TakesAnnounced shortGetMore ∧
      (feedFrames onData [] [shortGetMore]).1 ≠
        (feedFrames onData [] [shortGetMore.take 16, shortGetMore.drop 16]).1 := by
  constructor
  · rintro ⟨bytes, hdata, hlength⟩
    obtain rfl : shortGetMore = bytes := hdata.trans (append_nil bytes)
    exact absurd hlength (by decide)
  · intro hsame
    exact absurd (congrArg List.length hsame) (by decide)

end Meliproxy.Envoy.Mongo
