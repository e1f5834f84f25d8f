import Meliproxy.Envoy.Mongo.Bson

/-!
# The Mongo codec

The five messages that Envoy knows, `EncoderImpl`, which refuses some of them, and `DecoderImpl`,
which waits for as many bytes as the header of a message announces and then reads the message with
the others in the buffer behind it.
-/

namespace Meliproxy.Envoy.Mongo

open Lib Bson BufferHelper

inductive OpCode where
  | reply
  | msg
  | update
  | insert
  | query
  | getMore
  | delete
  | killCursors

def OpCode.toInt32 : OpCode → Int32
  | .reply => 1
  | .msg => 1000
  | .update => 2001
  | .insert => 2002
  | .query => 2004
  | .getMore => 2005
  | .delete => 2006
  | .killCursors => 2007

def OpCode.all : List OpCode :=
  [.reply, .msg, .update, .insert, .query, .getMore, .delete, .killCursors]

def OpCode.ofInt32 (op : Int32) : Option OpCode := OpCode.all.find? fun o => o.toInt32 = op

/-- What every message has. -/
structure MessageIds where
  requestId : Int32
  responseTo : Int32

structure GetMoreMessage extends MessageIds where
  fullCollectionName : Bytes
  numberToReturn : Int32
  cursorId : Int64

structure InsertMessage extends MessageIds where
  flags : Int32
  fullCollectionName : Bytes
  documents : List Document

structure KillCursorsMessage extends MessageIds where
  numberOfCursorIds : Int32
  cursorIds : List Int64

structure QueryMessage extends MessageIds where
  flags : Int32
  fullCollectionName : Bytes
  numberToSkip : Int32
  numberToReturn : Int32
  query : Option Document
  returnFieldsSelector : Option Document

structure ReplyMessage extends MessageIds where
  flags : Int32
  cursorId : Int64
  startingFrom : Int32
  numberReturned : Int32
  documents : List Document

inductive Message where
  | getMore (message : GetMoreMessage)
  | insert (message : InsertMessage)
  | killCursors (message : KillCursorsMessage)
  | query (message : QueryMessage)
  | reply (message : ReplyMessage)

def encodeCommonHeader (totalSize : Int32) (ids : MessageIds) (op : OpCode) : Bytes :=
  writeInt32 totalSize ++ (writeInt32 ids.requestId ++
    (writeInt32 ids.responseTo ++ writeInt32 op.toInt32))

/-- The size of a message with these documents, the other fields taking `size`. -/
def addByteSizes (size : Int32) (documents : List Document) : Int32 :=
  documents.foldl (fun total document => total + Document.byteSize document) size

def encodeGetMore (message : GetMoreMessage) : Except Failure Bytes :=
  if message.fullCollectionName = [] ∨ message.cursorId = 0 then
    .error (exception "invalid get more message")
  else
    let totalSize := Int32.ofNat (16 + 16 + message.fullCollectionName.length + 1)
    .ok (encodeCommonHeader totalSize message.toMessageIds .getMore ++
      (writeInt32 0 ++ (writeCString message.fullCollectionName ++
        (writeInt32 message.numberToReturn ++ writeInt64 message.cursorId))))

def encodeInsert (message : InsertMessage) : Except Failure Bytes :=
  if message.fullCollectionName = [] ∨ message.documents = [] then
    .error (exception "invalid insert message")
  else
    let totalSize :=
      addByteSizes (Int32.ofNat (16 + 4 + message.fullCollectionName.length + 1)) message.documents
    .ok (encodeCommonHeader totalSize message.toMessageIds .insert ++
      (writeInt32 message.flags ++ (writeCString message.fullCollectionName ++
        message.documents.flatMap Document.encode)))

def encodeKillCursors (message : KillCursorsMessage) : Except Failure Bytes :=
  if message.numberOfCursorIds = 0 ∨
      message.numberOfCursorIds ≠ Int32.ofNat message.cursorIds.length then
    .error (exception "invalid kill cursors message")
  else
    let totalSize := 16 + 8 + message.numberOfCursorIds * 8
    .ok (encodeCommonHeader totalSize message.toMessageIds .killCursors ++
      (writeInt32 0 ++ (writeInt32 message.numberOfCursorIds ++
        message.cursorIds.flatMap writeInt64)))

def encodeQuery (message : QueryMessage) : Except Failure Bytes :=
  match message.query with
  | none => .error (exception "invalid query message")
  | some query =>
    if message.fullCollectionName = [] then .error (exception "invalid query message")
    else
      let totalSize := addByteSizes
        (Int32.ofNat (16 + 12 + message.fullCollectionName.length + 1) + Document.byteSize query)
        message.returnFieldsSelector.toList
      .ok (encodeCommonHeader totalSize message.toMessageIds .query ++
        (writeInt32 message.flags ++ (writeCString message.fullCollectionName ++
          (writeInt32 message.numberToSkip ++ (writeInt32 message.numberToReturn ++
            (Document.encode query ++ message.returnFieldsSelector.toList.flatMap Document.encode))))))

def encodeReply (message : ReplyMessage) : Except Failure Bytes :=
  let totalSize := addByteSizes (16 + 20) message.documents
  .ok (encodeCommonHeader totalSize message.toMessageIds .reply ++
    (writeInt32 message.flags ++ (writeInt64 message.cursorId ++
      (writeInt32 message.startingFrom ++ (writeInt32 message.numberReturned ++
        message.documents.flatMap Document.encode)))))

def encode : Message → Except Failure Bytes
  | .getMore message => encodeGetMore message
  | .insert message => encodeInsert message
  | .killCursors message => encodeKillCursors message
  | .query message => encodeQuery message
  | .reply message => encodeReply message

variable (ids : MessageIds)

def GetMoreMessage.fromBuffer : BufferReader GetMoreMessage := do
  let _zero ← removeInt32
  let fullCollectionName ← removeCString
  let numberToReturn ← removeInt32
  let cursorId ← removeInt64
  return ⟨ids, fullCollectionName, numberToReturn, cursorId⟩

/-- The loop of `InsertMessageImpl::fromBuffer`, which ends with the message. Each document takes
a byte off the buffer. -/
def removeDocuments : Nat → Nat → UInt64 → BufferReader (List Document)
  | 0, _, _ => throw .undefined
  | fuel + 1, original, messageLength => do
    let data ← get
    if bytesRemaining data.length original messageLength = 0 then return []
    let document ← create
    let documents ← removeDocuments fuel original messageLength
    return document :: documents

/-- The assertion that the buffer holds the message is not compiled into a release. -/
def InsertMessage.fromBuffer (messageLength : UInt32) : BufferReader InsertMessage := do
  let data ← get
  let flags ← removeInt32
  let fullCollectionName ← removeCString
  let documents ← removeDocuments (data.length + 1) data.length messageLength.toUInt64
  return ⟨ids, flags, fullCollectionName, documents⟩

def KillCursorsMessage.fromBuffer : BufferReader KillCursorsMessage := do
  let _zero ← removeInt32
  let numberOfCursorIds ← removeInt32
  let cursorIds ← readTimes removeInt64 numberOfCursorIds.toInt.toNat
  return ⟨ids, numberOfCursorIds, cursorIds⟩

def QueryMessage.fromBuffer (messageLength : UInt32) : BufferReader QueryMessage := do
  let data ← get
  let flags ← removeInt32
  let fullCollectionName ← removeCString
  let numberToSkip ← removeInt32
  let numberToReturn ← removeInt32
  let query ← create
  let left ← get
  if bytesRemaining left.length data.length messageLength.toUInt64 = 0 then
    return ⟨ids, flags, fullCollectionName, numberToSkip, numberToReturn, some query, none⟩
  let returnFieldsSelector ← create
  return ⟨ids, flags, fullCollectionName, numberToSkip, numberToReturn, some query,
    some returnFieldsSelector⟩

def ReplyMessage.fromBuffer : BufferReader ReplyMessage := do
  let flags ← removeInt32
  let cursorId ← removeInt64
  let startingFrom ← removeInt32
  let numberReturned ← removeInt32
  let documents ← readTimes create numberReturned.toInt.toNat
  return ⟨ids, flags, cursorId, startingFrom, numberReturned, documents⟩

def decodeBody (opCode : Int32) (messageLength : UInt32) : BufferReader Message :=
  match OpCode.ofInt32 opCode with
  | some .reply => do return .reply (← ReplyMessage.fromBuffer ids)
  | some .query => do return .query (← QueryMessage.fromBuffer ids messageLength)
  | some .getMore => do return .getMore (← GetMoreMessage.fromBuffer ids)
  | some .insert => do return .insert (← InsertMessage.fromBuffer ids messageLength)
  | some .killCursors => do return .killCursors (← KillCursorsMessage.fromBuffer ids)
  | _ => throw (.exception (ascii "invalid mongo op " ++ formatInt opCode.toInt))

/-- A message that is in the buffer. The length without the header is what the messages ask for. -/
def decodeMessage (messageLength : UInt32) : BufferReader Message := do
  drain 4
  let requestId ← removeInt32
  let responseTo ← removeInt32
  let opCode ← removeInt32
  decodeBody ⟨requestId, responseTo⟩ opCode (messageLength - 16)

/-- `DecoderImpl::decode`: the message and what is left, or nothing if it is not there yet. -/
def decode (data : Bytes) : Except Failure (Option (Message × Bytes)) :=
  if data.length < 4 then .ok none
  else
    match peakInt32 data with
    | .error failure => .error failure
    | .ok (messageLength, _) =>
      if data.length < messageLength.toUInt32.toNat then .ok none
      else (decodeMessage messageLength.toUInt32 data).map some

/-- `DecoderImpl::onData`: the messages, and the buffer afterwards or the failure. A message takes
its header off the buffer, so there are not more of them than bytes. -/
def onData (data : Bytes) : List Message × Except Failure Bytes :=
  drainFrames decode data.length data

end Meliproxy.Envoy.Mongo
