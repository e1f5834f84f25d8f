import Meliproxy.Lib.Wire

/-!
# BSON documents

`BufferHelper`, `FieldImpl` and `DocumentImpl`. A buffer is the list of its bytes, and a reader
either throws, which ends the message, or does something that the code is not allowed to do:
`linearize` and `drain` past the end of the buffer, the string of a null pointer, or one that does
not end in the bytes that are there. A double is the pattern of its bits, as it goes over the wire.

The decoder is given fuel for the fields and the documents that it reads. Both take a byte off
the buffer, so as much fuel as there are bytes is enough.
-/

namespace Meliproxy.Envoy.Bson

open Lib

inductive Failure where
  | exception (what : Bytes)
  | undefined

abbrev BufferReader (α : Type) := Reader Failure α

def exception (what : String) : Failure := .exception (ascii what)

namespace BufferHelper

def peakInt32 : BufferReader Int32 := do
  let data ← get
  if data.length < 4 then throw (exception "invalid buffer size")
  return (UInt32.ofNat (fromLittleEndian (data.take 4))).toInt32

/-- `drain` of the buffer, with its assertion. -/
def drain (size : Nat) : BufferReader Unit := do
  let data ← get
  if data.length < size then throw .undefined
  set (data.drop size)

def removeByte : BufferReader UInt8 := do
  match ← get with
  | [] => throw (exception "invalid buffer size")
  | byte :: data =>
    set data
    return byte

def removeBytes (length : Nat) : BufferReader { bytes : Bytes // bytes.length = length } := do
  let data ← get
  if h : data.length < length then throw (exception "invalid buffer size")
  else
    set (data.drop length)
    return ⟨data.take length, List.length_take_of_le (Nat.le_of_not_lt h)⟩

/-- The size that `linearize` gets has 32 bits, so a longer string does not end there. -/
def removeCString : BufferReader Bytes := do
  let data ← get
  if 0 ∉ data then throw (exception "invalid CString")
  let value := data.takeWhile (· ≠ 0)
  if 2 ^ 32 ≤ value.length + 1 then throw .undefined
  drain (value.length + 1)
  return value

def removeInt32 : BufferReader Int32 := do
  let value ← peakInt32
  drain 4
  return value

def removeInt64 : BufferReader Int64 := do
  let data ← get
  if data.length < 8 then throw (exception "invalid buffer size")
  drain 8
  return (UInt64.ofNat (fromLittleEndian (data.take 8))).toInt64

def removeDouble : BufferReader UInt64 := do
  let value ← removeInt64
  return value.toUInt64

/-- The string ends at its first NUL, which has to be among the bytes that are there. -/
def removeString : BufferReader Bytes := do
  let length ← removeInt32
  let data ← get
  let size := length.toInt.toNat
  if length ≤ 0 ∨ data.length < size ∨ 0 ∉ data.take size then throw .undefined
  drain size
  return (data.take size).takeWhile (· ≠ 0)

def removeBinary : BufferReader Bytes := do
  let length ← removeInt32
  let _subtype ← removeByte
  let data ← get
  let size := length.toInt.toNat
  if length < 0 ∨ data.length < size then throw .undefined
  drain size
  return data.take size

def writeCString (value : Bytes) : Bytes := value ++ [0]

def writeInt32 (value : Int32) : Bytes := littleEndian 4 value.toUInt32.toNat

def writeInt64 (value : Int64) : Bytes := littleEndian 8 value.toUInt64.toNat

def writeDouble (value : UInt64) : Bytes := writeInt64 value.toInt64

def writeString (value : Bytes) : Bytes :=
  writeInt32 (Int32.ofNat (value.length + 1)) ++ (value ++ [0])

def writeBinary (value : Bytes) : Bytes := writeInt32 (Int32.ofNat value.length) ++ (0 :: value)

end BufferHelper

inductive FieldType where
  | double
  | string
  | document
  | array
  | binary
  | objectId
  | boolean
  | datetime
  | nullValue
  | regex
  | int32
  | timestamp
  | int64

def FieldType.toByte : FieldType → UInt8
  | .double => 0x01
  | .string => 0x02
  | .document => 0x03
  | .array => 0x04
  | .binary => 0x05
  | .objectId => 0x07
  | .boolean => 0x08
  | .datetime => 0x09
  | .nullValue => 0x0A
  | .regex => 0x0B
  | .int32 => 0x10
  | .timestamp => 0x11
  | .int64 => 0x12

def FieldType.all : List FieldType :=
  [.double, .string, .document, .array, .binary, .objectId, .boolean, .datetime, .nullValue, .regex,
    .int32, .timestamp, .int64]

def FieldType.ofByte (byte : UInt8) : Option FieldType := FieldType.all.find? fun t => t.toByte = byte

abbrev ObjectId := { id : Bytes // id.length = 12 }

structure Regex where
  pattern : Bytes
  options : Bytes

mutual

inductive Field where
  | mk (key : Bytes) (value : Value)

/-- The type and the value of a field. -/
inductive Value where
  | double (value : UInt64)
  | string (value : Bytes)
  | document (fields : List Field)
  | array (fields : List Field)
  | binary (value : Bytes)
  | objectId (value : ObjectId)
  | boolean (value : Bool)
  | datetime (value : Int64)
  | nullValue
  | regex (value : Regex)
  | int32 (value : Int32)
  | timestamp (value : Int64)
  | int64 (value : Int64)

end

abbrev Document := List Field

def Value.type : Value → FieldType
  | .double _ => .double
  | .string _ => .string
  | .document _ => .document
  | .array _ => .array
  | .binary _ => .binary
  | .objectId _ => .objectId
  | .boolean _ => .boolean
  | .datetime _ => .datetime
  | .nullValue => .nullValue
  | .regex _ => .regex
  | .int32 _ => .int32
  | .timestamp _ => .timestamp
  | .int64 _ => .int64

open BufferHelper

mutual

def Field.byteSize : Field → Int32
  | .mk key value => Int32.ofNat (1 + key.length + 1) + value.byteSize

def Value.byteSize : Value → Int32
  | .double _ => 8
  | .string value => 4 + Int32.ofNat value.length + 1
  | .document fields => 5 + fieldsByteSize fields
  | .array fields => 5 + fieldsByteSize fields
  | .binary value => 5 + Int32.ofNat value.length
  | .objectId _ => 12
  | .boolean _ => 1
  | .datetime _ => 8
  | .nullValue => 0
  | .regex value => Int32.ofNat value.pattern.length + Int32.ofNat value.options.length + 2
  | .int32 _ => 4
  | .timestamp _ => 8
  | .int64 _ => 8

def fieldsByteSize : List Field → Int32
  | [] => 0
  | field :: fields => field.byteSize + fieldsByteSize fields

end

def Document.byteSize (fields : Document) : Int32 := 5 + fieldsByteSize fields

mutual

def Field.encode : Field → Bytes
  | .mk key value => value.type.toByte :: (writeCString key ++ value.encode)

def Value.encode : Value → Bytes
  | .double value => writeDouble value
  | .string value => writeString value
  | .document fields => writeInt32 (5 + fieldsByteSize fields) ++ (encodeFields fields ++ [0])
  | .array fields => writeInt32 (5 + fieldsByteSize fields) ++ (encodeFields fields ++ [0])
  | .binary value => writeBinary value
  | .objectId value => value.val
  | .boolean value => [if value then 1 else 0]
  | .datetime value => writeInt64 value
  | .nullValue => []
  | .regex value => writeCString value.pattern ++ writeCString value.options
  | .int32 value => writeInt32 value
  | .timestamp value => writeInt64 value
  | .int64 value => writeInt64 value

def encodeFields : List Field → Bytes
  | [] => []
  | field :: fields => field.encode ++ encodeFields fields

end

def Document.encode (fields : Document) : Bytes :=
  writeInt32 (Document.byteSize fields) ++ (encodeFields fields ++ [0])

/-- The value of an element in `DocumentImpl::fromBuffer`, where `create` reads a document. -/
def removeValue (create : BufferReader Document) : FieldType → BufferReader Value
  | .double => do return .double (← removeDouble)
  | .string => do return .string (← removeString)
  | .document => do return .document (← create)
  | .array => do return .array (← create)
  | .binary => do return .binary (← removeBinary)
  | .objectId => do return .objectId (← removeBytes 12)
  | .boolean => do return .boolean ((← removeByte) ≠ 0)
  | .datetime => do return .datetime (← removeInt64)
  | .nullValue => return .nullValue
  | .regex => do
    let pattern ← removeCString
    let options ← removeCString
    return .regex ⟨pattern, options⟩
  | .int32 => do return .int32 (← removeInt32)
  | .timestamp => do return .timestamp (← removeInt64)
  | .int64 => do return .int64 (← removeInt64)

/-- The text of the type in an error, `{:#x}`. -/
def hexText (n : Nat) : Bytes := ascii "0x" ++ (Nat.toDigits 16 n).map fun c => c.toNat.toUInt8

/-- The bytes of a document that are left, in 64 bits. -/
def bytesRemaining (length original : Nat) (messageLength : UInt64) : UInt64 :=
  UInt64.ofNat length - (UInt64.ofNat original - messageLength)

mutual

def fromBuffer : Nat → BufferReader Document
  | 0 => throw .undefined
  | fuel + 1 => do
    let data ← get
    let messageLength ← removeInt32
    if data.length < messageLength.toInt64.toUInt64.toNat then
      throw (exception "invalid BSON message length")
    removeFields fuel data.length messageLength.toInt64.toUInt64

def removeFields : Nat → Nat → UInt64 → BufferReader (List Field)
  | 0, _, _ => throw .undefined
  | fuel + 1, original, messageLength => do
    let data ← get
    if bytesRemaining data.length original messageLength = 1 then
      let last ← removeByte
      if last ≠ 0 then throw (exception "invalid document")
      return []
    let elementType ← removeByte
    let key ← removeCString
    match FieldType.ofByte elementType with
    | none =>
      throw (.exception (ascii "invalid BSON element type: " ++ hexText elementType.toNat ++
        ascii " key: " ++ key))
    | some type =>
      let value ← removeValue (fromBuffer fuel) type
      let fields ← removeFields fuel original messageLength
      return .mk key value :: fields

end

def create : BufferReader Document := do
  let data ← get
  fromBuffer (data.length + 1)

end Meliproxy.Envoy.Bson
