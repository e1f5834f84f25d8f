import Meliproxy.Envoy.Http.HeaderMapOps
import Meliproxy.Lib.HttpMessage

/-!
# The encoder of the HTTP/1 codec

`StreamEncoderImpl` of `http1/codec_impl.cc`, with what it has written to the connection. It
chooses how the end of the body is marked when it gets the headers. A standard reader gets from
its messages what was meant, if the names of the headers are names of fields.
-/

namespace Meliproxy.Envoy.Http.Http1

open Lib HttpMessage

/-- `completed` counts the calls of `onEncodeComplete`. -/
structure StreamEncoderImpl where
  chunkEncoding : Bool
  output : Bytes
  completed : Nat

namespace StreamEncoderImpl

def create : StreamEncoderImpl := ⟨true, [], 0⟩

variable (s : StreamEncoderImpl)

def write (bytes : Bytes) : StreamEncoderImpl :=
  { s with output := s.output ++ bytes }

/-- `encodeHeader`, which asserts that the key is not empty. -/
def encodeHeader (key value : Bytes) : Option StreamEncoderImpl :=
  if key = [] then none else some (s.write (key ++ ascii ": " ++ value ++ crlf))

/-- The key that is written for a key: `:authority` becomes `host`. -/
def keyToUse : Bytes → Bytes
  | 58 :: 97 :: _ => ascii "host"
  | key => key

def encodeEntry (entry : HeaderString × HeaderString) (s : Option StreamEncoderImpl) :
    Option StreamEncoderImpl :=
  let key := keyToUse entry.1.bytes
  if key.head? = some 58 then s else s.bind fun s => s.encodeHeader key entry.2.bytes

def endEncode : StreamEncoderImpl :=
  let s := if s.chunkEncoding then s.write (ascii "0\r\n\r\n") else s
  { s with completed := s.completed + 1 }

/-- `encodeHeaders`, which asserts that there is no transfer encoding. -/
def encodeHeaders (headers : HeaderMap) (endStream : Bool) : Option StreamEncoderImpl := do
  let s ← headers.iterate (fun entry s => (encodeEntry entry s, .continue)) (some s)
  if (headers.value .transferEncoding).isSome then none
  else
    let s ←
      if (headers.value .contentLength).isSome then some { s with chunkEncoding := false }
      else if endStream then
        (s.encodeHeader (ascii "content-length") (ascii "0")).map fun s : StreamEncoderImpl =>
          { s with chunkEncoding := false }
      else
        (s.encodeHeader (ascii "transfer-encoding") (ascii "chunked")).map
          fun s : StreamEncoderImpl => { s with chunkEncoding := true }
    let s := s.write crlf
    return if endStream then s.endEncode else s

def encodeData (data : Bytes) (endStream : Bool) : StreamEncoderImpl :=
  let s :=
    if data = [] then s
    else if s.chunkEncoding then s.write (hex data.length ++ crlf ++ data ++ crlf)
    else s.write data
  if endStream then s.endEncode else s

def encodeTrailers : StreamEncoderImpl := s.endEncode

end StreamEncoderImpl

/-- `RequestStreamEncoderImpl`: the encoder and whether it has seen a `HEAD` request. -/
structure RequestStreamEncoderImpl where
  stream : StreamEncoderImpl
  headRequest : Bool

namespace RequestStreamEncoderImpl

def create : RequestStreamEncoderImpl := ⟨.create, false⟩

/-- `encodeHeaders` of a request, which throws without a method and a path. -/
def encodeHeaders (s : RequestStreamEncoderImpl) (headers : HeaderMap) (endStream : Bool) :
    Option RequestStreamEncoderImpl := do
  let method ← headers.value .method
  let path ← headers.value .path
  let stream := s.stream.write (method.bytes ++ ascii " " ++ path.bytes ++ ascii " HTTP/1.1" ++ crlf)
  let stream ← stream.encodeHeaders headers endStream
  return ⟨stream, method.cStr = ascii "HEAD" || s.headRequest⟩

end RequestStreamEncoderImpl

/-- A message as its encoder is called for it: with the end of the stream on the headers, or with
chunks of data and the end on the last data or by trailers. -/
inductive OutgoingMessage where
  | headersOnly (headers : Headers)
  | withBody (headers : Headers) (chunks : List Bytes) (last : Option Bytes)

namespace OutgoingMessage

def headers : OutgoingMessage → HeaderMap
  | .headersOnly headers => headers.1
  | .withBody headers _ _ => headers.1

def body : OutgoingMessage → Bytes
  | .headersOnly _ => []
  | .withBody _ chunks last => chunks.flatten ++ last.getD []

def encode : OutgoingMessage → Option StreamEncoderImpl
  | .headersOnly headers => StreamEncoderImpl.create.encodeHeaders headers.1 true
  | .withBody headers chunks last =>
    (StreamEncoderImpl.create.encodeHeaders headers.1 false).map fun s =>
      let s := chunks.foldl (fun s data => s.encodeData data false) s
      match last with
      | some data => s.encodeData data true
      | none => s.encodeTrailers

variable (m : OutgoingMessage)

def output : Bytes := (m.encode.map StreamEncoderImpl.output).getD []

def fields : List Field :=
  m.headers.headers.map fun e => (e.key.bytes, e.value.bytes)

/-- What a reader is to get of a header: `:authority` as `host`, and no other pseudo header. -/
def meant (field : Field) : Option Field :=
  if field.1 = ascii ":authority" then some (ascii "host", field.2)
  else if field.1.head? = some 58 then none
  else some field

/-- The header that marks the end of the body, where the message has no content length. -/
def frameField : List Field :=
  if (m.headers.value .contentLength).isSome then []
  else
    match m with
    | .headersOnly _ => [(ascii "content-length", ascii "0")]
    | .withBody _ _ _ => [(ascii "transfer-encoding", ascii "chunked")]

def meantMessage : Message := ⟨m.fields.filterMap meant ++ m.frameField, m.body⟩

/-- No CR or LF in a key or a value, no transfer encoding, and a content length that is the length
of the body. -/
structure Framed : Prop where
  keys : ∀ field ∈ m.fields, 13 ∉ field.1 ∧ 10 ∉ field.1
  values : ∀ field ∈ m.fields, 13 ∉ field.2 ∧ 10 ∉ field.2
  coding : ∀ field ∈ m.fields, sameName field.1 (ascii "transfer-encoding") = false
  length : ∀ field ∈ m.fields, sameName field.1 (ascii "content-length") = true →
    readLength (trim field.2) = some m.body.length

/-- The name of a field, or that of a pseudo header. Only `:authority` begins with `:a`. -/
def isName (key : Bytes) : Bool :=
  isFieldName key || (key.head? = some 58 && (key.take 2 ≠ ascii ":a" || key = ascii ":authority"))

structure Proper : Prop extends m.Framed where
  names : ∀ field ∈ m.fields, isName field.1 = true

end OutgoingMessage

end Meliproxy.Envoy.Http.Http1
