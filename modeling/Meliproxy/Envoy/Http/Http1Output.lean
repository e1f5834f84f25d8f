import Meliproxy.Envoy.Http.HeaderStringImpl
import Meliproxy.Envoy.Http.Http1Encoder

/-!
# The reservations of the HTTP/1 encoder

The encoder writes into space that it reserves in the output buffer of the connection, and
commits what it has written. The assertions that there is room are not compiled into a release,
so that nothing but the sizes that are reserved keeps the writes inside.
-/

namespace Meliproxy.Envoy.Http

open Lib

def CodeUtility.strings : List (Nat × Bytes) :=
  [(100, ascii "Continue"),
    (200, ascii "OK"),
    (201, ascii "Created"),
    (202, ascii "Accepted"),
    (203, ascii "Non-Authoritative Information"),
    (204, ascii "No Content"),
    (205, ascii "Reset Content"),
    (206, ascii "Partial Content"),
    (207, ascii "Multi-Status"),
    (208, ascii "Already Reported"),
    (226, ascii "IM Used"),
    (300, ascii "Multiple Choices"),
    (301, ascii "Moved Permanently"),
    (302, ascii "Found"),
    (303, ascii "See Other"),
    (304, ascii "Not Modified"),
    (305, ascii "Use Proxy"),
    (307, ascii "Temporary Redirect"),
    (308, ascii "Permanent Redirect"),
    (400, ascii "Bad Request"),
    (401, ascii "Unauthorized"),
    (402, ascii "Payment Required"),
    (403, ascii "Forbidden"),
    (404, ascii "Not Found"),
    (405, ascii "Method Not Allowed"),
    (406, ascii "Not Acceptable"),
    (407, ascii "Proxy Authentication Required"),
    (408, ascii "Request Timeout"),
    (409, ascii "Conflict"),
    (410, ascii "Gone"),
    (411, ascii "Length Required"),
    (412, ascii "Precondition Failed"),
    (413, ascii "Payload Too Large"),
    (414, ascii "URI Too Long"),
    (415, ascii "Unsupported Media Type"),
    (416, ascii "Range Not Satisfiable"),
    (417, ascii "Expectation Failed"),
    (421, ascii "Misdirected Request"),
    (422, ascii "Unprocessable Entity"),
    (423, ascii "Locked"),
    (424, ascii "Failed Dependency"),
    (426, ascii "Upgrade Required"),
    (428, ascii "Precondition Required"),
    (429, ascii "Too Many Requests"),
    (431, ascii "Request Header Fields Too Large"),
    (500, ascii "Internal Server Error"),
    (501, ascii "Not Implemented"),
    (502, ascii "Bad Gateway"),
    (503, ascii "Service Unavailable"),
    (504, ascii "Gateway Timeout"),
    (505, ascii "HTTP Version Not Supported"),
    (506, ascii "Variant Also Negotiates"),
    (507, ascii "Insufficient Storage"),
    (508, ascii "Loop Detected"),
    (510, ascii "Not Extended"),
    (511, ascii "Network Authentication Required")]

/-- `toString` of a number that is cast to a `Code`, which has 32 bits. -/
def CodeUtility.toString (code : Nat) : Bytes :=
  ((strings.find? fun entry => entry.1 = uint32 code).map Prod.snd).getD (ascii "Unknown")

namespace Http1

/-- What the `k`-th call of `reserve` hands out for a size: at least so many bytes, to which
nothing has been written yet. -/
structure Evbuffer where
  reserve : Nat → Nat → Block
  enough : ∀ k size, size ≤ (reserve k size).capacity
  unwritten : ∀ k size, (reserve k size).overrun = false

/-- The block of `reserved_iovec_`, and how far into it `reserved_current_` points. `overran` is
whether something was written behind the end of a reservation, `written` is all that was. -/
structure OutputBuffer where
  reserved : Option (Block × Nat)
  reserveCalls : Nat
  output : Bytes
  sent : Bytes
  overran : Bool
  written : Bytes

namespace OutputBuffer

variable (evbuffer : Evbuffer) (o : OutputBuffer)

def commit : OutputBuffer :=
  match o.reserved with
  | none => o
  | some (mem, current) =>
    { o with
      reserved := none
      output := o.output ++ mem.read 0 current
      overran := o.overran || mem.overrun }

/-- Behind the end of the reservation the difference is a very large number. -/
def bufferRemainingSize (mem : Block) (current : Nat) : Nat :=
  if current ≤ mem.capacity then mem.capacity - current
  else 18446744073709551616 - (current - mem.capacity)

def reserveNew (size : Nat) : OutputBuffer :=
  { o.commit with
    reserved := some (evbuffer.reserve o.reserveCalls (max 4096 size), 0)
    reserveCalls := o.reserveCalls + 1 }

def reserveBuffer (size : Nat) : OutputBuffer :=
  match o.reserved with
  | none => o.reserveNew evbuffer size
  | some (mem, current) =>
    if size ≤ bufferRemainingSize mem current then o else o.reserveNew evbuffer size

def copyToBuffer (data : Bytes) : OutputBuffer :=
  match o.reserved with
  | none => { o with overran := true, written := o.written ++ data }
  | some (mem, current) =>
    { o with
      reserved := some (mem.memcpy current data, current + data.length)
      written := o.written ++ data }

def addCharToBuffer (c : UInt8) : OutputBuffer := o.copyToBuffer [c]

/-- `itoa` throws if there are less than 21 bytes. It writes a NUL byte as well. -/
def addIntToBuffer (i : UInt64) : Option OutputBuffer :=
  match o.reserved with
  | none => some { o with overran := true, written := o.written ++ Redis.itoa i }
  | some (mem, current) =>
    if bufferRemainingSize mem current < 21 then none
    else
      some { o with
        reserved := some (mem.memcpy current (Redis.itoa i ++ [0]), current + (Redis.itoa i).length)
        written := o.written ++ Redis.itoa i }

def add (data : Bytes) : OutputBuffer :=
  { o with output := o.output ++ data, written := o.written ++ data }

def flushOutput : OutputBuffer :=
  { o.commit with sent := o.sent ++ o.commit.output, output := [] }

def encodeHeader (key value : Bytes) : OutputBuffer :=
  let o := o.reserveBuffer evbuffer (uint32 (key.length + value.length + 4))
  let o := o.copyToBuffer key
  let o := o.addCharToBuffer 58
  let o := o.addCharToBuffer 32
  let o := o.copyToBuffer value
  let o := o.addCharToBuffer 13
  o.addCharToBuffer 10

def encodeEntry (entry : HeaderString × HeaderString) (o : OutputBuffer) : OutputBuffer :=
  let key := StreamEncoderImpl.keyToUse entry.1.bytes
  if key.head? = some 58 then o else o.encodeHeader evbuffer key entry.2.bytes

def endEncode (chunkEncoding : Bool) : OutputBuffer :=
  (if chunkEncoding then o.add (ascii "0\r\n\r\n") else o).flushOutput

def encodeHeaders (headers : HeaderMap) (endStream : Bool) : OutputBuffer :=
  let o := headers.iterate (fun entry o => (o.encodeEntry evbuffer entry, .continue)) o
  let (o, chunkEncoding) :=
    if (headers.value .contentLength).isSome then (o, false)
    else if endStream then
      (o.encodeHeader evbuffer (ascii "content-length") (ascii "0"), false)
    else (o.encodeHeader evbuffer (ascii "transfer-encoding") (ascii "chunked"), true)
  let o := o.reserveBuffer evbuffer 2
  let o := o.addCharToBuffer 13
  let o := o.addCharToBuffer 10
  if endStream then o.endEncode chunkEncoding else o.flushOutput

def requestPostfix : Bytes := ascii " HTTP/1.1\r\n"

/-- `RequestStreamEncoderImpl::encodeHeaders`, which throws without a method and a path. -/
def encodeRequestHeaders (headers : HeaderMap) (endStream : Bool) : Option OutputBuffer := do
  let method ← headers.value .method
  let path ← headers.value .path
  let o := o.reserveBuffer evbuffer (max 4096 (uint32 (path.bytes.length + 4096)))
  let o := o.copyToBuffer method.bytes
  let o := o.addCharToBuffer 32
  let o := o.copyToBuffer path.bytes
  let o := o.copyToBuffer requestPostfix
  return o.encodeHeaders evbuffer headers endStream

/-- `ResponseStreamEncoderImpl::encodeHeaders`, which throws without a status that is a number.
`errno` is what earlier calls of `atoul` left. -/
def encodeResponseHeaders (errno : Bool) (headers : HeaderMap)
    (endStream : Bool) : Option OutputBuffer := do
  let status ← headers.value .status
  let numericStatus ← StringUtil.atoul errno status.bytes 10
  let o := o.reserveBuffer evbuffer 4096
  let o := o.copyToBuffer (ascii "HTTP/1.1 ")
  let o ← o.addIntToBuffer numericStatus.toUInt64
  let o := o.addCharToBuffer 32
  let o := o.copyToBuffer (CodeUtility.toString numericStatus)
  let o := o.addCharToBuffer 13
  let o := o.addCharToBuffer 10
  return o.encodeHeaders evbuffer headers endStream

end OutputBuffer

end Http1

end Meliproxy.Envoy.Http
