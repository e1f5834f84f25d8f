import Meliproxy.Envoy.Http.ConnDrain
import Meliproxy.Envoy.Network.ConnectionImpl

/-!
# What the server side of the HTTP/1 codec relies on in http_parser

`RequestParser` is the parser as `ServerConnectionImpl` sees it. It reads a slice up to its next
callback; for the names and values of a header block there are none here, they come together when
the block is complete. `Follows` says which callbacks it makes for the requests of a client.
-/

namespace Meliproxy.Envoy.Http.Http1

open Lib

/-- The callbacks for a request. The third has the flag `F_CHUNKED` and the `content_length` of the
parser, which is `ULLONG_MAX` without the header. -/
inductive RequestCallback where
  | messageBegin
  | headersComplete (http10 : Bool) (headers : Headers) (chunked : Bool) (contentLength : UInt64)
  | body (data : Bytes)
  | messageComplete

/-- What comes of a part of a slice. After a callback the parser goes on with `rest`, unless it is
paused. -/
inductive RequestExecution (σ : Type) where
  | readAll (state : σ)
  | callback (call : RequestCallback) (rest : Bytes) (state : σ)
  | error

structure RequestParser where
  State : Type
  init : State
  execute : State → Bytes → RequestExecution State

def hasBody (chunked : Bool) (contentLength : UInt64) : Bool :=
  chunked || (0 < contentLength && contentLength ≠ 18446744073709551615)

/-- A complete HTTP/1.1 request: the bytes of its header block and those of its body, with chunk
headers and trailers. It does not ask for the end of the connection. -/
structure Request where
  headers : Headers
  chunked : Bool
  contentLength : UInt64
  head : Bytes
  raw : Bytes
  head_ne : head ≠ []
  noBody : hasBody chunked contentLength = false → raw = []
  keepsOpen : wantsConnectionClose .http11 headers.1 = false

namespace Request

def hasBody (r : Request) : Bool := Http1.hasBody r.chunked r.contentLength

def bytes (r : Request) : Bytes := r.head ++ r.raw

def stream (rs : List Request) : Bytes := rs.flatMap bytes

end Request

/-- Where the parser is: before the next of some requests, in the header block of one, or behind its
callback for the end of it. -/
inductive RequestPos where
  | between (rs : List Request)
  | head (r : Request) (left : Bytes) (rs : List Request)
  | body (r : Request) (left : Bytes) (rs : List Request)

namespace RequestPos

def requests : RequestPos → List Request
  | between rs => rs
  | head r _ rs => r :: rs
  | body r _ rs => r :: rs

def begun : RequestPos → Nat
  | between _ => 0
  | head _ _ _ => 1
  | body _ _ _ => 1

def bytes : RequestPos → Bytes
  | between rs => Request.stream rs
  | head r left rs => left ++ r.raw ++ Request.stream rs
  | body _ left rs => left ++ Request.stream rs

end RequestPos

/-- The callbacks of the parser at a position, with the bytes it reads before the callback. The end
of the header block may be read after the callback for it. -/
inductive Raises : RequestPos → Bytes → RequestCallback → RequestPos → Prop where
  | messageBegin {r : Request} {used left : Bytes} (rs : List Request) (hused : used ≠ [])
      (hhead : r.head = used ++ left) :
      Raises (.between (r :: rs)) used .messageBegin (.head r left rs)
  | headersComplete (r : Request) (used left : Bytes) (rs : List Request) :
      Raises (.head r (used ++ left) rs) used
        (.headersComplete false r.headers r.chunked r.contentLength)
        (.body r (left ++ r.raw) rs)
  | body {r : Request} (used left data : Bytes) (rs : List Request) (h : r.hasBody = true) :
      Raises (.body r (used ++ left) rs) used (.body data) (.body r left rs)
  | messageComplete (r : Request) (used : Bytes) (rs : List Request) :
      Raises (.body r used rs) used .messageComplete (.between rs)

/-- A slice is read without a callback. None is put off that could be made. -/
inductive Silent : RequestPos → Bytes → RequestPos → Prop where
  | between (rs : List Request) : Silent (.between rs) [] (.between rs)
  | head (r : Request) (used : Bytes) {left : Bytes} (rs : List Request) (h : left ≠ []) :
      Silent (.head r (used ++ left) rs) used (.head r left rs)
  | body (r : Request) (used : Bytes) {left : Bytes} (rs : List Request) (h : left ≠ []) :
      Silent (.body r (used ++ left) rs) used (.body r left rs)

/-- What comes of a slice fits the position, and the position that is reached. -/
def RequestExecution.Fits {σ : Type} (At : σ → RequestPos → Prop) (pos : RequestPos)
    (slice : Bytes) : RequestExecution σ → Prop
  | .readAll state => ∃ pos', Silent pos slice pos' ∧ At state pos'
  | .callback call rest state => ∃ used pos', slice = used ++ rest ∧ Raises pos used call pos' ∧
      At state pos'
  | .error => False

/-- The behaviour of http_parser, which is resumed where it was paused. `At` relates its states to
the positions. -/
def RequestParser.Follows (p : RequestParser) (At : p.State → RequestPos → Prop) : Prop :=
  ∀ state pos slice, At state pos → slice <+: pos.bytes → (p.execute state slice).Fits At pos slice

theorem Raises.bytes_eq {pos pos' : RequestPos} {used : Bytes} {c : RequestCallback}
    (h : Raises pos used c pos') : pos.bytes = used ++ pos'.bytes := by
  cases h with
  | messageBegin rs hused hhead =>
    simp [RequestPos.bytes, Request.stream, Request.bytes, hhead]
  | headersComplete | body | messageComplete => simp [RequestPos.bytes]

theorem Silent.bytes_eq {pos pos' : RequestPos} {used : Bytes} (h : Silent pos used pos') :
    pos.bytes = used ++ pos'.bytes := by
  cases h with
  | between rs => rfl
  | head | body => simp [RequestPos.bytes]

/-!
## The server side of an HTTP/1 connection

`ServerConnectionImpl` of `http1/codec_impl.cc` under `onData` of the connection manager and over
the read side of the network connection. The manager takes its steps as in `ConnDrain`. Between two
callbacks of http_parser, and before `decodeHeaders` returns, the filters may respond.
-/

open Network

/-- `ActiveRequest`, with the stream of its decoder. -/
structure ActiveRequest where
  stream : Nat
  remoteComplete : Bool

/-- A call of `dispatch`: what is left of the slices, how much was parsed, whether the parser is
paused, and whether the callback for the end of the headers has not returned. `rounds` counts the
calls of one `onData`. -/
structure Dispatch where
  slices : List Bytes
  parsed : Nat
  paused : Bool
  inHeaders : Bool
  rounds : Nat

/-- `flowDisables` is how often the filters of the stream have disabled reads. The last three fields
tell what has happened: the bytes received, how many bytes were parsed when each stream was made,
and the headers that the streams were given. -/
structure ServerConnectionImpl (p : RequestParser) where
  manager : ConnectionManagerImpl
  connection : ConnectionImpl
  parser : p.State
  activeRequest : Option ActiveRequest
  deferredEndStreamHeaders : Option (Bool × Headers)
  resetStreamCalled : Bool
  dispatch : Option Dispatch
  flowDisables : Nat
  received : Bytes
  created : List Nat
  decoded : List (Nat × Bool × Headers)

/-- `proceed` goes on with the call of `dispatch`: up to the next callback or return of the parser,
or from there to the end of the call. -/
inductive ServerEvent where
  | readReady (slices : List Bytes)
  | proceed (a : Answers)
  | commonEncodePrefix (id : Nat)
  | encodeHeaders (id : Nat) (headers : Headers) (endStream : Bool) (a : Answers)
  | encodeMore (id : Nat) (endStream : Bool) (a : Answers)
  | resetStream (id : Nat) (a : Answers)
  | readDisable (id : Nat) (disable : Bool)
  | idleTimeout (a : Answers)
  | drainTimeout (a : Answers)
  | onEvent

namespace ServerConnectionImpl

variable {p : RequestParser}

def create (config : DrainConfig) (p : RequestParser) : ServerConnectionImpl p where
  manager := .create config
  connection := .create
  parser := p.init
  activeRequest := none
  deferredEndStreamHeaders := none
  resetStreamCalled := false
  dispatch := none
  flowDisables := 0
  received := []
  created := []
  decoded := []

variable (s : ServerConnectionImpl p)

def unread : Bytes :=
  match s.dispatch with
  | none => s.connection.readBuffer.flatten
  | some d => d.slices.flatten

def parsed : Nat := s.received.length - s.unread.length

variable (config : DrainConfig)

def manage (e : ConnEvent) : Option (ServerConnectionImpl p) :=
  (s.manager.step config e).map fun manager =>
    { s with
      manager := manager
      connection := if manager.isOpen then s.connection else s.connection.stopReading }

/-- `readDisable` of the connection, which asserts that it is open. -/
def readDisable (s : ServerConnectionImpl p) (disable : Bool) : Option (ServerConnectionImpl p) :=
  if s.manager.isOpen then
    (s.connection.readDisable disable).map fun connection => { s with connection := connection }
  else none

/-- `onEncodeComplete`. A request that is not complete is left for the reset. -/
def onEncodeComplete : Option (ServerConnectionImpl p) :=
  s.activeRequest.map fun request =>
    if request.remoteComplete then { s with activeRequest := none } else s

def onResetStream : Option (ServerConnectionImpl p) :=
  if s.resetStreamCalled || s.activeRequest.isNone then none
  else
    some { s with
      resetStreamCalled := true
      activeRequest := none }

def resumeReads (s : ServerConnectionImpl p) : Option (ServerConnectionImpl p) :=
  if s.manager.drainState = .closing || s.connection.readEnabled then some s
  else if s.manager.isOpen then
    (ConnectionImpl.resumeReads s.connection.disables s.connection).map fun connection =>
      { s with connection := connection }
  else none

def endStream (stream : ActiveStream) : Option (ServerConnectionImpl p) :=
  (if !stream.remoteComplete || !stream.localComplete then s.onResetStream else some s).bind fun s =>
    { s with flowDisables := 0 }.resumeReads

def encode (stream : ActiveStream)
    (e : ConnEvent) (endStream : Bool) : Option (ServerConnectionImpl p) :=
  (s.manage config e).bind fun s =>
    if endStream then s.onEncodeComplete.bind fun s => s.endStream stream else some s

def onMessageBegin : Option (ServerConnectionImpl p) :=
  if s.resetStreamCalled then some s
  else if s.activeRequest.isSome then none
  else
    let id := s.created.length
    (s.manage config (.newStream id)).map fun s =>
      { s with
        activeRequest := some ⟨id, false⟩
        created := s.created ++ [s.parsed] }

def decodeHeaders (s : ServerConnectionImpl p) (config : DrainConfig) (request : ActiveRequest)
    (headers : Bool × Headers) (endStream : Bool) : Option (ServerConnectionImpl p) :=
  (s.manage config (.decodeHeaders request.stream headers.1 headers.2 endStream)).map fun s =>
    { s with decoded := s.decoded ++ [(request.stream, headers)] }

variable (d : Dispatch)

def onHeadersComplete (headers : Bool × Headers) (hasBody : Bool) : Option (ServerConnectionImpl p)
    :=
  match s.activeRequest with
  | none => some s
  | some request =>
    if hasBody then
      { s with dispatch := some { d with inHeaders := true } }.decodeHeaders config request headers false
    else some { s with deferredEndStreamHeaders := some headers }

def onBody : Option (ServerConnectionImpl p) :=
  if s.deferredEndStreamHeaders.isSome then none else some s

/-- The parser is paused behind a request. Nothing asks for it before the callback returns. -/
def pause : ServerConnectionImpl p :=
  { s with dispatch := some { d with paused := true } }

def onMessageComplete : Option (ServerConnectionImpl p) :=
  match s.activeRequest with
  | none => some (s.pause d)
  | some request =>
    let complete : ActiveRequest := { request with remoteComplete := true }
    match s.deferredEndStreamHeaders with
    | some headers =>
      { s.pause d with
        activeRequest := some complete
        deferredEndStreamHeaders := none }.decodeHeaders config complete headers true
    | none =>
      { s.pause d with activeRequest := some complete }.manage config (.decodeEnd request.stream)

def onCallback : RequestCallback → Option (ServerConnectionImpl p)
  | .messageBegin => s.onMessageBegin config
  | .headersComplete http10 headers chunked contentLength =>
    s.onHeadersComplete config d (http10, headers) (hasBody chunked contentLength)
  | .body _ => s.onBody
  | .messageComplete => s.onMessageComplete config d

/-- The codec is called. The buffer is not empty: `onRead` and the loop look. -/
def onData (s : ServerConnectionImpl p) (config : DrainConfig) (rounds : Nat) :
    Option (ServerConnectionImpl p) :=
  (s.manage config .onData).map fun s =>
    { s with dispatch := some ⟨s.connection.readBuffer, 0, false, false, rounds⟩ }

def afterDispatch (rounds : Nat) : Option (ServerConnectionImpl p) :=
  let redispatch := s.manager.isOpen && 0 < s.connection.length && s.manager.streams.isEmpty
  (if s.manager.streams.head?.any ActiveStream.remoteComplete then s.readDisable true
    else some s).bind fun s => if redispatch then s.onData config (rounds + 1) else some s

def dispatched (s : ServerConnectionImpl p) (config : DrainConfig) (d : Dispatch) (a : Answers) :
    Option (ServerConnectionImpl p) :=
  ({ s with
    connection := s.connection.setReadBuffer (drain s.connection.readBuffer d.parsed)
    dispatch := none }.manage config (.dispatched a)).bind fun s => s.afterDispatch config d.rounds

def proceed (d : Dispatch) (a : Answers) : Option (ServerConnectionImpl p) :=
  if d.inHeaders then
    some { s with
      dispatch := some { d with
        inHeaders := false
        paused := !s.manager.isOpen } }
  else
    match d.paused, d.slices with
    | false, slice :: slices =>
      match p.execute s.parser slice with
      | .readAll state =>
        some { s with
          parser := state
          dispatch := some { d with
            slices := slices
            parsed := d.parsed + slice.length } }
      | .callback call rest state =>
        let d := { d with
          slices := rest :: slices
          parsed := d.parsed + (slice.length - rest.length) }
        { s with
          parser := state
          dispatch := some d }.onCallback config d call
      | .error =>
        ({ s with dispatch := none } : ServerConnectionImpl p).manage config (.protocolError a)
    | _, _ => s.dispatched config d a

/-- The file event reports reads. What the socket has comes behind what is in the buffer. -/
def onReadReady (slices : List Bytes) : Option (ServerConnectionImpl p) :=
  let connection := s.connection.setReadBuffer (s.connection.readBuffer ++ slices)
  let s := { s with
    connection := { connection with readActivated := false }
    received := s.received ++ slices.flatten }
  if s.connection.readEnabled && 0 < s.connection.length then s.onData config 1 else some s

def step (s : ServerConnectionImpl p) : ServerEvent → Option (ServerConnectionImpl p)
  | .readReady slices => s.onReadReady config slices
  | .proceed a => s.dispatch.bind fun d => s.proceed config d a
  | .commonEncodePrefix id => s.manage config (.commonEncodePrefix id)
  | .encodeHeaders id headers endStream a =>
    (s.manager.find id).bind fun stream =>
      s.encode config stream (.encodeHeaders id headers endStream a) endStream
  | .encodeMore id endStream a =>
    (s.manager.find id).bind fun stream => s.encode config stream (.encodeMore id endStream a) endStream
  | .resetStream id a =>
    (s.manager.find id).bind fun stream =>
      (s.manage config (.resetStream id a)).bind fun s => s.endStream stream
  | .readDisable _ disable =>
    (s.readDisable disable).map fun s =>
      { s with flowDisables := if disable then s.flowDisables + 1 else s.flowDisables - 1 }
  | .idleTimeout a => s.manage config (.idleTimeout a)
  | .drainTimeout a => s.manage config (.drainTimeout a)
  | .onEvent => s.manage config .onEvent

/-- The client sends `rs`, in any slices, which are read while reads are enabled. A faked event may
come with no slice at all. The filters respond as in `ConnDrain`, and they do not reset a stream
whose request and response have ended for them. They enable reads as often as they have disabled
them, and do neither behind the end of their stream. -/
def Possible (config : DrainConfig) (rs : List Request) (s : ServerConnectionImpl p) :
    ServerEvent → Prop
  | .readReady slices =>
    s.manager.isOpen = true ∧ s.dispatch.isNone = true ∧ s.connection.readEnabled = true ∧
      (slices ≠ [] ∨ s.connection.readActivated = true) ∧ [] ∉ slices ∧
        s.received ++ slices.flatten <+: Request.stream rs
  | .proceed _ => s.dispatch.isSome = true
  | .commonEncodePrefix id => s.manager.Possible config (.commonEncodePrefix id)
  | .encodeHeaders id headers endStream a =>
    s.manager.Possible config (.encodeHeaders id headers endStream a)
  | .encodeMore id endStream a => s.manager.Possible config (.encodeMore id endStream a)
  | .resetStream id _ =>
    (s.manager.find id).any (fun stream => !stream.remoteComplete || !stream.localComplete) = true
  | .readDisable id disable =>
    (s.manager.find id).isSome = true ∧ (disable = false → 0 < s.flowDisables)
  | .idleTimeout a => s.manager.Possible config (.idleTimeout a)
  | .drainTimeout a => s.manager.Possible config (.drainTimeout a)
  | .onEvent => s.manager.Possible config .onEvent

end ServerConnectionImpl

end Meliproxy.Envoy.Http.Http1
