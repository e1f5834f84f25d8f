import Meliproxy.Envoy.Http.ConnManager
import Meliproxy.Envoy.Http.HeaderMapOps
import Meliproxy.Lib.Runs

/-!
# Idling, draining and closing of a downstream connection

`ConnectionManagerImpl` with its streams, its two timers and the drain state, from
`checkForDeferredClose` to `onResetStream`. The codec is outside: it opens streams and resets
them while it is dispatched, and says whether it wants to write. The filters are outside too.
They let the parts of a response through to the codec when they like.

`responses` is the history of the response headers that went to the codec.
-/

namespace Meliproxy.Envoy.Http

open Lib

inductive DrainState where
  | notDraining
  | draining
  | closing
  deriving DecidableEq

/-- The configuration that these parts read, and the kind of the codec that is created for the
connection. -/
structure DrainConfig where
  http2 : Bool
  idleTimeout : Bool
  serverName : Bytes
  responseHeadersToRemove : List LowerCaseString
  responseHeadersToAdd : List (LowerCaseString × Bytes)
  tracingConfig : Option OperationName

variable (config : DrainConfig)

def DrainConfig.protocol (http10 : Bool) : Protocol :=
  if config.http2 then .http2 else if http10 then .http10 else .http11

/-- `ActiveStream` with its `state_`. The request headers and their protocol are those of the
last `decodeHeaders`, and `responded` says whether the codec has got the response headers. -/
structure ActiveStream where
  id : Nat
  requestHeaders : Option (Protocol × Headers)
  remoteComplete : Bool
  localComplete : Bool
  sawConnectionClose : Bool
  responded : Bool

/-- What the rest of the server answers while an event is handled, with the request headers as
the filters have left them. -/
structure Answers where
  requestHeaders : Headers
  drainClose : Bool
  wantsToWrite : Bool
  flushed : Bool
  date : Bytes
  decoratedOperation : Option Bytes

/-- The headers of a response, and whether its request was an HTTP/1.1 request with
`connection: close`. -/
structure EncodedResponse where
  id : Nat
  wantsClose : Bool
  headers : HeaderMap

/-- `idleTimer` and `drainTimer` are `none` where there is no timer and say else whether the
timer is armed. `isOpen` is the state `Open` of the connection: it is not after the manager has
told it to close. -/
structure ConnectionManagerImpl where
  codec : Bool
  dispatching : Bool
  wantsToWrite : Bool
  streams : List ActiveStream
  idleTimer : Option Bool
  drainTimer : Option Bool
  drainState : DrainState
  isOpen : Bool
  closed : Bool
  responses : List EncodedResponse

variable (protocol : Protocol)

/-- The replies that `decodeHeaders` makes before it looks at the connection header. -/
def earlyReply (m : HeaderMap) : Option Nat :=
  if protocol = .http10 then some 426
  else if (m.value .host).isNone then some 400
  else if 60 * 1024 < m.byteSize then some 431
  else if ((m.value .path).map fun path => path.cStr.head?) ≠ some (some 47) then some 404
  else none

theorem decodeHeaders_of_earlyReply (server : Server) (c : Context) {m : HeaderMap} {code : Nat}
    (h : earlyReply c.protocol m = some code) : decodeHeaders server c m = .reply code := by
  rw [earlyReply] at h
  rw [decodeHeaders]
  split at h
  · rw [if_pos ‹_›, Option.some.inj h]
  rw [if_neg ‹_›]
  split at h
  · rw [if_pos ‹_›, Option.some.inj h]
  rw [if_neg ‹_›]
  split at h
  · rw [if_pos ‹_›, Option.some.inj h]
  rw [if_neg ‹_›]
  split at h
  · rw [if_pos ‹_›, Option.some.inj h]
  · cases h

def wantsConnectionClose (m : HeaderMap) : Bool :=
  protocol = .http11 && (m.value .connection).any fun connection =>
    StringUtil.caseInsensitiveEqual connection.cStr (ascii "close")

/-- `saw_connection_close_` after `decodeHeaders`. -/
def sawConnectionClose (m : HeaderMap) : Bool :=
  (earlyReply protocol m).isNone && wantsConnectionClose protocol m

def ActiveStream.wantsClose (stream : ActiveStream) : Bool :=
  stream.requestHeaders.any fun request => wantsConnectionClose request.1 request.2.1

def mutateResponseHeaders (request m : HeaderMap) : HeaderMap :=
  let m := (m.removeInline .connection).removeInline .transferEncoding
  let m := config.responseHeadersToRemove.foldl HeaderMap.remove m
  let m := config.responseHeadersToAdd.foldl (fun m header => m.addReference header.1 header.2) m
  match request.value .envoyForceTrace, request.value .requestId with
  | some _, some requestId => m.insertInline .requestId (·.setCopy requestId.cStr)
  | _, _ => m

def encodedHeaders (closes : Bool) (a : Answers) (m : HeaderMap) : HeaderMap :=
  let m := m.insertInline .date (·.setCopy a.date)
  let m := m.insertInline .server fun _ => .setReference config.serverName
  let m := mutateResponseHeaders config a.requestHeaders.1 m
  let m := if closes then m.insertInline .connection fun _ => .setReference (ascii "close") else m
  match config.tracingConfig, a.decoratedOperation with
  | some .ingress, some operation => m.insertInline .envoyDecoratorOperation (·.setCopy operation)
  | some .egress, _ => m.removeInline .envoyDecoratorOperation
  | _, _ => m

namespace ConnectionManagerImpl

def create (config : DrainConfig) : ConnectionManagerImpl where
  codec := false
  dispatching := false
  wantsToWrite := false
  streams := []
  idleTimer := if config.idleTimeout then some true else none
  drainTimer := none
  drainState := .notDraining
  isOpen := true
  closed := false
  responses := []

def find (s : ConnectionManagerImpl) (id : Nat) : Option ActiveStream :=
  s.streams.find? fun stream => stream.id = id

variable (s : ConnectionManagerImpl)

def update (id : Nat) (f : ActiveStream → ActiveStream) : ConnectionManagerImpl :=
  { s with streams := s.streams.map fun stream => if stream.id = id then f stream else stream }

variable (config : DrainConfig)

def codecWrites (a : Answers) :
    ConnectionManagerImpl := { s with wantsToWrite := config.http2 && a.wantsToWrite }

def onClose : ConnectionManagerImpl :=
  { s with
    isOpen := false
    closed := true
    idleTimer := none
    drainTimer := none
    streams := [] }

/-- `close` of the connection with `FlushWrite`. It is closed at once when all is written. -/
def close (a : Answers) : ConnectionManagerImpl :=
  if a.flushed && !s.closed then s.onClose else { s with isOpen := false }

def checkForDeferredClose (a : Answers) : ConnectionManagerImpl :=
  if s.drainState = .closing ∧ s.streams = [] ∧ s.wantsToWrite = false then s.close a else s

def doDeferredStreamDestroy (id : Nat) : ConnectionManagerImpl :=
  { s with streams := s.streams.filter fun stream => stream.id ≠ id }

variable (stream : ActiveStream)

/-- The codec calls `onResetStream` of the stream inside of its `resetStream`, so the stream is
destroyed on either way. -/
def doEndStream (a : Answers) : ConnectionManagerImpl :=
  let resetStream := !stream.remoteComplete || !stream.localComplete
  let s := (s.doDeferredStreamDestroy stream.id).codecWrites config a
  let s := if resetStream && !config.http2 then { s with drainState := .closing } else s
  let s := s.checkForDeferredClose a
  if s.idleTimer.isSome ∧ s.streams = [] then { s with idleTimer := some true } else s

def newStream (id : Nat) : ConnectionManagerImpl :=
  { s with
    idleTimer := s.idleTimer.map fun _ => false
    streams := ⟨id, none, false, false, false, false⟩ :: s.streams }

/-- `startDrainSequence`, which asserts that the drain has not begun. -/
def startDrainSequence (a : Answers) : Option ConnectionManagerImpl :=
  if s.drainState = .notDraining then
    some { s.codecWrites config a with
      drainState := .draining
      drainTimer := some true }
  else none

def onIdleTimeout (a : Answers) : Option ConnectionManagerImpl :=
  if s.codec = false then some (s.close a)
  else if s.drainState = .notDraining then s.startDrainSequence config a
  else some s

/-- `onDrainTimeout`, which asserts that the drain has begun. -/
def onDrainTimeout (a : Answers) : Option ConnectionManagerImpl :=
  if s.drainState = .notDraining then none
  else
    some ({ s.codecWrites config a with drainState := .closing }.checkForDeferredClose a)

def maybeEndEncode (endStream : Bool) (a : Answers) : ConnectionManagerImpl :=
  if endStream then s.doEndStream config stream a else s

def decideDrain (a : Answers) : Option ConnectionManagerImpl :=
  let s :=
    if s.drainState = .notDraining ∧ a.drainClose then s.startDrainSequence config a else some s
  s.map fun s =>
    let s :=
      if s.drainState = .notDraining ∧ stream.sawConnectionClose then { s with drainState := .closing }
      else s
    if stream.remoteComplete = false ∧ config.http2 = false then { s with drainState := .closing }
    else s

def encodeHeaders (m : HeaderMap) (endStream : Bool) (a : Answers) : Option ConnectionManagerImpl :=
  (s.decideDrain config stream a).map fun s : ConnectionManagerImpl =>
    let closes := s.drainState = .closing && !config.http2
    let response : EncodedResponse := ⟨stream.id, stream.wantsClose, encodedHeaders config closes a m⟩
    let s := { s with responses := s.responses ++ [response] }
    let s := s.update stream.id fun stream => { stream with responded := true }
    (s.codecWrites config a).maybeEndEncode config stream endStream a

/-- `onData` when the codec has thrown: all streams are reset and the connection is closed. -/
def onProtocolError (a : Answers) : ConnectionManagerImpl :=
  { s with
    dispatching := false
    streams := [] }.close a

end ConnectionManagerImpl

/-- What happens on a connection. `onData` is the call of the codec in `onData`, `dispatched`
its return. `commonEncodePrefix` is the end of a response that goes to the first filter;
`encodeHeaders` and `encodeMore` are headers, and data or trailers, that go to the codec. -/
inductive ConnEvent where
  | onData
  | newStream (id : Nat)
  | decodeHeaders (id : Nat) (http10 : Bool) (headers : Headers) (endStream : Bool)
  | decodeEnd (id : Nat)
  | onResetStream (id : Nat)
  | dispatched (a : Answers)
  | protocolError (a : Answers)
  | commonEncodePrefix (id : Nat)
  | encodeHeaders (id : Nat) (headers : Headers) (endStream : Bool) (a : Answers)
  | encodeMore (id : Nat) (endStream : Bool) (a : Answers)
  | resetStream (id : Nat) (a : Answers)
  | idleTimeout (a : Answers)
  | drainTimeout (a : Answers)
  | onEvent

namespace ConnectionManagerImpl

def step (config : DrainConfig) (s : ConnectionManagerImpl) :
    ConnEvent → Option ConnectionManagerImpl
  | .onData => some { s with
      codec := true
      dispatching := true }
  | .newStream id => some (s.newStream id)
  | .decodeHeaders id http10 headers endStream =>
    some (s.update id fun stream => { stream with
      requestHeaders := some (config.protocol http10, headers)
      remoteComplete := endStream
      sawConnectionClose := sawConnectionClose (config.protocol http10) headers.1 })
  | .decodeEnd id => some (s.update id fun stream => { stream with remoteComplete := true })
  | .onResetStream id => some (s.doDeferredStreamDestroy id)
  | .dispatched a =>
    let s := s.codecWrites config a
    some ({ s with dispatching := false }.checkForDeferredClose a)
  | .protocolError a => some (s.onProtocolError a)
  | .commonEncodePrefix id => some (s.update id fun stream => { stream with localComplete := true })
  | .encodeHeaders id headers endStream a =>
    (s.find id).bind fun stream => s.encodeHeaders config stream headers.1 endStream a
  | .encodeMore id endStream a =>
    (s.find id).map fun stream =>
      (s.codecWrites config a).maybeEndEncode config stream endStream a
  | .resetStream id a => (s.find id).map fun stream => s.doEndStream config stream a
  | .idleTimeout a => { s with idleTimer := some false }.onIdleTimeout config a
  | .drainTimeout a => { s with drainTimer := some false }.onDrainTimeout config a
  | .onEvent => some s.onClose

/-- The codec is called for an open connection, and it opens streams, decodes and resets while it
is called. The HTTP/1 codec has one request at a time, and is paused when that is complete or the
connection closes; it does not reset streams by itself. A filter sends one response for a
stream, the headers first. An armed timer fires, and the connection ends once, between the calls
of the codec. -/
def Possible (config : DrainConfig) (s : ConnectionManagerImpl) : ConnEvent → Prop
  | .onData => s.isOpen = true ∧ s.dispatching = false
  | .newStream id => s.dispatching = true ∧ (s.find id).isNone = true ∧
      (config.http2 = false → s.isOpen = true ∧ s.streams.isEmpty = true)
  | .decodeHeaders id _ _ _ => s.dispatching = true ∧
      (s.find id).any (fun stream => stream.requestHeaders.isNone) = true
  | .decodeEnd id => s.dispatching = true ∧ (s.find id).any (fun stream => !stream.remoteComplete) = true
  | .onResetStream id => s.dispatching = true ∧ config.http2 = true ∧ (s.find id).isSome = true
  | .dispatched _ => s.dispatching = true
  | .protocolError _ => s.dispatching = true
  | .commonEncodePrefix id => (s.find id).any (fun stream => !stream.localComplete) = true
  | .encodeHeaders id _ endStream _ => (s.find id).any (fun stream =>
      stream.requestHeaders.isSome && !stream.responded && (stream.localComplete || !endStream)) = true
  | .encodeMore id endStream _ => (s.find id).any (fun stream =>
      stream.responded && (stream.localComplete || !endStream)) = true
  | .resetStream id _ => (s.find id).isSome = true
  | .idleTimeout _ => s.idleTimer = some true ∧ s.dispatching = false
  | .drainTimeout _ => s.drainTimer = some true ∧ s.dispatching = false
  | .onEvent => s.closed = false ∧ s.dispatching = false

/-- The last stream of a connection that is not draining is not reset by the codec. And where an
HTTP/1.1 request asked for the end of the connection, its response headers come while the drain
goes on to the end already, or before the request is complete, or before any drain has begun and
after the manager has seen the request's wish. -/
def Protected (s : ConnectionManagerImpl) : ConnEvent → Prop
  | .onResetStream id => s.drainState = .notDraining → ∃ stream ∈ s.streams, stream.id ≠ id
  | .encodeHeaders id _ _ a => ∀ stream ∈ s.find id, stream.wantsClose = true →
      s.drainState = .closing ∨ stream.remoteComplete = false ∨
        (s.drainState = .notDraining ∧ a.drainClose = false ∧ stream.sawConnectionClose = true)
  | _ => True

end ConnectionManagerImpl

end Meliproxy.Envoy.Http
