import Meliproxy.Envoy.Http.Http1Encoder
import Meliproxy.Envoy.Http.Http1Parser
import Meliproxy.Lib.Runs

/-!
# The client side of the HTTP/1 codec

`ClientConnectionImpl` of `http1/codec_impl.cc`, between the callbacks of http_parser and the
encoder of the request. Between two callbacks, and before `decodeHeaders` returns, a request may
be encoded further. What matters of the encoder is copied into the pending response at its end.
-/

namespace Meliproxy.Envoy.Http

open Lib

namespace Http1

/-- A decoder is named by the number of streams that were made before it. -/
structure PendingResponse where
  decoder : Nat
  headRequest : Bool

inductive HeaderParsingState where
  | field
  | value
  | done
  deriving DecidableEq

/-- A call of a response decoder. -/
inductive Delivery where
  | headers (headers : HeaderMap) (endStream : Bool)
  | data (data : Bytes) (endStream : Bool)

/-- `reading` is what the parser has not read of the slice that it is given, and `returning` how it
goes on when the callback for the end of the headers returns. The last six fields tell what has
happened: the streams that were made, whether the last has its headers, the bytes received, the
end of the connection and what the decoders were given. -/
structure ClientConnectionImpl (p : HttpParser) where
  parser : p.State
  statusCode : UInt16
  reading : Option Bytes
  returning : Option (Bool → p.State)
  currentHeaderMap : Option HeaderMap
  headerParsingState : HeaderParsingState
  currentHeaderField : HeaderString
  currentHeaderValue : HeaderString
  deferredEndStreamHeaders : Option HeaderMap
  requestEncoder : Option RequestStreamEncoderImpl
  pendingResponses : List PendingResponse
  streams : Nat
  headersEncoded : Bool
  received : Bytes
  closed : Bool
  delivered : List (Nat × Delivery)

inductive Event where
  | newStream
  | encodeHeaders (headers : Headers) (endStream : Bool)
  | encodeData (data : Bytes) (endStream : Bool)
  | encodeTrailers
  | dispatchSlice (slice : Bytes)
  | proceed
  | callbackReturns
  | disconnect

namespace ClientConnectionImpl

variable {p : HttpParser}

def create (p : HttpParser) : ClientConnectionImpl p where
  parser := p.init
  statusCode := 0
  reading := none
  returning := none
  currentHeaderMap := none
  headerParsingState := .field
  currentHeaderField := .new
  currentHeaderValue := .new
  deferredEndStreamHeaders := none
  requestEncoder := none
  pendingResponses := []
  streams := 0
  headersEncoded := false
  received := []
  closed := false
  delivered := []

variable (s : ClientConnectionImpl p)

def deliver (decoder : Nat) (delivery : Delivery) :
    ClientConnectionImpl p := { s with delivered := s.delivered ++ [(decoder, delivery)] }

def newStream : ClientConnectionImpl p :=
  { s with
    requestEncoder := some .create
    pendingResponses := s.pendingResponses ++ [⟨s.streams, false⟩]
    streams := s.streams + 1
    headersEncoded := false }

def onEncodeComplete (encoder : RequestStreamEncoderImpl) : Option (ClientConnectionImpl p) :=
  s.pendingResponses.getLast?.map fun response =>
    { s with
      pendingResponses :=
        s.pendingResponses.dropLast ++ [{ response with headRequest := encoder.headRequest }] }

/-- The encoder has gone on, and calls back if it has come to the end of the request. -/
def encoded (before after : RequestStreamEncoderImpl) : Option (ClientConnectionImpl p) :=
  let s := { s with requestEncoder := some after, headersEncoded := true }
  if before.stream.completed < after.stream.completed then s.onEncodeComplete after else some s

def completeLastHeader : Option (ClientConnectionImpl p) := do
  let s ←
    if s.currentHeaderField.empty then some s
    else
      s.currentHeaderMap.map fun m =>
        let key := ⟨s.currentHeaderField.type, s.currentHeaderField.bytes.map StringUtil.toLower⟩
        let inline := staticLookup key.cStr
        let inserted := inline.all fun header => m.inlineHeaders header = none
        { s with
          currentHeaderMap := some (m.addViaMove key s.currentHeaderValue)
          currentHeaderField := if inline.isSome then key.clear else .new
          currentHeaderValue := if inserted then .new else s.currentHeaderValue.clear }
  if s.currentHeaderField.empty && s.currentHeaderValue.empty then
    some { s with headerParsingState := .field }
  else none

def onHeaderField (data : Bytes) : Option (ClientConnectionImpl p) :=
  if s.headerParsingState = .done then some s
  else
    (if s.headerParsingState = .value then s.completeLastHeader else some s).map fun s =>
      { s with currentHeaderField := s.currentHeaderField.append data }

def onHeaderValue (data : Bytes) : ClientConnectionImpl p :=
  if s.headerParsingState = .done then s
  else
    { s with
      headerParsingState := .value
      currentHeaderValue := s.currentHeaderValue.append data }

def onMessageBegin : Option (ClientConnectionImpl p) :=
  if s.currentHeaderMap.isSome then none
  else some { s with currentHeaderMap := some .new, headerParsingState := .field }

def cannotHaveBody : Bool :=
  hasNoBody (s.pendingResponses.head?.any PendingResponse.headRequest) s.statusCode

/-- `onHeadersCompleteBase` up to the return of `decodeHeaders`. Without a pending response there is
an exception. -/
def onHeadersComplete (statusCode : UInt16)
    (resume : Bool → p.State) : Option (ClientConnectionImpl p) := do
  let s ← s.completeLastHeader
  let m ← s.currentHeaderMap
  let headers := m.insertInline .status fun value => value.setInteger statusCode.toUInt64
  let s := { s with statusCode := statusCode, currentHeaderMap := none, returning := some resume }
  let response ← s.pendingResponses.head?
  return if s.cannotHaveBody then { s with deferredEndStreamHeaders := some headers }
    else s.deliver response.decoder (.headers headers false)

variable (resume : Bool → p.State)

def returned : ClientConnectionImpl p :=
  { s with
    parser := resume s.cannotHaveBody
    returning := none
    headerParsingState := .done }

def onBody (data : Bytes) : Option (ClientConnectionImpl p) :=
  if s.deferredEndStreamHeaders.isSome then none
  else
    match s.pendingResponses with
    | [] => some s
    | response :: _ => some (s.deliver response.decoder (.data data false))

def onMessageComplete : ClientConnectionImpl p :=
  match s.pendingResponses with
  | [] => s
  | response :: rest =>
    let s := { s with pendingResponses := rest }
    match s.deferredEndStreamHeaders with
    | some headers =>
      { s.deliver response.decoder (.headers headers true) with deferredEndStreamHeaders := none }
    | none => s.deliver response.decoder (.data [] true)

def goesOn : ClientConnectionImpl p :=
  { s with parser := resume false }

def onCallback : Callback → Option (ClientConnectionImpl p)
  | .messageBegin => (s.goesOn resume).onMessageBegin
  | .headerField data => (s.goesOn resume).onHeaderField data
  | .headerValue data => some ((s.goesOn resume).onHeaderValue data)
  | .headersComplete statusCode => s.onHeadersComplete statusCode resume
  | .body data => (s.goesOn resume).onBody data
  | .messageComplete => some (s.goesOn resume).onMessageComplete

/-- `none` where an assertion fails, there is an exception or the event cannot happen. An error of
the parser is an exception. -/
def step : Event → Option (ClientConnectionImpl p)
  | .newStream => some s.newStream
  | .encodeHeaders headers endStream => do
    let encoder ← s.requestEncoder
    s.encoded encoder (← encoder.encodeHeaders headers.1 endStream)
  | .encodeData data endStream => do
    let encoder ← s.requestEncoder
    s.encoded encoder { encoder with stream := encoder.stream.encodeData data endStream }
  | .encodeTrailers => do
    let encoder ← s.requestEncoder
    s.encoded encoder { encoder with stream := encoder.stream.encodeTrailers }
  | .dispatchSlice slice => some { s with reading := some slice, received := s.received ++ slice }
  | .proceed => do
    match p.execute s.parser (← s.reading) with
    | .readAll state => some { s with parser := state, reading := none }
    | .callback call rest resume =>
      let s := { s with reading := some rest }
      s.onCallback resume call
    | .error => none
  | .callbackReturns => s.returning.map s.returned
  | .disconnect =>
    let s := { s with closed := true }
    some (if p.atEnd s.parser then s.onMessageComplete else s)

def deliveriesTo (decoder : Nat) : List Delivery :=
  (s.delivered.filter fun d => d.1 = decoder).map Prod.snd

def encodesHead (headers : HeaderMap) : Bool :=
  (headers.value .method).any fun method => method.cStr = ascii "HEAD"

def requestComplete : Bool :=
  s.requestEncoder.all fun encoder => 0 < encoder.stream.completed

variable (responses : List Response)

/-- The client sends one request after the other, each when the response before is complete, and
closes the connection if a response is complete before its request. The server sends `responses`,
each when it has the request, in any slices, and may then close the connection. -/
def Possible (s : ClientConnectionImpl p) : Event → Prop
  | .newStream => s.closed = false ∧ s.pendingResponses.isEmpty = true ∧ s.requestComplete = true
  | .encodeHeaders headers endStream =>
    s.closed = false ∧ s.pendingResponses.isEmpty = false ∧ s.headersEncoded = false ∧
      (RequestStreamEncoderImpl.create.encodeHeaders headers.1 endStream).isSome = true ∧
        responses[s.streams - 1]?.all (fun r => r.headRequest = encodesHead headers.1) = true
  | .encodeData _ _ | .encodeTrailers =>
    s.closed = false ∧ s.pendingResponses.isEmpty = false ∧ s.headersEncoded = true ∧
      s.requestComplete = false
  | .dispatchSlice slice =>
    s.closed = false ∧ s.reading = none ∧ slice.isEmpty = false ∧
      s.received ++ slice <+: Response.stream responses
  | .proceed =>
    s.reading.isSome = true ∧ s.returning.isNone = true ∧
      (s.pendingResponses.isEmpty = true → s.reading = some [])
  | .callbackReturns => s.returning.isSome = true
  | .disconnect =>
    s.closed = false ∧ s.reading = none ∧
      s.received ∈ responses.inits.map fun rs => rs.flatMap Response.bytes

instance (s : ClientConnectionImpl p) (e : Event) :
    Decidable (s.Possible responses e) := by
  cases e <;> simp only [Possible] <;> infer_instance

/-- When the headers of a response to a `HEAD` request have been passed on, the request is complete,
or the response needs no request to tell that it has no body. -/
def InTime (s : ClientConnectionImpl p) : Event → Prop
  | .callbackReturns =>
    ∀ r ∈ responses[s.streams - 1]?, r.headRequest = true →
      s.requestComplete = true ∨ r.status = 204 ∨ r.status = 304 ∨ r.framing = .empty
  | _ => True

instance (s : ClientConnectionImpl p) (e : Event) :
    Decidable (s.InTime responses e) := by
  cases e <;> simp only [InTime] <;> infer_instance

end ClientConnectionImpl

end Http1

end Meliproxy.Envoy.Http
