import Meliproxy.Envoy.Router.RetryState
import Meliproxy.Lib.Runs
import Meliproxy.Lib.Text

/-!
# The router filter

`Filter` with its `UpstreamRequest`, as the connection manager, the connection pool, the
upstream codec and three timers drive it. A pointer is an `Option` or a flag, and a step is
`none` where the source would dereference a null pointer or fail an assertion.

The filter does not own the pool request and the stream behind it. `pool` says that the pool
holds a request of the filter, and `stream` that the codec holds a stream, with the flag
whether the response headers have arrived on it. `decodingBuffer` and `remoteComplete` belong
to the connection manager. The history is `trace`, the calls on `callbacks_` and the end of
the stream, `sent`, the frames that each attempt has sent upstream, `poolReady`, the attempts
that reached `onPoolReady`, `received`, the body so far, and `exceeded`, that the body went
over the buffer limit.
-/

namespace Meliproxy.Envoy.Router

open Lib

/-- A call on `callbacks_`, or the call of `onDestroy`. -/
inductive Call where
  | encodeHeaders (headers : ResponseHeaders) (endStream : Bool)
  | encodeData (data : Bytes) (endStream : Bool)
  | encodeTrailers
  | resetStream
  | onDestroy

namespace Call

def isStart : Call → Bool
  | .encodeHeaders _ _ => true
  | _ => false

def isBody : Call → Bool
  | .encodeData _ _ => true
  | .encodeTrailers => true
  | _ => false

/-- The calls after which the connection manager has `local_complete_` set. -/
def ends : Call → Bool
  | .encodeHeaders _ endStream => endStream
  | .encodeData _ endStream => endStream
  | .encodeTrailers => true
  | .resetStream => true
  | .onDestroy => false

end Call

/-- What an attempt sends upstream. -/
inductive Frame where
  | headers (endStream : Bool)
  | data (data : Bytes) (endStream : Bool)
  | trailers
  deriving DecidableEq

structure UpstreamRequest where
  connPoolStreamHandle : Bool
  requestEncoder : Bool
  bufferedRequestBody : Option Bytes
  upstreamHost : Bool
  perTryTimeout : Bool
  encodeComplete : Bool
  encodeTrailers : Bool
  grpcRqSuccessDeferred : Bool

structure TimeoutData where
  globalTimeout : Nat
  perTryTimeout : Nat

structure Filter where
  bufferLimit : Nat
  retryState : Option RetryState
  upstreamRequest : Option UpstreamRequest
  responseTimeout : Bool
  timeout : TimeoutData
  timeoutResponseCode : Nat
  grpcRequest : Bool
  downstreamTrailers : Bool
  downstreamResponseStarted : Bool
  downstreamEndStream : Bool
  doShadowing : Bool
  streamDestroyed : Bool
  decoded : Bool
  remoteComplete : Bool
  decodingBuffer : Option Bytes
  pool : Bool
  stream : Option Bool
  trace : List Call
  attempts : Nat
  sent : List (Nat × Frame)
  poolReady : List (Nat × Bool)
  received : Bytes
  exceeded : Bool

/-- What a step may ask of others. `destroys` says whether the connection manager destroys
the stream while it handles the headers of a local reply. -/
structure Inputs where
  retry : RetryInputs
  destroys : Bool

inductive PoolFailureReason where
  | overflow
  | connectionFailure

/-- What `newStream` does before it returns: it gives a handle, or calls `onPoolReady` or
`onPoolFailure`. The stream may be reset inside the `encodeHeaders` of `onPoolReady`. -/
inductive NewStream where
  | pending
  | ready (reset : Option StreamResetReason)
  | failure (reason : PoolFailureReason) (host : Bool)

inductive UpstreamResetType where
  | reset
  | globalTimeout
  | perTryTimeout
  deriving DecidableEq

namespace Filter

def create (bufferLimit : Nat) : Filter where
  bufferLimit := bufferLimit
  retryState := none
  upstreamRequest := none
  responseTimeout := false
  timeout := ⟨0, 0⟩
  timeoutResponseCode := 504
  grpcRequest := false
  downstreamTrailers := false
  downstreamResponseStarted := false
  downstreamEndStream := false
  doShadowing := false
  streamDestroyed := false
  decoded := false
  remoteComplete := false
  decodingBuffer := none
  pool := false
  stream := none
  trace := []
  attempts := 0
  sent := []
  poolReady := []
  received := []
  exceeded := false

variable (s : Filter)

def localComplete : Bool := s.trace.any Call.ends

def call (c : Call) : Filter := { s with trace := s.trace ++ [c] }

def send (frames : List Frame) : Filter :=
  { s with sent := s.sent ++ frames.map fun frame => (s.attempts, frame) }

def cleanup : Filter :=
  { s with
    upstreamRequest := none
    retryState := none
    responseTimeout := false }

variable (u : UpstreamRequest)

/-- `UpstreamRequest::resetStream`: the pool forgets the request, the codec the stream. -/
def resetStream : Option Filter :=
  if u.connPoolStreamHandle && u.requestEncoder then none
  else
    some { s with
      upstreamRequest := some { u with connPoolStreamHandle := false }
      pool := s.pool && !u.connPoolStreamHandle
      stream := if u.requestEncoder then none else s.stream }

def onDestroy (s : Filter) : Option Filter :=
  let reset :=
    match s.upstreamRequest with
    | none => some s
    | some u => s.resetStream u
  reset.map fun s => { s.cleanup with streamDestroyed := true }

/-- The end of the stream: the connection manager calls `onDestroy`. -/
def destroyStream : Option Filter := (s.call .onDestroy).onDestroy

/-- The filter's `sendLocalReply`, with the headers and the body of `Utility::sendLocalReply`. -/
def sendLocalReply (code : Nat) (body : Bytes) (overloaded : Bool) (i : Inputs) : Option Filter :=
  let replied := s.call (.encodeHeaders ⟨code, overloaded, none⟩ (body = []))
  let destroyed := if i.destroys then replied.destroyStream else some replied
  destroyed.map fun s =>
    if body ≠ [] ∧ s.streamDestroyed = false then s.call (.encodeData body true) else s

def sendNoHealthyUpstreamResponse (i : Inputs) : Option Filter :=
  s.sendLocalReply 503 (ascii "no healthy upstream") false i

variable (type : UpstreamResetType)

def resetReply (reason : Option StreamResetReason) :
    Nat × Bytes × Bool :=
  if type = .reset then
    (503, ascii "upstream connect error or disconnect/reset before headers", reason = some .overflow)
  else
    (s.timeoutResponseCode,
      if s.timeoutResponseCode = 504 then ascii "upstream request timeout" else [],
      reason = some .overflow)

def finishReset (reason : Option StreamResetReason)
    (upstreamHost : Bool) (i : Inputs) : Option Filter :=
  if s.downstreamResponseStarted then
    if s.upstreamRequest.any (fun u => u.grpcRqSuccessDeferred && !u.upstreamHost) then none
    else some (s.cleanup.call .resetStream)
  else
    let reply := s.resetReply type reason
    if !is5xx reply.1 && !upstreamHost then none
    else s.cleanup.sendLocalReply reply.1 reply.2.1 reply.2.2 i

def retryReset (r : RetryState) (reason : Option StreamResetReason) (i : Inputs) :
    RetryState × RetryStatus := r.shouldRetry (reason.any r.wouldRetryReset) i.retry

def onUpstreamReset (reason : Option StreamResetReason)
    (i : Inputs) : Option Filter :=
  if type ≠ .globalTimeout ∧ s.upstreamRequest = none then none
  else
    let upstreamHost := s.upstreamRequest.any UpstreamRequest.upstreamHost
    if type ≠ .globalTimeout ∧ s.downstreamResponseStarted = false then
      match s.retryState with
      | none => s.finishReset type reason upstreamHost i
      | some r =>
        let s := { s with retryState := some (retryReset r reason i).1 }
        if (retryReset r reason i).2 = .yes ∧ s.downstreamEndStream then
          some { s with upstreamRequest := none }
        else s.finishReset type reason upstreamHost i
    else s.finishReset type reason upstreamHost i

/-- `UpstreamRequest::onResetStream`, outside of `encodeHeaders`. -/
def onResetStream (reason : StreamResetReason) (i : Inputs) : Option Filter :=
  { s with
    upstreamRequest := some { u with requestEncoder := false }
    stream := none }.onUpstreamReset .reset (some reason) i

def PoolFailureReason.toReset : PoolFailureReason → StreamResetReason
  | .overflow => .overflow
  | .connectionFailure => .connectionFailure

def onPoolFailure (reason : PoolFailureReason) (host : Bool) (i : Inputs) : Option Filter :=
  { s with pool := false }.onResetStream { u with upstreamHost := host }
    (PoolFailureReason.toReset reason) i

def headersFrame : Frame :=
  .headers (u.bufferedRequestBody = none && u.encodeComplete && !u.encodeTrailers)

def bufferedFrames : List Frame :=
  (match u.bufferedRequestBody with
    | none => []
    | some body => [.data body (u.encodeComplete && !u.encodeTrailers)]) ++
    if u.encodeTrailers then [.trailers] else []

def onPoolReady (reset : Option StreamResetReason) (i : Inputs) : Option Filter :=
  let u := { u with
    upstreamHost := true
    connPoolStreamHandle := false
    requestEncoder := true }
  let s := { s with
    pool := false
    stream := some false
    upstreamRequest := some u
    poolReady := s.poolReady ++ [(s.attempts, reset.isSome)] }
  match reset with
  | some reason => (s.send [headersFrame u]).onResetStream u reason i
  | none => some (s.send (headersFrame u :: bufferedFrames u))

variable (endStream : Bool)

def newUpstreamRequest (n : NewStream) (i : Inputs) : Option Filter :=
  let u : UpstreamRequest := ⟨false, false, none, false, false, endStream, false, false⟩
  let s := { s with
    upstreamRequest := some u
    attempts := s.attempts + 1 }
  match n with
  | .pending =>
    some { s with
      upstreamRequest := some { u with connPoolStreamHandle := true }
      pool := true }
  | .ready reset => s.onPoolReady u reset i
  | .failure reason host => s.onPoolFailure u reason host i

variable (data : Bytes)

def encodeData (endStream : Bool) : Option Filter :=
  if u.encodeComplete then none
  else if u.requestEncoder then
    some ({ s with upstreamRequest := some { u with encodeComplete := endStream } }.send
      [.data data endStream])
  else
    some { s with
      upstreamRequest := some { u with
        encodeComplete := endStream
        bufferedRequestBody := some (u.bufferedRequestBody.getD [] ++ data) } }

def encodeTrailers (s : Filter) (u : UpstreamRequest) : Option Filter :=
  if u.encodeComplete then none
  else
    let s := { s with upstreamRequest := some { u with
      encodeComplete := true
      encodeTrailers := true } }
    some (if u.requestEncoder then s.send [.trailers] else s)

def setupPerTryTimeout : Option Filter :=
  if u.perTryTimeout then none
  else
    some { s with
      upstreamRequest := some { u with perTryTimeout := 0 < s.timeout.perTryTimeout } }

def onRequestComplete : Option Filter :=
  let s := { s with downstreamEndStream := true }
  match s.upstreamRequest with
  | none => some s
  | some u =>
    (s.setupPerTryTimeout u).map fun s =>
      { s with responseTimeout := s.responseTimeout || 0 < s.timeout.globalTimeout }

def completeIf : Option Filter :=
  if endStream then s.onRequestComplete else some s

/-- What `decodeHeaders` finds out about the request. `retry` is what `createRetryState` gives
the retry state, if the request or the route asks for one. -/
inductive Route where
  | noRoute
  | redirect
  | noCluster
  | maintenanceMode
  | noHealthyUpstream
  | forward (timeout : TimeoutData) (altResponse : Bool) (retry : Option (UInt32 × UInt32))
      (doShadowing grpcRequest : Bool) (newStream : NewStream)

def prepare (timeout : TimeoutData) (altResponse : Bool)
    (retry : Option (UInt32 × UInt32)) (doShadowing grpcRequest : Bool) : Filter :=
  { s with
    timeout := timeout
    timeoutResponseCode := if altResponse then 204 else 504
    retryState := retry.map fun policy => RetryState.create policy.1 policy.2
    doShadowing := doShadowing
    grpcRequest := grpcRequest }

def accept : Filter :=
  { s with
    decoded := true
    remoteComplete := endStream }

def decodeHeaders (route : Route) (endStream : Bool) (i : Inputs) : Option Filter :=
  match route with
  | .noRoute => some (s.call (.encodeHeaders ⟨404, false, none⟩ true))
  | .redirect => some (s.call (.encodeHeaders ⟨301, false, none⟩ true))
  | .noCluster => some (s.call (.encodeHeaders ⟨404, false, none⟩ true))
  | .maintenanceMode => s.sendLocalReply 503 (ascii "maintenance mode") true i
  | .noHealthyUpstream => s.sendNoHealthyUpstreamResponse i
  | .forward timeout altResponse retry doShadowing grpcRequest n =>
    ((s.prepare timeout altResponse retry doShadowing grpcRequest).newUpstreamRequest endStream n
      i).bind fun s => s.completeIf endStream

/-- Whether the body has to be kept for a retry or for the shadow request. -/
def buffers : Bool := s.retryState.any RetryState.enabled || s.doShadowing

def overLimit : Bool :=
  0 < s.bufferLimit ∧ s.bufferLimit < (s.decodingBuffer.getD []).length + data.length

/-- The start of `decodeData`: over the limit there is no retry and no shadow request. -/
def receive : Filter :=
  { s with
    retryState := if s.buffers && s.overLimit data then none else s.retryState
    doShadowing := s.doShadowing && !s.overLimit data
    received := s.received ++ data
    exceeded := s.exceeded || s.overLimit data }

/-- `decodeData`: the filter afterwards, and whether it asks for the data to be buffered. -/
def decodeData (endStream : Bool) : Option (Filter × Bool) :=
  s.upstreamRequest.bind fun u => ((s.receive data).encodeData u data endStream).bind fun t =>
    (t.completeIf endStream).map fun t => (t, s.buffers && !s.overLimit data)

def setRemoteComplete (complete : Bool) : Filter := { s with remoteComplete := complete }

/-- The data event of the connection manager, which drops the data after the end of the
response and buffers what the filter asks for. -/
def onData (endStream : Bool) : Option Filter :=
  let s := s.setRemoteComplete endStream
  if s.localComplete then some s
  else
    (s.decodeData data endStream).map fun (s, buffering) =>
      if buffering then { s with decodingBuffer := some (s.decodingBuffer.getD [] ++ data) } else s

def decodeTrailers : Option Filter :=
  let s := { s with downstreamTrailers := true }
  s.upstreamRequest.bind fun u => (s.encodeTrailers u).bind onRequestComplete

def onTrailers : Option Filter :=
  let s := s.setRemoteComplete true
  if s.localComplete then some s else s.decodeTrailers

def onUpstreamComplete : Option Filter :=
  let reset := if s.downstreamEndStream then some s else s.resetStream u
  reset.map cleanup

/-- The response has ended on the stream: the codec is done with it if the request has too. -/
def responseEnds : Filter :=
  { s with stream := if endStream && u.encodeComplete then none else some true }

def handleNon5xxResponseHeaders (headers : ResponseHeaders) (endStream : Bool) : UpstreamRequest :=
  if !is5xx headers.status && s.grpcRequest && !endStream then
    { u with grpcRqSuccessDeferred := true }
  else u

def startResponse (headers : ResponseHeaders) (endStream : Bool) : Option Filter :=
  let u := s.handleNon5xxResponseHeaders u headers endStream
  let s := { s with
    retryState := none
    upstreamRequest := some u
    downstreamResponseStarted := true }
  let completed := if endStream then s.onUpstreamComplete u else some s
  completed.map fun s => s.call (.encodeHeaders headers endStream)

def setupRetry : Option Filter :=
  let reset := if endStream then some s else s.resetStream u
  reset.map fun s => { s with upstreamRequest := none }

def onUpstreamHeaders (headers : ResponseHeaders) (endStream : Bool) (i : Inputs) : Option Filter :=
  s.upstreamRequest.bind fun u =>
    if s.downstreamResponseStarted || !u.upstreamHost then none
    else
      let s := s.responseEnds u endStream
      match s.retryState with
      | none => s.startResponse u headers endStream
      | some r =>
        let retry := r.shouldRetry (r.wouldRetryHeaders headers) i.retry
        if retry.2 = .yes ∧ s.downstreamEndStream then
          { s with retryState := some retry.1 }.setupRetry u endStream
        else s.startResponse u headers endStream

def onUpstreamData (endStream : Bool) : Option Filter :=
  s.upstreamRequest.bind fun u =>
    let s := s.responseEnds u endStream
    let completed :=
      if endStream then
        if u.grpcRqSuccessDeferred && !u.upstreamHost then none else s.onUpstreamComplete u
      else some s
    completed.map fun s => s.call (.encodeData data endStream)

def onUpstreamTrailers : Option Filter :=
  s.upstreamRequest.bind fun u =>
    let s := s.responseEnds u true
    if u.grpcRqSuccessDeferred && !u.upstreamHost then none
    else (s.onUpstreamComplete u).map fun s => s.call .encodeTrailers

def onPerTryTimeout (i : Inputs) : Option Filter :=
  s.upstreamRequest.bind fun u => (s.resetStream u).bind fun s =>
    s.onUpstreamReset .perTryTimeout (some .localReset) i

def onResponseTimeout (i : Inputs) : Option Filter :=
  let reset :=
    match s.upstreamRequest with
    | none => some s
    | some u => s.resetStream u
  reset.bind fun s => s.onUpstreamReset .globalTimeout none i

def replayData : Option Filter :=
  match s.decodingBuffer with
  | none => some s
  | some body => s.upstreamRequest.bind fun u => s.encodeData u body (!s.downstreamTrailers)

def replayTrailers : Option Filter :=
  if s.downstreamTrailers then s.upstreamRequest.bind fun u => s.encodeTrailers u else some s

def replay : Option Filter :=
  if s.upstreamRequest = none then some s
  else
    s.replayData.bind fun s => s.replayTrailers.bind fun s =>
      s.upstreamRequest.bind fun u => s.setupPerTryTimeout u

def doRetry (n : Option NewStream) (i : Inputs) : Option Filter :=
  match n with
  | none => (s.sendNoHealthyUpstreamResponse i).map cleanup
  | some n =>
    if (s.responseTimeout = false ∧ s.timeout.globalTimeout ≠ 0) ∨ s.upstreamRequest ≠ none then none
    else
      (s.newUpstreamRequest (s.decodingBuffer = none && !s.downstreamTrailers) n i).bind replay

def onRetryTimer (n : Option NewStream) (i : Inputs) : Option Filter :=
  s.retryState.bind fun r =>
    { s with retryState := some { r with retryTimer := false } }.doRetry n i

inductive Event where
  | headers (route : Route) (endStream : Bool) (i : Inputs)
  | data (data : Bytes) (endStream : Bool)
  | trailers
  | destroy
  | poolReady (reset : Option StreamResetReason) (i : Inputs)
  | poolFailure (reason : PoolFailureReason) (host : Bool) (i : Inputs)
  | upstreamHeaders (headers : ResponseHeaders) (endStream : Bool) (i : Inputs)
  | upstreamData (data : Bytes) (endStream : Bool)
  | upstreamTrailers
  | upstreamReset (reason : StreamResetReason) (i : Inputs)
  | perTryTimeout (i : Inputs)
  | responseTimeout (i : Inputs)
  | retryTimer (n : Option NewStream) (i : Inputs)

def step : Event → Option Filter
  | .headers route endStream i => (s.accept endStream).decodeHeaders route endStream i
  | .data data endStream => s.onData data endStream
  | .trailers => s.onTrailers
  | .destroy => s.destroyStream
  | .poolReady reset i => s.upstreamRequest.bind fun u => s.onPoolReady u reset i
  | .poolFailure reason host i => s.upstreamRequest.bind fun u => s.onPoolFailure u reason host i
  | .upstreamHeaders headers endStream i => s.onUpstreamHeaders headers endStream i
  | .upstreamData data endStream => s.onUpstreamData data endStream
  | .upstreamTrailers => s.onUpstreamTrailers
  | .upstreamReset reason i => s.upstreamRequest.bind fun u => s.onResetStream u reason i
  | .perTryTimeout i => s.onPerTryTimeout i
  | .responseTimeout i => s.onResponseTimeout i
  | .retryTimer n i => s.onRetryTimer n i

/-- What the others may do. The connection manager decodes the headers once, then data and
trailers up to the end of the request, and may destroy the stream at any time. The pool
calls back while it holds the request, the codec while it holds the stream, with the headers
first, and a timer fires while it exists. -/
def Possible : Event → Prop
  | .headers _ _ _ => s.streamDestroyed = false ∧ s.decoded = false
  | .data _ _ => s.streamDestroyed = false ∧ s.decoded = true ∧ s.remoteComplete = false
  | .trailers => s.streamDestroyed = false ∧ s.decoded = true ∧ s.remoteComplete = false
  | .destroy => s.streamDestroyed = false
  | .poolReady _ _ => s.pool = true
  | .poolFailure _ _ _ => s.pool = true
  | .upstreamHeaders _ _ _ => s.stream = some false
  | .upstreamData _ _ => s.stream = some true
  | .upstreamTrailers => s.stream = some true
  | .upstreamReset _ _ => s.stream ≠ none
  | .perTryTimeout _ => s.upstreamRequest.any UpstreamRequest.perTryTimeout = true
  | .responseTimeout _ => s.responseTimeout = true
  | .retryTimer _ _ => s.retryState.any RetryState.retryTimer = true

instance decidablePossible (s : Filter) : (e : Event) → Decidable (Possible s e) := by
  intro e
  cases e <;> dsimp only [Possible] <;> infer_instance

end Filter

end Meliproxy.Envoy.Router
