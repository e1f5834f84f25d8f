import Meliproxy.Envoy.Http.ConnManager
import Meliproxy.Envoy.Http.Http1Encoder
import Meliproxy.Lib.Runs

/-!
# The WebSocket handler

`WsHandlerImpl`, with the `TcpProxy` that it is, between three things that come and go by
themselves: the stream of the upgrade request, whose headers and callbacks it refers to, the
connection of the client and the connection to the upstream.
-/

namespace Meliproxy.Envoy.Http.WebSocket

open Lib Http1 Option

/-- `Router::RouteEntry`, as far as the handler asks it. -/
structure RouteEntry where
  finalizeRequestHeaders : HeaderMap → HeaderMap
  autoHostRewrite : Bool

/-- What the cluster manager has for the cluster of the route. -/
inductive Cluster where
  | unknown
  | overflow
  | noHost
  | host (hostname : Bytes)

/-- What becomes of a response that consists of headers: a filter stops it, or the stream ends. The
connection is closed with it if the request is not complete or connections are drained. -/
inductive Answer where
  | stopped
  | passes (closes : Bool)

/-- A timer that has fired is still an object. -/
inductive ConnectTimer where
  | armed
  | fired
  deriving DecidableEq

inductive UpstreamState where
  | connecting
  | connected
  | closed
  deriving DecidableEq

/-- `Network::Connection::State`. -/
inductive ConnectionState where
  | open
  | closing
  | closed
  deriving DecidableEq

/-- `close` with `FlushWrite`. With nothing to write the connection is closed at once, which is an
event of its own here. -/
def ConnectionState.closeFlushWrite : ConnectionState → ConnectionState
  | .open => .closing
  | state => state

/-- `readBuffer` is what the client's connection has read and nobody has taken. The last six fields
tell what has happened: the bytes behind the upgrade request, the bytes written to the upstream,
whether it was connected, the codes of the responses, whether one came after the connection, and
whether the headers or the callbacks of a stream were used that is not in the manager's list. -/
structure WsHandlerImpl where
  requestHeaders : HeaderMap
  upstreamConnection : Option UpstreamState
  connectTimeoutTimer : Option ConnectTimer
  downstream : ConnectionState
  streamListed : Bool
  readBuffer : Bytes
  received : Bytes
  written : Bytes
  succeeded : Bool
  answers : List Nat
  lateAnswer : Bool
  deadUse : Bool

inductive Event where
  | data (bytes : Bytes)
  | upstreamConnected
  | upstreamClosed (answer : Answer)
  | connectTimeout (answer : Answer)
  | streamEnds (closes : Bool)
  | downstreamCloses
  | downstreamClosed

namespace WsHandlerImpl

variable (s : WsHandlerImpl)

def endStream (closes : Bool) : WsHandlerImpl :=
  { s with
    streamListed := false
    downstream := if closes then s.downstream.closeFlushWrite else s.downstream }

def sendHeadersOnlyResponse (code : Nat) (answer : Answer) : WsHandlerImpl :=
  let s := { s with answers := s.answers ++ [code], lateAnswer := s.lateAnswer || s.succeeded }
  if s.streamListed then
    match answer with
    | .stopped => s
    | .passes closes => s.endStream closes
  else { s with deadUse := true }

def onInitFailure (answer : Answer) : WsHandlerImpl :=
  s.sendHeadersOnlyResponse 503 answer

variable (route : RouteEntry)

def onUpstreamHostReady (hostname : Bytes) (headers : HeaderMap) : HeaderMap :=
  let headers := route.finalizeRequestHeaders headers
  if route.autoHostRewrite && hostname ≠ [] then headers.modifyInline .host (·.setCopy hostname)
  else headers

def onConnectTimeoutError (answer : Answer) : WsHandlerImpl :=
  s.sendHeadersOnlyResponse 504 answer

def onConnectionFailure (answer : Answer) : WsHandlerImpl :=
  if s.connectTimeoutTimer.isSome then s.sendHeadersOnlyResponse 504 answer
  else { s with downstream := s.downstream.closeFlushWrite }

/-- The headers are those of the stream. What is written when it is gone is not modelled. -/
def onConnectionSuccess : Option WsHandlerImpl :=
  if s.streamListed then
    (RequestStreamEncoderImpl.create.encodeHeaders s.requestHeaders false).map fun encoder =>
      { s with written := s.written ++ encoder.stream.output, succeeded := true }
  else some { s with deadUse := true, succeeded := true }

def upgradeRequest (cluster : Cluster) (headers : HeaderMap) : HeaderMap :=
  match cluster with
  | .host hostname => onUpstreamHostReady route hostname headers
  | _ => headers

def initializeUpstreamConnection (cluster : Cluster)
    (answer : Answer) : WsHandlerImpl :=
  match cluster with
  | .unknown | .overflow | .noHost => s.onInitFailure answer
  | .host hostname =>
    { s with
      requestHeaders := onUpstreamHostReady route hostname s.requestHeaders
      upstreamConnection := some .connecting
      connectTimeoutTimer := some .armed }

/-- `onUpstreamEvent` ends without the timer. -/
def resetTimer : WsHandlerImpl := { s with connectTimeoutTimer := none }

/-- A write needs a connection, and one that was connected must not be closed. -/
def onData : Option WsHandlerImpl :=
  match s.upstreamConnection with
  | none => none
  | some state =>
    if state = .closed ∧ s.succeeded then none
    else some { s with written := s.written ++ s.readBuffer, readBuffer := [] }

/-- The connection to the client is closed, and that to the upstream is closed too, which calls
back. -/
def onDownstreamEvent : WsHandlerImpl :=
  if s.upstreamConnection = some .connecting ∨ s.upstreamConnection = some .connected then
    { s with upstreamConnection := some .closed, connectTimeoutTimer := none }
  else s

/-- `none` where the process crashes, there is an exception or the event cannot happen. When the
connection of the client is closed the stream goes first, as the manager is the first to hear of
it. -/
def step : Event → Option WsHandlerImpl
  | .data bytes =>
    if s.downstream = .open then
      let s := { s with readBuffer := s.readBuffer ++ bytes, received := s.received ++ bytes }
      s.onData
    else none
  | .upstreamConnected =>
    if s.upstreamConnection = some .connecting then
      let s := { s with upstreamConnection := some .connected }
      s.onConnectionSuccess.map resetTimer
    else none
  | .upstreamClosed answer =>
    if s.upstreamConnection = some .connecting ∨ s.upstreamConnection = some .connected then
      let s := { s with upstreamConnection := some .closed }
      some (s.onConnectionFailure answer).resetTimer
    else none
  | .connectTimeout answer =>
    if s.connectTimeoutTimer = some .armed then
      let s := { s with connectTimeoutTimer := some .fired }
      some (s.onConnectTimeoutError answer)
    else none
  | .streamEnds closes => if s.streamListed then some (s.endStream closes) else none
  | .downstreamCloses => if s.downstream = .open then some { s with downstream := .closing } else none
  | .downstreamClosed =>
    if s.downstream = .closed then none
    else
      let s := { s with downstream := .closed, streamListed := false }
      some s.onDownstreamEvent

end WsHandlerImpl

/-- What is read together with the headers of the upgrade request: a part of its body, which goes to
the filters of the stream, and bytes behind it, which stay in the read buffer. -/
structure SameRead where
  body : Bytes
  rest : Bytes

def SameRead.handler (read : SameRead) (headers : HeaderMap) : WsHandlerImpl where
  requestHeaders := headers
  upstreamConnection := none
  connectTimeoutTimer := none
  downstream := .open
  streamListed := true
  readBuffer := read.rest
  received := read.body ++ read.rest
  written := []
  succeeded := false
  answers := []
  lateAnswer := false
  deadUse := false

/-- The handler that `decodeHeaders` makes for an upgrade request that it accepts, after
`onNewConnection`. -/
def upgrade (server : Server) (c : Context) (m : HeaderMap) (route : RouteEntry) (cluster : Cluster)
    (answer : Answer) (read : SameRead) : Option WsHandlerImpl :=
  match decodeHeaders server c m with
  | .webSocket =>
    some ((read.handler (mutateRequestHeaders c m)).initializeUpstreamConnection route cluster answer)
  | _ => none

/-!
## Runs of the WebSocket handler

The upgrade request is the first that the upstream gets if the client sends nothing before the
connection to the upstream succeeds. The handler answers once, and only while its stream is there,
if what happens to that connection happens before the connect timeout and before the stream ends.
-/

def Event.writes : Event → Bool
  | .data _ | .upstreamConnected => true
  | _ => false

namespace WsHandlerImpl

variable {s s' : WsHandlerImpl} {e : Event} {code : Nat} {answer : Answer} {closes : Bool}

/-- The bytes stay as they are, and no connection is begun. -/
structure SameBytes (s s' : WsHandlerImpl) : Prop where
  headers : s'.requestHeaders = s.requestHeaders
  upstream : s'.upstreamConnection = some .connecting → s.upstreamConnection = some .connecting
  buffer : s'.readBuffer = s.readBuffer
  received : s'.received = s.received
  written : s'.written = s.written
  succeeded : s'.succeeded = s.succeeded

theorem SameBytes.trans {s'' : WsHandlerImpl} (h : SameBytes s s') (h' : SameBytes s' s'') :
    SameBytes s s'' :=
  ⟨h'.headers.trans h.headers, fun hup => h.upstream (h'.upstream hup), h'.buffer.trans h.buffer,
    h'.received.trans h.received, h'.written.trans h.written, h'.succeeded.trans h.succeeded⟩

variable (s)

theorem timer_response (code : Nat) (answer : Answer) :
    (s.sendHeadersOnlyResponse code answer).connectTimeoutTimer = s.connectTimeoutTimer := by
  simp only [sendHeadersOnlyResponse]
  split
  · cases answer with
    | stopped | passes => rfl
  · rfl

theorem sameBytes_response (code : Nat) (answer : Answer) :
    SameBytes s (s.sendHeadersOnlyResponse code answer) := by
  simp only [sendHeadersOnlyResponse]
  split
  · cases answer with
    | stopped | passes => exact ⟨rfl, id, rfl, rfl, rfl, rfl⟩
  · exact ⟨rfl, id, rfl, rfl, rfl, rfl⟩

theorem sameBytes_failure (answer : Answer) :
    SameBytes s (s.onConnectionFailure answer) := by
  rw [onConnectionFailure]
  split
  · exact sameBytes_response s 504 answer
  · exact ⟨rfl, id, rfl, rfl, rfl, rfl⟩

theorem sameBytes_downstream : SameBytes s s.onDownstreamEvent := by
  simp only [onDownstreamEvent]
  split
  · exact ⟨rfl, by simp, rfl, rfl, rfl, rfl⟩
  · exact ⟨rfl, id, rfl, rfl, rfl, rfl⟩

variable {s}

theorem sameBytes_step (hwrites : e.writes = false) (hstep : s.step e = some s') :
    SameBytes s s' := by
  cases e with
  | data | upstreamConnected => cases hwrites
  | upstreamClosed answer =>
    obtain ⟨-, rfl⟩ := ite_some_none_eq_some.mp hstep
    let s₁ : WsHandlerImpl := { s with upstreamConnection := some .closed }
    have hclosed : SameBytes s s₁ := ⟨rfl, by simp [s₁], rfl, rfl, rfl, rfl⟩
    have hreset : SameBytes (s₁.onConnectionFailure answer) (s₁.onConnectionFailure answer).resetTimer :=
      ⟨rfl, id, rfl, rfl, rfl, rfl⟩
    exact (hclosed.trans (sameBytes_failure s₁ answer)).trans hreset
  | connectTimeout answer =>
    obtain ⟨-, rfl⟩ := ite_some_none_eq_some.mp hstep
    have hfired : SameBytes s { s with connectTimeoutTimer := some .fired } :=
      ⟨rfl, id, rfl, rfl, rfl, rfl⟩
    exact hfired.trans (sameBytes_response _ 504 answer)
  | streamEnds | downstreamCloses =>
    obtain ⟨-, rfl⟩ := ite_some_none_eq_some.mp hstep
    exact ⟨rfl, id, rfl, rfl, rfl, rfl⟩
  | downstreamClosed =>
    obtain ⟨-, hs'⟩ := ite_none_left_eq_some.mp hstep
    cases hs'
    have hgone : SameBytes s { s with downstream := .closed, streamListed := false } :=
      ⟨rfl, id, rfl, rfl, rfl, rfl⟩
    exact hgone.trans (sameBytes_downstream _)

/-- The upstream gets nothing before the request, and behind it what the client sent, in order.
Only the bytes read behind the request may wait, until the client sends more. -/
structure RequestFirst (request : HeaderMap) (rest : Bytes) (s : WsHandlerImpl) : Prop where
  silent : s.succeeded = false → s.written = []
  first : s.succeeded = true → ∃ encoder forwarded,
    RequestStreamEncoderImpl.create.encodeHeaders request false = some encoder ∧
      s.written = encoder.stream.output ++ forwarded ∧ forwarded ++ s.readBuffer = s.received
  forwards : s.received ≠ rest → s.readBuffer = []

/-- The client sends nothing before the connection succeeds, and then the stream is still there. -/
def ClientWaits (s : WsHandlerImpl) : Event → Prop
  | .data _ => s.succeeded = true
  | .upstreamConnected => s.streamListed = true
  | _ => True

instance (s : WsHandlerImpl) (e : Event) : Decidable (s.ClientWaits e) := by
  cases e <;> simp only [ClientWaits] <;> infer_instance

/-- Until the connection succeeds the request is waiting, and with it what the client sent. -/
structure Forwards (request : HeaderMap) (rest : Bytes) (s : WsHandlerImpl) : Prop extends
    RequestFirst request rest s where
  waiting : s.upstreamConnection = some .connecting →
    s.requestHeaders = request ∧ s.succeeded = false
  buffered : s.succeeded = false → s.readBuffer = s.received

variable {request : HeaderMap} {rest : Bytes}

section

variable (h : Forwards request rest s)
include h

theorem Forwards.same (hsame : SameBytes s s') : Forwards request rest s' := by
  obtain ⟨hheaders, hupstream, hbuffer, hreceived, hwritten, hsucceeded⟩ := hsame
  refine ⟨⟨?_, ?_, ?_⟩, ?_, ?_⟩
  · rw [hsucceeded, hwritten]
    exact h.silent
  · rw [hsucceeded, hwritten, hbuffer, hreceived]
    exact h.first
  · rw [hbuffer, hreceived]
    exact h.forwards
  · rw [hheaders, hsucceeded]
    exact fun hup => h.waiting (hupstream hup)
  · rw [hsucceeded, hbuffer, hreceived]
    exact h.buffered

theorem Forwards.data {bytes : Bytes} (hsucceeded : s.succeeded = true)
    (hstep : s.step (.data bytes) = some s') : Forwards request rest s' := by
  obtain ⟨-, hdata⟩ := ite_none_right_eq_some.mp hstep
  rw [onData] at hdata
  obtain ⟨encoder, forwarded, hencoder, hwritten, hreceived⟩ := h.first hsucceeded
  cases hup : s.upstreamConnection with
  | none => simp [hup] at hdata
  | some state =>
    simp only [hup, ite_none_left_eq_some, some_inj] at hdata
    obtain ⟨-, rfl⟩ := hdata
    refine ⟨⟨?_, fun _ => ⟨encoder, forwarded ++ (s.readBuffer ++ bytes), hencoder, ?_, ?_⟩,
      fun _ => rfl⟩, ?_, ?_⟩
    · intro hfalse
      rw [hsucceeded] at hfalse
      cases hfalse
    · simp [hwritten]
    · simp [← hreceived]
    · intro hconnecting
      rw [(h.waiting (hup.trans hconnecting)).2] at hsucceeded
      cases hsucceeded
    · intro hfalse
      rw [hsucceeded] at hfalse
      cases hfalse

theorem Forwards.connected (hlisted : s.streamListed = true)
    (hstep : s.step .upstreamConnected = some s') : Forwards request rest s' := by
  obtain ⟨hup, hsuccess⟩ := ite_none_right_eq_some.mp hstep
  obtain ⟨rfl, hpending⟩ := h.waiting hup
  simp only [onConnectionSuccess, hlisted, if_true, Option.map_map] at hsuccess
  obtain ⟨encoder, hencoder, rfl⟩ := map_eq_some_iff.mp hsuccess
  refine ⟨⟨nofun, fun _ => ⟨encoder, [], hencoder, ?_, ?_⟩, h.forwards⟩, nofun, nofun⟩
  · simp [h.silent hpending, resetTimer]
  · exact h.buffered hpending

theorem Forwards.step (hwaits : s.ClientWaits e)
    (hstep : s.step e = some s') : Forwards request rest s' := by
  cases e with
  | data bytes => exact h.data hwaits hstep
  | upstreamConnected => exact h.connected hwaits hstep
  | upstreamClosed | connectTimeout | streamEnds | downstreamCloses | downstreamClosed =>
    exact h.same (sameBytes_step rfl hstep)

end

variable {server : Server} {c : Context} {m : HeaderMap} {route : RouteEntry} {cluster : Cluster}
  {read : SameRead}

theorem forwards_upgrade (hbody : read.body = [])
    (hupgrade : upgrade server c m route cluster answer read = some s) :
    Forwards (upgradeRequest route cluster (mutateRequestHeaders c m)) read.rest s := by
  rw [upgrade] at hupgrade
  split at hupgrade
  · cases hupgrade
    have hreceived : (read.handler (mutateRequestHeaders c m)).received = read.rest := by
      simp [SameRead.handler, hbody]
    have hstart : ∀ request,
        Forwards request read.rest (read.handler (mutateRequestHeaders c m)) := by
      intro request
      exact ⟨⟨fun _ => rfl, nofun, fun hmore => absurd hreceived hmore⟩, nofun,
        fun _ => hreceived.symm⟩
    cases cluster with
    | unknown | overflow | noHost => exact (hstart _).same (sameBytes_response _ 503 answer)
    | host hostname =>
      exact ⟨⟨fun _ => rfl, nofun, fun hmore => absurd hreceived hmore⟩, fun _ => ⟨rfl, rfl⟩,
        fun _ => hreceived.symm⟩
  · cases hupgrade

/-- If the client waits, the upstream sees the request first and the client's bytes behind it. -/
theorem request_first {server : Server} {c : Context} {m : HeaderMap} {route : RouteEntry}
    {cluster : Cluster} {read : SameRead} {s₀ : WsHandlerImpl}
    (hupgrade : upgrade server c m route cluster answer read = some s₀) (hbody : read.body = [])
    {es : List Event} (hwaits : AllMeet WsHandlerImpl.step ClientWaits s₀ es)
    (hrun : run WsHandlerImpl.step s₀ es = some s) :
    RequestFirst (upgradeRequest route cluster (mutateRequestHeaders c m)) read.rest s :=
  (run_invariant (fun _ _ _ h hwaits hstep => h.step hwaits hstep) hwaits
    (forwards_upgrade hbody hupgrade) hrun).toRequestFirst

variable (s)

/-- One response at most, none behind the success of the connection, no use of a stream that is
gone, and no connection to the upstream without one to the client. -/
structure AnswersOnce : Prop where
  once : s.answers.length ≤ 1
  early : s.lateAnswer = false
  alive : s.deadUse = false
  closed : s.downstream = .closed →
    s.upstreamConnection = none ∨ s.upstreamConnection = some .closed

/-- The connection to the upstream succeeds or fails, and the connect timeout comes, while the stream
is there. If the connection fails it does so before the timeout. -/
def InTime : Event → Prop
  | .upstreamConnected | .connectTimeout _ => s.streamListed = true
  | .upstreamClosed _ => s.connectTimeoutTimer.isSome = true →
    s.connectTimeoutTimer = some .armed ∧ s.streamListed = true
  | _ => True

instance (e : Event) : Decidable (s.InTime e) := by
  cases e <;> simp only [InTime] <;> infer_instance

/-- As long as the timer runs nothing has been decided. -/
structure Undecided : Prop extends AnswersOnce s where
  armed : s.connectTimeoutTimer = some .armed → s.answers = [] ∧ s.succeeded = false

variable {s}

theorem closed_closeFlushWrite {state : ConnectionState} (h : state.closeFlushWrite = .closed) :
    state = .closed := by
  cases state with
  | «open» => cases h
  | closing => cases h
  | closed => rfl

theorem answersOnce_response (h : s.AnswersOnce) (hnone : s.answers = []) (hearly : s.succeeded = false)
    (hlisted : s.streamListed = true) (code : Nat) (answer : Answer) :
    (s.sendHeadersOnlyResponse code answer).AnswersOnce := by
  simp only [sendHeadersOnlyResponse, hnone, hearly, hlisted, if_true]
  cases answer with
  | stopped => exact ⟨by simp, by simp [h.early], h.alive, h.closed⟩
  | passes closes =>
    refine ⟨by simp [endStream], by simp [endStream, h.early], h.alive, fun hclosed => ?_⟩
    apply h.closed
    cases closes with
    | true => exact closed_closeFlushWrite hclosed
    | false => exact hclosed

theorem Undecided.connected (h : s.Undecided) (hlisted : s.streamListed = true)
    (hstep : s.step .upstreamConnected = some s') : s'.Undecided := by
  obtain ⟨hup, hsuccess⟩ := ite_none_right_eq_some.mp hstep
  simp only [onConnectionSuccess, hlisted, if_true, Option.map_map] at hsuccess
  obtain ⟨encoder, -, rfl⟩ := map_eq_some_iff.mp hsuccess
  refine ⟨⟨h.once, h.early, h.alive, fun hclosed => ?_⟩, nofun⟩
  rcases h.closed hclosed with hnone | hnone
  · rw [hup] at hnone
    cases hnone
  · rw [hup] at hnone
    cases hnone

theorem Undecided.failed (h : s.Undecided) {answer : Answer}
    (hintime : s.InTime (.upstreamClosed answer))
    (hstep : s.step (.upstreamClosed answer) = some s') : s'.Undecided := by
  obtain ⟨-, rfl⟩ := ite_some_none_eq_some.mp hstep
  let s₁ : WsHandlerImpl := { s with upstreamConnection := some .closed }
  have hs₁ : s₁.AnswersOnce := ⟨h.once, h.early, h.alive, fun _ => .inr rfl⟩
  have hfailed : (s₁.onConnectionFailure answer).AnswersOnce := by
    rw [onConnectionFailure]
    split
    · next htimer =>
      obtain ⟨harmed, hlisted⟩ := hintime htimer
      obtain ⟨hnone, hearly⟩ := h.armed harmed
      exact answersOnce_response hs₁ hnone hearly hlisted 504 answer
    · exact ⟨h.once, h.early, h.alive, fun _ => .inr rfl⟩
  exact ⟨{ hfailed with }, nofun⟩

theorem Undecided.timedOut (h : s.Undecided) {answer : Answer} (hlisted : s.streamListed = true)
    (hstep : s.step (.connectTimeout answer) = some s') : s'.Undecided := by
  obtain ⟨harmed, rfl⟩ := ite_some_none_eq_some.mp hstep
  obtain ⟨hnone, hearly⟩ := h.armed harmed
  let s₁ : WsHandlerImpl := { s with connectTimeoutTimer := some .fired }
  have hs₁ : s₁.AnswersOnce := { h with }
  refine ⟨answersOnce_response hs₁ hnone hearly hlisted 504 answer, fun hstill => ?_⟩
  rw [onConnectTimeoutError, timer_response] at hstill
  cases hstill

theorem Undecided.step (h : s.Undecided) (hintime : s.InTime e) (hstep : s.step e = some s') :
    s'.Undecided := by
  cases e with
  | data bytes =>
    obtain ⟨-, hdata⟩ := ite_none_right_eq_some.mp hstep
    simp only [onData] at hdata
    cases hup : s.upstreamConnection with
    | none => simp [hup] at hdata
    | some state =>
      simp only [hup, ite_none_left_eq_some, some_inj] at hdata
      obtain ⟨-, rfl⟩ := hdata
      exact ⟨⟨h.once, h.early, h.alive, fun hclosed => hup ▸ h.closed hclosed⟩, h.armed⟩
  | upstreamConnected => exact h.connected hintime hstep
  | upstreamClosed answer => exact h.failed hintime hstep
  | connectTimeout answer => exact h.timedOut hintime hstep
  | streamEnds closes =>
    obtain ⟨-, rfl⟩ := ite_some_none_eq_some.mp hstep
    refine ⟨⟨h.once, h.early, h.alive, fun hclosed => h.closed ?_⟩, h.armed⟩
    cases closes with
    | true => exact closed_closeFlushWrite hclosed
    | false => exact hclosed
  | downstreamCloses =>
    obtain ⟨-, rfl⟩ := ite_some_none_eq_some.mp hstep
    exact ⟨⟨h.once, h.early, h.alive, nofun⟩, h.armed⟩
  | downstreamClosed =>
    obtain ⟨-, hs'⟩ := ite_none_left_eq_some.mp hstep
    cases hs'
    simp only [onDownstreamEvent]
    split
    · exact ⟨⟨h.once, h.early, h.alive, fun _ => .inr rfl⟩, nofun⟩
    · next hidle =>
      refine ⟨⟨h.once, h.early, h.alive, fun _ => ?_⟩, h.armed⟩
      cases hup : s.upstreamConnection with
      | none => exact .inl rfl
      | some state =>
        cases state with
        | connecting => exact absurd (.inl hup) hidle
        | connected => exact absurd (.inr hup) hidle
        | closed => exact .inr rfl

theorem undecided_upgrade (hupgrade : upgrade server c m route cluster answer read = some s) :
    s.Undecided := by
  rw [upgrade] at hupgrade
  split at hupgrade
  · cases hupgrade
    let s₀ := read.handler (mutateRequestHeaders c m)
    have hs₀ : s₀.AnswersOnce := ⟨Nat.zero_le 1, rfl, rfl, nofun⟩
    cases cluster with
    | unknown | overflow | noHost =>
      refine ⟨answersOnce_response hs₀ rfl rfl rfl 503 answer, fun harmed => ?_⟩
      have htimer := timer_response s₀ 503 answer
      rw [initializeUpstreamConnection, onInitFailure, htimer] at harmed
      cases harmed
    | host hostname => exact ⟨⟨Nat.zero_le 1, rfl, rfl, nofun⟩, fun _ => ⟨rfl, rfl⟩⟩
  · cases hupgrade

/-- The handler answers once at most, and uses its stream while it is there. -/
theorem answers_once {server : Server} {c : Context} {m : HeaderMap} {route : RouteEntry}
    {cluster : Cluster} {read : SameRead} {s₀ : WsHandlerImpl}
    (hupgrade : upgrade server c m route cluster answer read = some s₀) {es : List Event}
    (hintime : AllMeet WsHandlerImpl.step InTime s₀ es)
    (hrun : run WsHandlerImpl.step s₀ es = some s) : s.AnswersOnce :=
  (run_invariant (fun _ _ _ h hintime hstep => h.step hintime hstep) hintime
    (undecided_upgrade hupgrade) hrun).toAnswersOnce

end WsHandlerImpl

def sampleContext : Context where
  protocol := .http11
  connection := ⟨.ip (.v4 ⟨8, 8, 8, 8⟩), none⟩
  config :=
    { useRemoteAddress := false
      localAddress := .ip (.v4 ⟨10, 0, 0, 1⟩)
      userAgent := none
      generateRequestId := false
      tracingConfig := none
      forwardClientCert := .sanitize
      setCurrentClientCertDetails := [] }
  internalOnlyHeaders := []
  uuid := []
  runtime := ⟨false, fun _ => false, fun _ => true⟩
  nodeName := []
  errno := false

def sampleRequest : HeaderMap :=
  [(InlineHeader.method, ascii "GET"), (.path, ascii "/"), (.host, ascii "a"),
    (.connection, ascii "Upgrade"), (.upgrade, ascii "websocket")].foldl
      (fun m header => m.maybeCreateInline header.1 ⟨.inline, header.2⟩) .new

def sampleRoute : RouteEntry := ⟨id, true⟩

def sampleForwarded : HeaderMap :=
  WsHandlerImpl.upgradeRequest sampleRoute (.host (ascii "u"))
    (mutateRequestHeaders sampleContext sampleRequest)

def sampleUpgrade : Option WsHandlerImpl :=
  upgrade ⟨fun _ => some ⟨true, none⟩, false, []⟩ sampleContext sampleRequest sampleRoute
    (.host (ascii "u")) .stopped ⟨[], ascii "x"⟩

def patientClient : List Event :=
  [.upstreamConnected, .data (ascii "yz"), .upstreamClosed .stopped, .downstreamClosed]

theorem patientClient_request_first :
    ∃ s₀ s, sampleUpgrade = some s₀ ∧ run WsHandlerImpl.step s₀ patientClient = some s ∧
      s.RequestFirst sampleForwarded (ascii "x") := by
  have hrun : (sampleUpgrade.bind fun s₀ => run WsHandlerImpl.step s₀ patientClient).isSome = true := by
    decide +kernel
  have hwaits : ∀ s₀ ∈ sampleUpgrade,
      AllMeet WsHandlerImpl.step WsHandlerImpl.ClientWaits s₀ patientClient := by
    decide +kernel
  obtain ⟨s, hs⟩ := isSome_iff_exists.mp hrun
  obtain ⟨s₀, hupgrade, hs⟩ := bind_eq_some_iff.mp hs
  exact ⟨s₀, s, hupgrade, hs, WsHandlerImpl.request_first hupgrade rfl (hwaits s₀ hupgrade) hs⟩

/-- A client that does not wait puts its bytes in front of the request. -/
theorem hastyClient_not_request_first : ∃ s₀ s, sampleUpgrade = some s₀ ∧
      run WsHandlerImpl.step s₀ [.data (ascii "yz"), .upstreamConnected] = some s ∧
        ¬s.RequestFirst sampleForwarded (ascii "x") := by
  have hrun : (sampleUpgrade.bind fun s₀ => (run WsHandlerImpl.step s₀
      [.data (ascii "yz"), .upstreamConnected]).map fun s => (s.succeeded, s.written.take 4)) =
        some (true, ascii "xyzG") := by
    decide +kernel
  have hrequest : ∀ encoder ∈ RequestStreamEncoderImpl.create.encodeHeaders sampleForwarded false,
      encoder.stream.output.head? = some 71 := by
    decide +kernel
  obtain ⟨s₀, hupgrade, hs₀⟩ := bind_eq_some_iff.mp hrun
  obtain ⟨s, hs, hstate⟩ := map_eq_some_iff.mp hs₀
  obtain ⟨hsucceeded, hwritten⟩ := Prod.mk.inj hstate
  refine ⟨s₀, s, hupgrade, hs, fun hfirst => ?_⟩
  obtain ⟨encoder, forwarded, hencoder, hbytes, -⟩ := hfirst.first hsucceeded
  obtain ⟨tail, htail⟩ := List.head?_eq_some_iff.mp (hrequest encoder hencoder)
  rw [hbytes, htail, List.cons_append, List.take_succ_cons] at hwritten
  cases (List.cons.inj hwritten).1

/-- The connect timeout is answered, and the client closes the connection. -/
theorem timeout_answers_once : ∃ s₀ s, sampleUpgrade = some s₀ ∧
      run WsHandlerImpl.step s₀ [.connectTimeout (.passes true), .downstreamClosed] = some s ∧
        s.AnswersOnce := by
  have hrun : (sampleUpgrade.bind fun s₀ => run WsHandlerImpl.step s₀
      [.connectTimeout (.passes true), .downstreamClosed]).isSome = true := by
    decide +kernel
  have hintime : ∀ s₀ ∈ sampleUpgrade, AllMeet WsHandlerImpl.step WsHandlerImpl.InTime s₀
      [.connectTimeout (.passes true), .downstreamClosed] := by
    decide +kernel
  obtain ⟨s, hs⟩ := isSome_iff_exists.mp hrun
  obtain ⟨s₀, hupgrade, hs⟩ := bind_eq_some_iff.mp hs
  exact ⟨s₀, s, hupgrade, hs, WsHandlerImpl.answers_once hupgrade (hintime s₀ hupgrade) hs⟩

/-- The connection succeeds behind its timeout, when the stream is gone. -/
theorem lateConnection_not_once : ∃ s₀ s, sampleUpgrade = some s₀ ∧
      run WsHandlerImpl.step s₀ [.connectTimeout (.passes false), .upstreamConnected] = some s ∧
        ¬s.AnswersOnce := by
  have hrun : (sampleUpgrade.bind fun s₀ => (run WsHandlerImpl.step s₀
      [.connectTimeout (.passes false), .upstreamConnected]).map WsHandlerImpl.deadUse) =
        some true := by
    decide +kernel
  obtain ⟨s₀, hupgrade, hs₀⟩ := bind_eq_some_iff.mp hrun
  obtain ⟨s, hs, hdead⟩ := map_eq_some_iff.mp hs₀
  refine ⟨s₀, s, hupgrade, hs, fun honce => ?_⟩
  rw [honce.alive] at hdead
  cases hdead

end Meliproxy.Envoy.Http.WebSocket
