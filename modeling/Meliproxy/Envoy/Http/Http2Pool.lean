import Meliproxy.Envoy.Network.Connection
import Meliproxy.Lib.Runs

/-!
# The HTTP/2 connection pool

`Http2::ConnPoolImpl` with the part of `CodecClient` that it drives. The clients are numbered
in the order of their creation, and `primaryClient` and `drainingClient` are the pointers of
the pool into them. A handler calls back into the pool: closing a connection resets its
streams, every reset destroys a stream, and both may look for a drained pool and close
another connection. The handlers are recursive on the depth of these calls, and answer
`none` where an assertion of the source fails, a null pointer is dereferenced or the calls
go deeper than that.

`drained` is the history of the drained callbacks: the number of active streams at each run.
-/

namespace Meliproxy.Envoy.Http.Http2

open Lib

structure ActiveClient where
  activeRequests : Nat
  totalStreams : Nat
  connected : Bool
  connectTimer : Bool
  closed : Bool
  closedWithActiveRq : Bool
  deriving DecidableEq

def ActiveClient.create : ActiveClient where
  activeRequests := 0
  totalStreams := 0
  connected := false
  connectTimer := true
  closed := false
  closedWithActiveRq := false

structure ConnPoolImpl where
  maxRequestsPerConnection : Nat
  clients : Nat → ActiveClient
  created : Nat
  primaryClient : Option Nat
  drainingClient : Option Nat
  drainedCallbacks : Nat
  requests : Nat
  drained : List Nat

namespace ConnPoolImpl

def create (maxRequestsPerConnection : Nat) : ConnPoolImpl where
  maxRequestsPerConnection := maxRequestsPerConnection
  clients := fun _ => .create
  created := 0
  primaryClient := none
  drainingClient := none
  drainedCallbacks := 0
  requests := 0
  drained := []

variable (s : ConnPoolImpl)

def modify (id : Nat) (f : ActiveClient → ActiveClient) : ConnPoolImpl :=
  { s with clients := Function.update s.clients id (f (s.clients id)) }

def activeStreams : Nat := ∑ id ∈ Finset.range s.created,
  (s.clients id).activeRequests

def maxTotalStreams : Nat := 1 <<< 29

def maxStreams : Nat :=
  if s.maxRequestsPerConnection = 0 then maxTotalStreams else s.maxRequestsPerConnection

/-- `Resource::dec`, which asserts that there is something to give back. -/
def decRequests : Option ConnPoolImpl :=
  if s.requests = 0 then none else some { s with requests := s.requests - 1 }

def onStreamReset (id : Nat) (reason : StreamResetReason) : ConnPoolImpl :=
  if reason.disconnect then s.modify id fun c => { c with closedWithActiveRq := true } else s

def unlink (id : Nat) : ConnPoolImpl :=
  if s.primaryClient = some id then { s with primaryClient := none }
  else { s with drainingClient := none }

def iterate (f : ConnPoolImpl → Option ConnPoolImpl) : Nat → ConnPoolImpl → Option ConnPoolImpl
  | 0, s => some s
  | n + 1, s => (f s).bind (iterate f n)

mutual

/-- The connection is closed, unless it is already: `CodecClient::onEvent` resets the streams
that are left, then `onConnectionEvent` runs. No stream is added while they are reset. -/
def close : Nat → ConnPoolImpl → Nat → ConnectionEvent → Option ConnPoolImpl
  | 0, _, _, _ => none
  | depth + 1, s, id, event =>
    if (s.clients id).closed then some s
    else do
      let reason := if (s.clients id).connected then .connectionTermination
        else .connectionFailure
      let s := s.modify id fun c => { c with closed := true }
      let s ← iterate (fun s => onReset depth s id reason) (s.clients id).activeRequests s
      onConnectionEvent depth s id event

def onReset : Nat → ConnPoolImpl → Nat → StreamResetReason → Option ConnPoolImpl
  | 0, _, _, _ => none
  | depth + 1, s, id, reason => deleteRequest depth (s.onStreamReset id reason) id

def deleteRequest : Nat → ConnPoolImpl → Nat → Option ConnPoolImpl
  | 0, _, _ => none
  | depth + 1, s, id =>
    if (s.clients id).activeRequests = 0 then none
    else
      onStreamDestroy depth
        (s.modify id fun c => { c with activeRequests := c.activeRequests - 1 }) id

def onStreamDestroy : Nat → ConnPoolImpl → Nat → Option ConnPoolImpl
  | 0, _, _ => none
  | depth + 1, s, id => do
    let s ← s.decRequests
    let s ← if s.drainingClient = some id ∧ (s.clients id).activeRequests = 0 then
        close depth s id .localClose
      else some s
    if (s.clients id).closedWithActiveRq then some s else checkForDrained depth s

def onConnectionEvent : Nat → ConnPoolImpl → Nat → ConnectionEvent → Option ConnPoolImpl
  | 0, _, _, _ => none
  | depth + 1, s, id, event => do
    let s ← if event = .connected then some s
      else do
        let s := s.unlink id
        if (s.clients id).closedWithActiveRq then checkForDrained depth s else some s
    some (s.modify id fun c => { c with connectTimer := false })

def checkForDrained : Nat → ConnPoolImpl → Option ConnPoolImpl
  | 0, _ => none
  | depth + 1, s =>
    if s.drainedCallbacks = 0 then some s
    else do
      let (s, drained) ← match s.primaryClient with
        | none => some (s, true)
        | some id =>
          if (s.clients id).activeRequests = 0 then do
            let s ← close depth s id .localClose
            if s.primaryClient.isSome then none else some (s, true)
          else some (s, false)
      let drained ← match s.drainingClient with
        | none => some drained
        | some id => if (s.clients id).activeRequests = 0 then none else some false
      some (if drained then { s with drained := s.drained ++ [s.activeStreams] } else s)

end

variable (depth : Nat) (s : ConnPoolImpl)

def movePrimaryClientToDraining : Option ConnPoolImpl := do
  let s ← match s.drainingClient with
    | none => some s
    | some id => close depth s id .localClose
  if s.drainingClient.isSome then none
  else
    match s.primaryClient with
    | none => none
    | some id =>
      if (s.clients id).activeRequests = 0 then do
        let s ← close depth s id .localClose
        if s.primaryClient.isSome then none else some s
      else some { s with drainingClient := some id, primaryClient := none }

def addDrainedCallback : Option ConnPoolImpl :=
  checkForDrained depth { s with drainedCallbacks := s.drainedCallbacks + 1 }

/-- `primary_client_.reset(new ActiveClient(*this))`. -/
def newClient : ConnPoolImpl :=
  { s with
    clients := Function.update s.clients s.created .create
    created := s.created + 1
    primaryClient := some s.created }

def rollover : Option ConnPoolImpl :=
  match s.primaryClient with
  | none => some s
  | some id =>
    if s.maxStreams ≤ (s.clients id).totalStreams then s.movePrimaryClientToDraining depth
    else some s

def withPrimaryClient : ConnPoolImpl :=
  if s.primaryClient.isNone then s.newClient else s

/-- `canCreate` is what the resource manager answers for `requests`. -/
def startStream (canCreate : Bool) : Option ConnPoolImpl :=
  match s.primaryClient with
  | none => none
  | some id =>
    if canCreate then
      some { s.modify id fun c =>
          { c with totalStreams := c.totalStreams + 1, activeRequests := c.activeRequests + 1 } with
        requests := s.requests + 1 }
    else some s

def newStream (canCreate : Bool) : Option ConnPoolImpl :=
  (s.rollover depth).bind fun s => s.withPrimaryClient.startStream canCreate

def onConnected (id : Nat) : Option ConnPoolImpl :=
  onConnectionEvent depth (s.modify id fun c => { c with connected := true }) id .connected

def onGoAway (id : Nat) : Option ConnPoolImpl :=
  if s.primaryClient = some id then s.movePrimaryClientToDraining depth else some s

end ConnPoolImpl

inductive PoolEvent where
  | newStream (canCreate : Bool)
  | streamComplete (id : Nat)
  | streamReset (id : Nat) (reason : StreamResetReason)
  | goAway (id : Nat)
  | connected (id : Nat)
  | connectTimeout (id : Nat)
  | close (id : Nat) (event : ConnectionEvent)
  | addDrainedCallback

namespace ConnPoolImpl

/-- What can happen: streams are made while no drained callback is registered, and a
connection has events while it is open. A disconnect resets streams only within `close`. -/
def Possible (s : ConnPoolImpl) : PoolEvent → Prop
  | .newStream _ => s.drainedCallbacks = 0
  | .streamComplete id =>
    id < s.created ∧ (s.clients id).closed = false ∧ 0 < (s.clients id).activeRequests
  | .streamReset id reason =>
    id < s.created ∧ (s.clients id).closed = false ∧ 0 < (s.clients id).activeRequests ∧
      reason.disconnect = false
  | .goAway id => id < s.created ∧ (s.clients id).closed = false
  | .connected id =>
    id < s.created ∧ (s.clients id).closed = false ∧ (s.clients id).connected = false
  | .connectTimeout id =>
    id < s.created ∧ (s.clients id).closed = false ∧ (s.clients id).connectTimer = true
  | .close id event =>
    id < s.created ∧ (s.clients id).closed = false ∧ event ≠ .connected
  | .addDrainedCallback => True

instance decidablePossible (s : ConnPoolImpl) : (e : PoolEvent) → Decidable (s.Possible e) := by
  intro e
  cases e <;> dsimp only [Possible] <;> infer_instance

def depth : Nat := 9

def step (s : ConnPoolImpl) : PoolEvent → Option ConnPoolImpl
  | .newStream canCreate => s.newStream depth canCreate
  | .streamComplete id => deleteRequest depth s id
  | .streamReset id reason => onReset depth s id reason
  | .goAway id => s.onGoAway depth id
  | .connected id => s.onConnected depth id
  | .connectTimeout id => close depth s id .localClose
  | .close id event => close depth s id event
  | .addDrainedCallback => s.addDrainedCallback depth

end ConnPoolImpl

end Meliproxy.Envoy.Http.Http2
