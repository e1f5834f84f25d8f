import Meliproxy.Envoy.Network.Connection
import Meliproxy.Lib.Runs

/-!
# The HTTP/1 connection pool

`Http1::ConnPoolImpl`. The clients and the requests are numbered in the order of their
creation, and the lists of the pool hold these numbers, the front of a list first. Which list
a client is in is not recorded: `lose` infers it from the stream wrapper and the connect
timer, and `removeFromList` asserts that it is there. The handlers are recursive on the depth
of their calls, and answer `none` where an assertion fails.

`made` counts the requests the pool was asked for, and `outcomes` is the history of the
requests: the callbacks they had, and their cancellations, which `step` writes.
-/

namespace Meliproxy.Envoy.Http.Http1

open Lib

inductive Outcome where
  | onPoolReady
  | onPoolFailure
  | cancel
  deriving DecidableEq

structure StreamWrapper where
  encodeComplete : Bool
  sawCloseHeader : Bool

structure ActiveClient where
  streamWrapper : Option StreamWrapper
  connectTimer : Bool
  remainingRequests : Nat
  closed : Bool
  remoteClosed : Bool

namespace ActiveClient

/-- `stream_wrapper_.reset()`. -/
def release (c : ActiveClient) : ActiveClient := { c with streamWrapper := none }

def attach (c : ActiveClient) : ActiveClient := { c with streamWrapper := some ⟨false, false⟩ }

def disconnect (event : ConnectionEvent) (c : ActiveClient) : ActiveClient :=
  { c with closed := true, remoteClosed := decide (event = .remoteClose) }

def stopConnectTimer (c : ActiveClient) : ActiveClient := { c with connectTimer := false }

def useRequest (c : ActiveClient) : ActiveClient :=
  { c with remainingRequests := c.remainingRequests - 1 }

end ActiveClient

structure ConnPoolImpl where
  maxRequestsPerConnection : Nat
  clients : Nat → ActiveClient
  created : Nat
  readyClients : List Nat
  busyClients : List Nat
  deferredDelete : List Nat
  pendingRequests : List Nat
  drainedCallbacks : Nat
  drained : Nat
  pendingResource : Nat
  connections : Nat
  made : Nat
  outcomes : List (Nat × Outcome)

namespace ConnPoolImpl

variable (s : ConnPoolImpl)

def newClient : ActiveClient where
  streamWrapper := none
  connectTimer := true
  remainingRequests := s.maxRequestsPerConnection
  closed := false
  remoteClosed := false

def create (maxRequestsPerConnection : Nat) : ConnPoolImpl where
  maxRequestsPerConnection := maxRequestsPerConnection
  clients := fun _ => ⟨none, true, 0, false, false⟩
  created := 0
  readyClients := []
  busyClients := []
  deferredDelete := []
  pendingRequests := []
  drainedCallbacks := 0
  drained := 0
  pendingResource := 0
  connections := 0
  made := 0
  outcomes := []

def modify (id : Nat) (f : ActiveClient → ActiveClient) : ConnPoolImpl :=
  { s with clients := Function.update s.clients id (f (s.clients id)) }

def removeFromList (list : List Nat) (id : Nat) : Option (List Nat) :=
  if id ∈ list then some (list.erase id) else none

/-- `PendingRequest::~PendingRequest`, where the resource asserts that it is in use. -/
def decPending : Option ConnPoolImpl :=
  if s.pendingResource = 0 then none else some { s with pendingResource := s.pendingResource - 1 }

def record (request : Nat) (outcome : Outcome) : ConnPoolImpl :=
  { s with outcomes := s.outcomes ++ [(request, outcome)] }

def attachRequestToClient (id request : Nat) : Option ConnPoolImpl :=
  if (s.clients id).streamWrapper.isSome then none
  else
    some ((s.modify id .attach).record request .onPoolReady)

def createNewConnection : ConnPoolImpl :=
  { s with
    clients := Function.update s.clients s.created s.newClient
    created := s.created + 1
    busyClients := s.created :: s.busyClients
    connections := s.connections + 1 }

/-- `canCreatePending` and `canCreateConnection` are what the resource manager answers. -/
def newStream (request : Nat) (canCreatePending canCreateConnection : Bool) : Option ConnPoolImpl :=
  match s.readyClients with
  | id :: rest =>
    attachRequestToClient
      { s with readyClients := rest, busyClients := id :: s.busyClients } id request
  | [] =>
    if canCreatePending then
      let s := if s.readyClients = [] ∧ s.busyClients = [] ∨ canCreateConnection = true then
        s.createNewConnection else s
      some { s with
        pendingRequests := request :: s.pendingRequests
        pendingResource := s.pendingResource + 1 }
    else some (s.record request .onPoolFailure)

def failRequest (request : Nat) : Option ConnPoolImpl :=
  (s.record request .onPoolFailure).decPending

def purge : List Nat → ConnPoolImpl → Option ConnPoolImpl
  | [], s => some s
  | request :: rest, s => (s.failRequest request).bind (purge rest)

/-- The client leaves its list, and a connect failure purges the pending requests. The flag
is `check_for_drained`. -/
def lose (id : Nat) : Option (ConnPoolImpl × Bool) :=
  if (s.clients id).streamWrapper.isSome then
    (removeFromList s.busyClients id).map fun list => ({ s with busyClients := list }, true)
  else if (s.clients id).connectTimer = false then
    (removeFromList s.readyClients id).map fun list => ({ s with readyClients := list }, false)
  else
    (removeFromList s.busyClients id).bind fun list =>
      (purge s.pendingRequests { s with busyClients := list, pendingRequests := [] }).map fun s =>
        (s, true)

/-- The client goes to the deferred deletions, and a new one is made when there are more
requests than clients. -/
def replace (id : Nat) : ConnPoolImpl :=
  let s := { s with deferredDelete := id :: s.deferredDelete }
  if s.readyClients.length + s.busyClients.length < s.pendingRequests.length then
    s.createNewConnection
  else s

def disableConnectTimer (id : Nat) : ConnPoolImpl :=
  s.modify id .stopConnectTimer

def iterate (f : ConnPoolImpl → Option ConnPoolImpl) : Nat → ConnPoolImpl → Option ConnPoolImpl
  | 0, s => some s
  | n + 1, s => (f s).bind (iterate f n)

mutual

/-- The connection is closed, unless it is already. The codec resets or completes the stream
of the client, which closes the connection once more. -/
def close : Nat → ConnPoolImpl → Nat → ConnectionEvent → Option ConnPoolImpl
  | 0, _, _, _ => none
  | depth + 1, s, id, event =>
    if (s.clients id).closed then some s
    else
      let s := s.modify id (.disconnect event)
      (if (s.clients id).streamWrapper.isSome then close depth s id .localClose else some s).bind
        fun s => onDisconnect depth s id

def onDisconnect : Nat → ConnPoolImpl → Nat → Option ConnPoolImpl
  | 0, _, _ => none
  | depth + 1, s, id =>
    (s.lose id).bind fun lost =>
      (if lost.2 then checkForDrained depth (lost.1.replace id)
        else some (lost.1.replace id)).map fun s => s.disableConnectTimer id

def checkForDrained : Nat → ConnPoolImpl → Option ConnPoolImpl
  | 0, _ => none
  | depth + 1, s =>
    if 0 < s.drainedCallbacks ∧ s.pendingRequests = [] ∧ s.busyClients = [] then
      (iterate (fun s => close depth s (s.readyClients.headD 0) .localClose)
        s.readyClients.length s).map fun s => { s with drained := s.drained + 1 }
    else some s

end

variable (depth : Nat)

def onDownstreamReset (s : ConnPoolImpl) (id : Nat) : Option ConnPoolImpl :=
  close depth s id .localClose

/-- The idle client takes the oldest request, which is at the back, or becomes ready. -/
def serve (id : Nat) : Option ConnPoolImpl :=
  match s.pendingRequests.getLast? with
  | none =>
    (removeFromList s.busyClients id).map fun list =>
      { s with busyClients := list, readyClients := id :: s.readyClients }
  | some request =>
    (s.attachRequestToClient id request).bind fun s =>
      { s with pendingRequests := s.pendingRequests.dropLast }.decPending

def processIdleClient (s : ConnPoolImpl) (id : Nat) : Option ConnPoolImpl :=
  ((s.modify id .release).serve id).bind (checkForDrained depth)

def onConnected (s : ConnPoolImpl) (id : Nat) : Option ConnPoolImpl :=
  (s.disableConnectTimer id).processIdleClient depth id

def onResponseComplete (s : ConnPoolImpl) (id : Nat) : Option ConnPoolImpl :=
  match (s.clients id).streamWrapper with
  | none => none
  | some wrapper =>
    if wrapper.encodeComplete = false then s.onDownstreamReset depth id
    else if wrapper.sawCloseHeader = true ∨ (s.clients id).remoteClosed = true then
      s.onDownstreamReset depth id
    else
      let remaining := (s.clients id).remainingRequests
      let s := s.modify id .useRequest
      if remaining = 1 then s.onDownstreamReset depth id else s.processIdleClient depth id

def onPendingRequestCancel (s : ConnPoolImpl) (request : Nat) : Option ConnPoolImpl :=
  (removeFromList s.pendingRequests request).bind fun list =>
    { s with pendingRequests := list }.decPending.bind (checkForDrained depth)

def addDrainedCallback (s : ConnPoolImpl) : Option ConnPoolImpl :=
  checkForDrained depth { s with drainedCallbacks := s.drainedCallbacks + 1 }

/-- The dispatcher deletes the clients, each of which gives its connection back. -/
def clearDeferredDeleteList : ConnPoolImpl :=
  { s with connections := s.connections - s.deferredDelete.length, deferredDelete := [] }

end ConnPoolImpl

inductive PoolEvent where
  | newStream (canCreatePending canCreateConnection : Bool)
  | cancel (request : Nat)
  | connected (id : Nat)
  | connectTimeout (id : Nat)
  | close (id : Nat) (event : ConnectionEvent)
  | encodeComplete (id : Nat)
  | closeHeader (id : Nat)
  | responseComplete (id : Nat)
  | streamReset (id : Nat)
  | addDrainedCallback
  | clearDeferredDeleteList

namespace ConnPoolImpl

/-- What can happen: a request is cancelled while it is pending, and a connection has events
while it is open, with a stream of it while a stream is attached. -/
def Possible (s : ConnPoolImpl) : PoolEvent → Prop
  | .newStream _ _ => True
  | .cancel request => request ∈ s.pendingRequests
  | .connected id =>
    id < s.created ∧ (s.clients id).closed = false ∧ (s.clients id).connectTimer = true
  | .connectTimeout id =>
    id < s.created ∧ (s.clients id).closed = false ∧ (s.clients id).connectTimer = true
  | .close id event => id < s.created ∧ (s.clients id).closed = false ∧ event ≠ .connected
  | .encodeComplete id =>
    id < s.created ∧ (s.clients id).closed = false ∧ (s.clients id).streamWrapper.isSome = true
  | .closeHeader id =>
    id < s.created ∧ (s.clients id).closed = false ∧ (s.clients id).streamWrapper.isSome = true
  | .responseComplete id =>
    id < s.created ∧ (s.clients id).closed = false ∧ (s.clients id).streamWrapper.isSome = true
  | .streamReset id =>
    id < s.created ∧ (s.clients id).closed = false ∧ (s.clients id).streamWrapper.isSome = true
  | .addDrainedCallback => True
  | .clearDeferredDeleteList => True

instance decidablePossible (s : ConnPoolImpl) : (e : PoolEvent) → Decidable (s.Possible e) := by
  intro e
  cases e <;> dsimp only [Possible] <;> infer_instance

def depth : Nat := 6

/-- A caller asks for a stream with a request of its own. -/
def asks (s : ConnPoolImpl) (canCreatePending canCreateConnection : Bool) : Option ConnPoolImpl :=
  { s with made := s.made + 1 }.newStream s.made canCreatePending canCreateConnection

def cancels (s : ConnPoolImpl) (request : Nat) : Option ConnPoolImpl :=
  (s.record request .cancel).onPendingRequestCancel depth request

def step (s : ConnPoolImpl) : PoolEvent → Option ConnPoolImpl
  | .newStream canCreatePending canCreateConnection => s.asks canCreatePending canCreateConnection
  | .cancel request => s.cancels request
  | .connected id => s.onConnected depth id
  | .connectTimeout id => close depth s id .localClose
  | .close id event => close depth s id event
  | .encodeComplete id => some <| s.modify id fun c =>
      { c with streamWrapper := c.streamWrapper.map fun w => { w with encodeComplete := true } }
  | .closeHeader id => some <| s.modify id fun c =>
      { c with streamWrapper := c.streamWrapper.map fun w => { w with sawCloseHeader := true } }
  | .responseComplete id => s.onResponseComplete depth id
  | .streamReset id => s.onDownstreamReset depth id
  | .addDrainedCallback => s.addDrainedCallback depth
  | .clearDeferredDeleteList => some s.clearDeferredDeleteList

end ConnPoolImpl

end Meliproxy.Envoy.Http.Http1
