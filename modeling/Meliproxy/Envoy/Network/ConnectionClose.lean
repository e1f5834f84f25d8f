import Meliproxy.Envoy.Network.Connection
import Meliproxy.Envoy.Network.ConnectionImpl
import Meliproxy.Lib.Runs

/-!
# Writing to and closing a connection

`network/connection_impl.cc`. What the kernel answers and when the socket gets ready is free. A
file event is edge-triggered: it reports a socket once when it gets ready, and again when its
events are set. A callback may call the connection at any time, so what is left to do of the calls
under way is kept on a stack.
-/

namespace Meliproxy.Envoy

def ConnectionEvent.closes : ConnectionEvent → Bool
  | .connected => false
  | _ => true

namespace Network

open Lib

/-- `Network::ConnectionCloseType`. -/
inductive ConnectionCloseType where
  | flushWrite
  | noFlush

/-- `Connection::State`. -/
inductive State where
  | open
  | closing
  | closed
  deriving DecidableEq

/-- `Network::FilterStatus`. -/
inductive FilterStatus where
  | continue
  | stopIteration
  deriving DecidableEq

inductive PostIoAction where
  | close
  | keepOpen
  deriving DecidableEq

/-- `Event::FileReadyType`. -/
structure FileReadyType where
  read : Bool
  write : Bool
  closed : Bool

/-- What the kernel answers to a `write`, and how a `doReadFromSocket` ends. -/
inductive IoAnswer where
  | wrote (n : Nat)
  | eagain
  | error
  | read (action : PostIoAction)

/-- What is left to do of a call: of `raiseEvent` from a callback on, of `onWriteReady` after
`onConnected`, of `doWriteToSocket` and then of the `close` or the `onWriteReady` that it is for, of
`onFileEvent` after `onWriteReady`, of `onReadReady` after `onRead`, and of `write` after the data
was moved. -/
inductive Frame where
  | raiseEvent (event : ConnectionEvent) (callback : Nat)
  | connected
  | doWriteToSocket (closing : Bool)
  | readReady
  | onRead (action : PostIoAction)
  | activate

def Frame.tellsConnected (callbacks : Nat) : Frame → Bool
  | .raiseEvent .connected callback => callback < callbacks
  | _ => false

/-- `fd` says whether the descriptor is there, `ready` whether the socket is ready to be written
to, `pending` whether the file event is going to report that. The history is in `eagain` (the last
write attempt was answered that way), `written` and `given` (the bytes for the connection, and those
that the kernel took), `flushed` (what was written before a `close` that flushes), `noFlush` (there
was a `close` that does not), `raised` and `seen` (the events, and the callbacks that got them). -/
structure Connection where
  fd : Bool
  connecting : Bool
  closeWithFlush : Bool
  immediateConnectionError : Bool
  bindError : Bool
  readSide : ConnectionImpl
  writeBuffer : Bytes
  callbacks : Nat
  frames : List Frame
  ready : Bool
  pending : Bool
  eagain : Bool
  written : Bytes
  given : Bytes
  flushed : Option Bytes
  noFlush : Bool
  raised : List ConnectionEvent
  seen : List (Nat × ConnectionEvent)

namespace Connection

def accepted : Connection where
  fd := true
  connecting := false
  closeWithFlush := false
  immediateConnectionError := false
  bindError := false
  readSide := .create
  writeBuffer := []
  callbacks := 0
  frames := []
  ready := true
  pending := true
  eagain := false
  written := []
  given := []
  flushed := none
  noFlush := false
  raised := []
  seen := []

/-- A `ClientConnectionImpl`, whose source address may be one that it cannot bind to. -/
def client (bindError : Bool) : Connection :=
  { accepted with
    connecting := true
    bindError := bindError
    ready := false
    pending := bindError }

variable (c : Connection)

def state : State :=
  if c.fd then if c.closeWithFlush then .closing else .open else .closed

def push (frame : Frame) : Connection :=
  { c with frames := frame :: c.frames }

/-- `setEnabled` of the file event. That an event was activated is forgotten. -/
def setEnabled : Connection :=
  { c with pending := c.ready }

def raiseEvent (c : Connection) (event : ConnectionEvent) : Connection :=
  ({ c with raised := c.raised ++ [event] } : Connection).push (.raiseEvent event 0)

def closeSocket (closeType : ConnectionEvent) : Connection :=
  if c.fd then ({ c with fd := false, pending := false } : Connection).raiseEvent closeType else c

def requested : ConnectionCloseType → Connection
  | .flushWrite => { c with flushed := some c.written }
  | .noFlush => { c with noFlush := true }

def close (type : ConnectionCloseType) : Connection :=
  if !c.fd then c
  else if c.writeBuffer = [] then (c.requested type).closeSocket .localClose
  else
    match type with
    | .noFlush => (c.requested type).push (.doWriteToSocket true)
    | .flushWrite =>
      ({ c.requested type with
        closeWithFlush := true
        readSide := c.readSide.stopReading } : Connection).setEnabled

/-- The assertion fails for a connection that is not open. The events are set when reads get
enabled or disabled. -/
def readDisable (c : Connection) (disable : Bool) : Option Connection :=
  if c.state = .open then
    (c.readSide.readDisable disable).map fun readSide =>
      if readSide.readEnabled = c.readSide.readEnabled then { c with readSide := readSide }
      else ({ c with readSide := readSide } : Connection).setEnabled
  else none

def write (data : Bytes) (status : FilterStatus) : Connection :=
  if status = .stopIteration then c
  else if data = [] then c
  else
    ({ c with
      writeBuffer := c.writeBuffer ++ data
      written := c.written ++ data } : Connection).push .activate

/-- The end of `write`. The file event of a closed connection is gone. -/
def activate : Option Connection :=
  if c.connecting then some c
  else if c.fd then some { c with pending := true }
  else none

/-- With `started`, the connect is done or in progress. -/
def doConnect (started : Bool) : Option Connection :=
  if c.connecting && c.fd then
    if started then some c
    else
      some { c with
        immediateConnectionError := true
        connecting := false
        ready := true
        pending := true }
  else none

def doneWriting (closing : Bool) (action : PostIoAction) : Connection :=
  if closing then c.closeSocket .localClose
  else if action = .close then c.closeSocket .remoteClose
  else if c.closeWithFlush && c.writeBuffer.isEmpty then c.closeSocket .localClose
  else c

/-- One turn of the loop. A socket that is not ready takes nothing, and one with an error counts as
ready. A `write` to a closed descriptor is an error. -/
def doWriteToSocket (c : Connection) (closing : Bool) (answer : IoAnswer) : Option Connection :=
  if c.writeBuffer = [] then some (c.doneWriting closing .keepOpen)
  else
    match answer with
    | .wrote n =>
      if c.fd && c.ready && n ≤ c.writeBuffer.length then
        some (({ c with
          writeBuffer := c.writeBuffer.drop n
          given := c.given ++ c.writeBuffer.take n
          eagain := false } : Connection).push (.doWriteToSocket closing))
      else none
    | .eagain =>
      if c.fd then
        some (({ c with ready := false, eagain := true } : Connection).doneWriting closing .keepOpen)
      else none
    | .error =>
      some (({ c with ready := true, eagain := false } : Connection).doneWriting closing .close)
    | .read _ => none

/-- `error` is the one of the connect. -/
def onWriteReady (error : Bool) : Connection :=
  if c.connecting then
    if error then c.closeSocket .remoteClose
    else (({ c with connecting := false } : Connection).push .connected).raiseEvent .connected
  else c.push (.doWriteToSocket false)

def onReadReady (answer : IoAnswer) : Option Connection :=
  match c.connecting, answer with
  | false, .read action => some (c.push (.onRead action))
  | _, _ => none

def onFileEvent (events : FileReadyType) (error : Bool) : Option Connection :=
  if c.immediateConnectionError then some (c.closeSocket .remoteClose)
  else if c.bindError then some (c.closeSocket .localClose)
  else if events.closed then if events.read then none else some (c.closeSocket .remoteClose)
  else
    let c := if events.read then c.push .readReady else c
    some (if events.write then c.onWriteReady error else c)

/-- The rest of the call with the frame. Only a frame that is at the socket looks at the answer. -/
def resume (answer : IoAnswer) : Frame → Option Connection
  | .raiseEvent event callback =>
    if callback < c.callbacks then
      some (({ c with seen := c.seen ++ [(callback, event)] } : Connection).push
        (.raiseEvent event (callback + 1)))
    else some c
  | .connected => some (if c.state = .open then c.push (.doWriteToSocket false) else c)
  | .doWriteToSocket closing => c.doWriteToSocket closing answer
  | .readReady => if c.fd then c.onReadReady answer else some c
  | .onRead action => some (if action = .close then c.closeSocket .remoteClose else c)
  | .activate => c.activate

inductive Event where
  | write (data : Bytes) (status : FilterStatus)
  | close (type : ConnectionCloseType)
  | readDisable (disable : Bool)
  | addConnectionCallbacks
  | doConnect (started : Bool)
  | edge
  | fileEvent (events : FileReadyType) (error : Bool)
  | resume (answer : IoAnswer)

/-- The calls may come from any callback. The kernel reports a socket as ready to be written to when
it is, or when that is pending. -/
def step : Event → Option Connection
  | .write data status => some (c.write data status)
  | .close type => some (c.close type)
  | .readDisable disable => c.readDisable disable
  | .addConnectionCallbacks => some { c with callbacks := c.callbacks + 1 }
  | .doConnect started => c.doConnect started
  | .edge => if c.fd then some { c with ready := true, pending := true } else none
  | .fileEvent events error =>
    if c.fd && c.frames.isEmpty && (!events.write || c.ready || c.pending) then
      ({ c with pending := c.pending && !events.write } : Connection).onFileEvent events error
    else none
  | .resume answer =>
    match c.frames with
    | [] => none
    | frame :: frames => ({ c with frames := frames } : Connection).resume answer frame

def seenBy (callback : Nat) : List ConnectionEvent :=
  (c.seen.filter fun entry => entry.1 = callback).map Prod.snd

end Connection

def Ended (events : List ConnectionEvent) : Prop :=
  ∀ event ∈ events.dropLast, event.closes = false

namespace Connection

/-- What the owner of a connection relies on. -/
structure Closes (c : Connection) : Prop where
  sent : c.given <+: c.written
  raises : Ended c.raised ∧ (c.state = .closed ↔ ∃ event ∈ c.raised, event.closes = true)
  seen : ∀ callback, Ended (c.seenBy callback)
  flushed : .localClose ∈ c.raised → c.noFlush = false → ∀ data ∈ c.flushed, data <+: c.given
  notStranded : c.frames = [] → c.state = .closing → c.writeBuffer ≠ [] →
    c.connecting = true ∨ c.pending = true ∨ c.eagain = true

def connects (c : Connection) (events : FileReadyType) (error : Bool) : Bool :=
  c.connecting && events.write && !error && !events.closed && !c.immediateConnectionError &&
    !c.bindError

/-- While the connection closes with a flush, no connect completes and no bind error is reported.
No callback is left to hear of the connect when the connection was closed. -/
def Regular (c : Connection) : Event → Prop
  | .fileEvent events error =>
    c.closeWithFlush = true → c.connects events error = false ∧
      (c.bindError = true → c.immediateConnectionError = true)
  | .resume _ =>
    c.fd = false → ∀ frame ∈ c.frames.head?, frame.tellsConnected c.callbacks = false
  | _ => True

instance (c : Connection) : (event : Event) → Decidable (c.Regular event) := by
  intro e
  cases e <;> dsimp only [Regular] <;> infer_instance

end Connection

end Network

end Meliproxy.Envoy
