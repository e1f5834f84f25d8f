import Meliproxy.Lib.Runs

/-!
# Hot restart

`server/hot_restart_impl.cc` with its callers in `server.cc` and `drain_manager_impl.cc`. A process
is known by its restart epoch, and has one datagram queue, which serves the replies of its parent and
the requests of its child. A blocking receive is `waiting` for the type of its reply. What the
replies carry is left out. `none` is a failed `RELEASE_ASSERT`.
-/

namespace Meliproxy.Envoy.Server.HotRestart

open Lib

inductive RpcMessageType where
  | drainListenersRequest
  | getListenSocketRequest
  | getListenSocketReply
  | shutdownAdminRequest
  | shutdownAdminReply
  | terminateRequest
  | unknownRequestReply
  | getStatsRequest
  | getStatsReply
  deriving DecidableEq

def RpcMessageType.length : RpcMessageType → Nat
  | .drainListenersRequest | .shutdownAdminRequest | .terminateRequest | .unknownRequestReply
  | .getStatsRequest => 12
  | .getListenSocketRequest => 12 + 256
  | .getListenSocketReply => 12 + 4
  | .shutdownAdminReply => 12 + 8
  | .getStatsReply => 12 + 8 + 8 + 16 * 8

/-- `adminRequested` since the startup has asked the parent to shut its admin down, `started` since
the workers have been started, `sigterm` for a pending signal, `exiting` after the event loop. -/
structure Process where
  queue : List RpcMessageType := []
  waiting : Option RpcMessageType := none
  adminRequested : Bool := false
  statFlushTimer : Bool := false
  started : Bool := false
  parentTerminated : Bool := false
  sigterm : Bool := false
  exiting : Bool := false
  exited : Bool := false

/-- The processes of the epochs below `epochs`, and what they share. -/
@[ext]
structure System where
  process : Nat → Process
  epochs : Nat
  initializing : Bool
  initLock : Option Nat

namespace System

def create : System where
  process _ := {}
  epochs := 0
  initializing := false
  initLock := none

variable (s : System) (epoch : Nat)

def setProcess (process : Process) : System :=
  { s with process := Function.update s.process epoch process }

def createDomainSocketAddress (id : Nat) : Nat := id % 3

def boundTo (address : Nat) : Option Nat :=
  (List.range s.epochs).find? fun epoch =>
    !(s.process epoch).exited && createDomainSocketAddress epoch = address

def sendMessage (address : Nat) (rpc : RpcMessageType) : Option System :=
  match s.boundTo address with
  | none => none
  | some epoch =>
    let process := s.process epoch
    some (s.setProcess epoch { process with queue := process.queue ++ [rpc] })

def parentAddress : Nat := createDomainSocketAddress (epoch - 1)

def childAddress : Nat := createDomainSocketAddress (epoch + 1)

def lock : System := { s with initLock := some epoch }

def unlock : System :=
  { s with initLock := if s.initLock = some epoch then none else s.initLock }

def receive (type : RpcMessageType) : System :=
  s.setProcess epoch { s.process epoch with waiting := some type }

/-- `SharedMemory::initialize` and the constructor. The next process is refused while another one
initializes, and if its address is taken. -/
def start : System :=
  if s.initializing then s
  else
    let s := { s with initializing := true }
    if (s.boundTo (createDomainSocketAddress s.epochs)).isSome then s
    else { s.setProcess s.epochs {} with epochs := s.epochs + 1 }

def drainParentListeners : Option System :=
  (if epoch > 0 then s.sendMessage (parentAddress epoch) .drainListenersRequest else some s).map
    fun s => { s with initializing := false }

def duplicateParentListenSocket : Option System :=
  if epoch = 0 || (s.process epoch).parentTerminated then some s
  else (s.sendMessage (parentAddress epoch) .getListenSocketRequest).map
    fun s => s.receive epoch .getListenSocketReply

def getParentStats : Option System :=
  if epoch = 0 || (s.process epoch).parentTerminated || s.initLock.isSome then some s
  else ((s.lock epoch).sendMessage (parentAddress epoch) .getStatsRequest).map
    fun s => s.receive epoch .getStatsReply

def shutdownParentAdmin : Option System :=
  if epoch = 0 then some (s.setProcess epoch { s.process epoch with adminRequested := true })
  else ((s.lock epoch).sendMessage (parentAddress epoch) .shutdownAdminRequest).map
    fun s => s.setProcess epoch
      { s.process epoch with adminRequested := true, waiting := some .shutdownAdminReply }

def terminateParent : Option System :=
  if epoch = 0 || (s.process epoch).parentTerminated then some s
  else (s.sendMessage (parentAddress epoch) .terminateRequest).map
    fun s => s.setProcess epoch { s.process epoch with parentTerminated := true }

def shutdownAdmin : Option System :=
  (s.setProcess epoch { s.process epoch with statFlushTimer := false }).terminateParent epoch

def startWorkers : Option System :=
  (s.drainParentListeners epoch).map
    fun s => s.setProcess epoch { s.process epoch with started := true }

/-- The end of a blocking receive. The lock is released with the function that holds it. -/
def receiveTypedRpc : Option System :=
  let process := s.process epoch
  match process.waiting, process.queue with
  | some type, message :: queue =>
    if message.length = type.length && message = type then
      some ((s.setProcess epoch { process with queue := queue, waiting := none }).unlock epoch)
    else none
  | _, _ => some s

def onSocketEvent : Option System :=
  match (s.process epoch).queue with
  | [] => some s
  | message :: queue =>
    let s := s.setProcess epoch { s.process epoch with queue := queue }
    match message with
    | .shutdownAdminRequest =>
      (s.shutdownAdmin epoch).bind fun s => s.sendMessage (childAddress epoch) .shutdownAdminReply
    | .getListenSocketRequest => s.sendMessage (childAddress epoch) .getListenSocketReply
    | .getStatsRequest => s.sendMessage (childAddress epoch) .getStatsReply
    | .drainListenersRequest => some s
    | .terminateRequest => some (s.setProcess epoch { s.process epoch with sigterm := true })
    | _ => s.sendMessage (childAddress epoch) .unknownRequestReply

/-- The signal ends the event loop. Stats are flushed once more if the timer is there. -/
def onSigterm : Option System :=
  (s.terminateParent epoch).bind fun s =>
    let s := s.setProcess epoch { s.process epoch with exiting := true }
    if (s.process epoch).statFlushTimer then s.getParentStats epoch else some s

def exit : System :=
  s.setProcess epoch { s.process epoch with exited := true, queue := [] }

inductive Event where
  | start
  | shutdownParentAdmin (epoch : Nat)
  | enableStatFlushTimer (epoch : Nat)
  | startWorkers (epoch : Nat)
  | duplicateParentListenSocket (epoch : Nat)
  | flushStats (epoch : Nat)
  | terminateParent (epoch : Nat)
  | receiveTypedRpc (epoch : Nat)
  | onSocketEvent (epoch : Nat)
  | onSigterm (epoch : Nat)
  | exit (epoch : Nat)

def Idle : Prop :=
  epoch < s.epochs ∧ (s.process epoch).exiting = false ∧ (s.process epoch).waiting = none

/-- When an event can happen. `shutdownParentAdmin` is the first thing a process does, and waits for
the lock. -/
def Enabled : Event → Prop
  | .start => True
  | .shutdownParentAdmin epoch =>
    s.Idle epoch ∧ (s.process epoch).adminRequested = false ∧ s.initLock = none
  | .enableStatFlushTimer epoch | .startWorkers epoch =>
    s.Idle epoch ∧ (s.process epoch).adminRequested = true ∧ (s.process epoch).started = false
  | .duplicateParentListenSocket epoch => s.Idle epoch ∧ (s.process epoch).adminRequested = true
  | .flushStats epoch => s.Idle epoch ∧ (s.process epoch).statFlushTimer = true
  | .terminateParent epoch => s.Idle epoch ∧ (s.process epoch).started = true
  | .receiveTypedRpc _ => True
  | .onSocketEvent epoch => s.Idle epoch
  | .onSigterm epoch => s.Idle epoch ∧ (s.process epoch).sigterm = true
  | .exit epoch => (s.process epoch).exiting = true ∧ (s.process epoch).waiting = none

instance (s : System) (epoch : Nat) : Decidable (s.Idle epoch) := by
  unfold Idle
  infer_instance

instance (s : System) (event : Event) : Decidable (s.Enabled event) := by
  cases event <;> (unfold Enabled; infer_instance)

def effect : Event → Option System
  | .start => some s.start
  | .shutdownParentAdmin epoch => s.shutdownParentAdmin epoch
  | .enableStatFlushTimer epoch =>
    some (s.setProcess epoch { s.process epoch with statFlushTimer := true })
  | .startWorkers epoch => s.startWorkers epoch
  | .duplicateParentListenSocket epoch => s.duplicateParentListenSocket epoch
  | .flushStats epoch => s.getParentStats epoch
  | .terminateParent epoch => s.terminateParent epoch
  | .receiveTypedRpc epoch => s.receiveTypedRpc epoch
  | .onSocketEvent epoch => s.onSocketEvent epoch
  | .onSigterm epoch => s.onSigterm epoch
  | .exit epoch => some (s.exit epoch)

def step (event : Event) : Option System :=
  if s.Enabled event then s.effect event else some s

end System

end Meliproxy.Envoy.Server.HotRestart
