import Meliproxy.Envoy.RateLimit.HttpFilter

/-!
# The TCP rate limit filter in its chain of read filters

The filter manager calls the filters of a connection one after the other and starts again at the
first one with every read. A filter can stop it, and continue the chain behind itself later. All
filters but the rate limit filter are free in what they do, also inside of the calls that they
get, so the iterations of `onContinueReading` that are under way are kept on a stack.

`answer` and `calls` are the history: what the service has answered and whether it was enforced,
and the calls that the filters got.
-/

namespace Meliproxy.Envoy.RateLimit

open Lib

/-- `TcpFilter::Config` with the place of the filter in the chain, and whether the runtime
enables the filter when the connection gets to it. -/
structure TcpConfig where
  domain : Bytes
  descriptors : List Descriptor
  enabled : Bool
  before : Nat
  after : Nat

def TcpConfig.size (config : TcpConfig) : Nat := config.before + 1 + config.after

inductive TcpStatus where
  | notStarted
  | calling
  | complete
  deriving DecidableEq

structure InstanceStats where
  total : Nat
  error : Nat
  overLimit : Nat
  ok : Nat
  cxClosed : Nat
  active : Int

inductive ReadCall where
  | onNewConnection
  | onData
  deriving DecidableEq

/-- Where an iteration of `onContinueReading` stands: before a filter, inside of its
`onNewConnection`, inside of `limit` in that of the rate limit filter, before the look at the
read buffer, or inside of the filter's `onData`. -/
inductive Frame where
  | entry (i : Nat)
  | onNewConnection (i : Nat)
  | limit
  | check (i : Nat)
  | onData (i : Nat)
  deriving DecidableEq

def Frame.waits : Frame → Bool
  | .entry _ => false
  | .onNewConnection _ => true
  | .limit => true
  | .check _ => false
  | .onData _ => true

structure TcpChain where
  initialized : Nat → Bool
  stack : List Frame
  readBuffer : Nat
  isOpen : Bool
  status : TcpStatus
  callingLimit : Bool
  outstanding : Bool
  stats : InstanceStats
  limited : Option (Bytes × List Descriptor)
  answer : Option (LimitStatus × Bool)
  calls : List (Nat × ReadCall)

namespace TcpChain

def create : TcpChain where
  initialized := fun _ => false
  stack := []
  readBuffer := 0
  isOpen := true
  status := .notStarted
  callingLimit := false
  outstanding := false
  stats := ⟨0, 0, 0, 0, 0, 0⟩
  limited := none
  answer := none
  calls := []

variable (s : TcpChain)

def call (i : Nat) (c : ReadCall) : TcpChain := { s with calls := s.calls ++ [(i, c)] }

def active (s : TcpChain) (change : Int) : TcpChain :=
  { s with stats := { s.stats with active := s.stats.active + change } }

def onData : FilterStatus :=
  if s.status = .calling then .stopIteration else .continueIteration

/-- `cancel` of the client, which asserts that a call goes on. -/
def cancel : Option TcpChain :=
  if s.outstanding then some { s with outstanding := false } else none

def onEvent : Option TcpChain :=
  if s.status = .calling then s.cancel.map fun s => s.active (-1) else some s

def close : Option TcpChain :=
  if s.isOpen then { s with isOpen := false }.onEvent else some s

def onContinueReading (i : Nat) : TcpChain := { s with stack := .entry i :: s.stack }

def count (status : LimitStatus) : TcpChain :=
  match status with
  | .ok => { s with stats := { s.stats with ok := s.stats.ok + 1 } }
  | .error => { s with stats := { s.stats with error := s.stats.error + 1 } }
  | .overLimit => { s with stats := { s.stats with overLimit := s.stats.overLimit + 1 } }

def complete (s : TcpChain) (config : TcpConfig) (status : LimitStatus) (enforcing : Bool) :
    Option TcpChain :=
  let s := ({ s with status := .complete }.active (-1)).count status
  if status = .overLimit ∧ enforcing then
    { s with stats := { s.stats with cxClosed := s.stats.cxClosed + 1 } }.close
  else if s.callingLimit then some s
  else some (s.onContinueReading (config.before + 1))

def newConnectionReturns (i : Nat) (rest : List Frame) : FilterStatus → TcpChain
  | .stopIteration => { s with stack := rest }
  | .continueIteration => { s with stack := .check i :: rest }

def dataReturns (i : Nat) (rest : List Frame) : FilterStatus → TcpChain
  | .stopIteration => { s with stack := rest }
  | .continueIteration => { s with stack := .entry (i + 1) :: rest }

variable (config : TcpConfig)

/-- `onNewConnection` of the rate limit filter, up to the return of `limit`. The client asserts
that no call of it goes on. -/
def onNewConnection (rest : List Frame) : Option TcpChain :=
  let s :=
    if s.status = .notStarted ∧ config.enabled = false then { s with status := .complete } else s
  if s.status = .notStarted then
    let s := { s with
      status := .calling
      stats := { s.stats with
        active := s.stats.active + 1
        total := s.stats.total + 1 }
      callingLimit := true
      limited := some (config.domain, config.descriptors)
      stack := .limit :: rest }
    if s.outstanding then none else some { s with outstanding := true }
  else some (s.newConnectionReturns config.before rest s.onData)

def limitReturns : Option TcpChain :=
  match s.stack with
  | .limit :: rest =>
    let s := { s with callingLimit := false }
    some (s.newConnectionReturns config.before rest s.onData)
  | _ => none

def iterate : Option TcpChain :=
  match s.stack with
  | .entry i :: rest =>
    if config.size ≤ i then some { s with stack := rest }
    else if s.initialized i then some { s with stack := .check i :: rest }
    else
      let s := { s with initialized := fun j => j = i || s.initialized j }.call i .onNewConnection
      if i = config.before then s.onNewConnection config rest
      else some { s with stack := .onNewConnection i :: rest }
  | .check i :: rest =>
    if s.readBuffer = 0 then some { s with stack := .entry (i + 1) :: rest }
    else
      let s := s.call i .onData
      if i = config.before then some (s.dataReturns i rest s.onData)
      else some { s with stack := .onData i :: rest }
  | _ => none

def returns (status : FilterStatus) : Option TcpChain :=
  match s.stack with
  | .onNewConnection i :: rest => some (s.newConnectionReturns i rest status)
  | .onData i :: rest => some (s.dataReturns i rest status)
  | _ => none

end TcpChain

/-- What happens on a connection. `iterate` is the code of the filter manager; the other events
are those of the connection, of the rate limit service and of the other filters. -/
inductive TcpEvent where
  | initializeReadFilters
  | onRead
  | iterate
  | returns (status : FilterStatus)
  | limitReturns
  | complete (status : LimitStatus) (enforcing : Bool)
  | continueReading (i : Nat)
  | readBuffer (length : Nat)
  | close

namespace TcpChain

def step (config : TcpConfig) (s : TcpChain) : TcpEvent → Option TcpChain
  | .initializeReadFilters => some (s.onContinueReading 0)
  | .onRead => some (s.onContinueReading 0)
  | .iterate => s.iterate config
  | .returns status => s.returns status
  | .limitReturns => s.limitReturns config
  | .complete status enforcing => { s with
      outstanding := false
      answer := some (status, enforcing) }.complete config status enforcing
  | .continueReading i => some (s.onContinueReading (i + 1))
  | .readBuffer length => some { s with readBuffer := length }
  | .close => s.close

def waiting (s : TcpChain) : Bool := s.stack.head?.all Frame.waits

/-- The chain is initialized once. An open connection tells its filters when it has read bytes.
A filter continues the chain when it was called before, and the service answers while its call
goes on. -/
def Possible (config : TcpConfig) (s : TcpChain) : TcpEvent → Prop
  | .initializeReadFilters => s.stack = [] ∧ s.calls = []
  | .onRead => s.stack = [] ∧ s.isOpen = true ∧ s.readBuffer ≠ 0
  | .iterate => s.waiting = false
  | .returns _ => s.waiting = true ∧ s.stack ≠ [] ∧ s.stack.head? ≠ some .limit
  | .limitReturns => s.stack.head? = some .limit
  | .complete _ _ => s.waiting = true ∧ s.outstanding = true
  | .continueReading i => s.waiting = true ∧ i ≠ config.before ∧ s.initialized i = true
  | .readBuffer _ => s.waiting = true
  | .close => s.waiting = true ∧ s.isOpen = true

/-- An iteration does not get through the rate limit filter to another one: where it looks at the
read buffer for the filter, and this is not the last of the chain, the buffer is not empty if the
filter still waits for its answer, and no answer has closed the connection. -/
def Stops (config : TcpConfig) (s : TcpChain) : TcpEvent → Prop
  | .iterate => s.stack.head? = some (.check config.before) → config.after ≠ 0 →
      (s.status = .calling → s.readBuffer ≠ 0) ∧ s.answer ≠ some (.overLimit, true)
  | _ => True

end TcpChain

end Meliproxy.Envoy.RateLimit
