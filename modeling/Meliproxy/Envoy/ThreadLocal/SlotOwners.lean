import Meliproxy.Lib.Runs

/-!
# Updates of thread-local data

`common/thread_local/thread_local_impl.cc` with two owners of slots, `RdsRouteConfigProviderImpl`
and `LogicalDnsCluster`, whose updates post closures that have `this`. A provider lives as long as
a listener holds it; of the listener manager there is what decides when a listener is destroyed.
Which listener has the name of another is part of the event. `failed` is a closure that runs
without its owner or its slot.
-/

namespace Meliproxy.Envoy.ThreadLocal

open Lib

/-- The object of a slot on a thread. -/
structure ThreadLocalObject (Value : Type) where
  owner : Nat
  value : Option Value

/-- What is posted to a worker: the closures of `SlotImpl::set`, `removeSlot` and of the updates,
and `Worker::removeListener`. -/
inductive Task (Value : Type) where
  | setThreadLocal (index owner : Nat)
  | clearSlot (index : Nat)
  | update (owner : Nat) (value : Value)
  | removeListener (listenerTag : Nat)

def Task.completion {Value : Type} : Task Value → List Nat
  | .removeListener listenerTag => [listenerTag]
  | _ => []

def Task.update? {Value : Type} : Task Value → Option (Nat × Value)
  | .update tag value => some (tag, value)
  | _ => none

/-- `ran` are the updates that have run. -/
structure WorkerThread (Value : Type) where
  queue : List (Task Value)
  data : Nat → Option (ThreadLocalObject Value)
  ran : List (Nat × Value)

/-- A provider has the `manager_identifier_`, a cluster has none. `index` is that of the slot, and
`current` stands for `last_config_hash_` or `current_resolved_address_`. -/
structure SlotOwner (Key Value : Type) where
  tag : Nat
  key : Option Key
  index : Nat
  current : Option Value

/-- A listener that is removed from the workers waits for each of them. -/
inductive ListenerPhase where
  | warming
  | active
  | draining
  | removing (workersPendingRemoval : Nat)
  deriving DecidableEq

structure ListenerImpl where
  tag : Nat
  providers : List Nat
  phase : ListenerPhase

def ListenerImpl.isRemoving (listener : ListenerImpl) : Bool :=
  match listener.phase with
  | .removing _ => true
  | _ => false

/-- `posts` are those to the main thread, and `posted` is a history of the updates. -/
structure Threads (Key Value : Type) where
  slots : List (Option Nat)
  mainData : Nat → Option (ThreadLocalObject Value)
  workers : List (WorkerThread Value)
  workersStarted : Bool
  owners : List (SlotOwner Key Value)
  listeners : List ListenerImpl
  posts : List Nat
  nextOwner : Nat
  nextListener : Nat
  posted : List (Nat × Value)
  failed : Bool

namespace Threads

variable {Key Value : Type}

def create (concurrency : Nat) : Threads Key Value where
  slots := []
  mainData := fun _ => none
  workers := List.replicate (max 1 concurrency) ⟨[], fun _ => none, []⟩
  workersStarted := false
  owners := []
  listeners := []
  posts := []
  nextOwner := 0
  nextListener := 0
  posted := []
  failed := false

variable (s : Threads Key Value)

def fail : Threads Key Value := { s with failed := true }

def post (task : Task Value) : Threads Key Value :=
  { s with workers := s.workers.map fun worker => { worker with queue := worker.queue ++ [task] } }

/-- The index that `allocateSlot` takes: the first that is free, or a new one. -/
def freeIndex : Nat := s.slots.findIdx Option.isNone

def createOwner (key : Option Key) : Threads Key Value :=
  let created : Threads Key Value := { s with
    slots :=
      if s.freeIndex < s.slots.length then s.slots.set s.freeIndex (some s.nextOwner)
      else s.slots ++ [some s.nextOwner]
    mainData := Function.update s.mainData s.freeIndex (some ⟨s.nextOwner, none⟩)
    owners := s.owners ++ [⟨s.nextOwner, key, s.freeIndex, none⟩]
    nextOwner := s.nextOwner + 1 }
  created.post (.setThreadLocal s.freeIndex s.nextOwner)

def destroyOwner (owner : SlotOwner Key Value) : Threads Key Value :=
  let destroyed : Threads Key Value := { s with
    slots := s.slots.set owner.index none
    mainData := Function.update s.mainData owner.index none
    owners := s.owners.filter fun other => other.tag ≠ owner.tag }
  destroyed.post (.clearSlot owner.index)

def runUpdate (data : Nat → Option (ThreadLocalObject Value))
    (tag : Nat) (value : Value) : Option (Nat → Option (ThreadLocalObject Value)) :=
  match s.owners.find? fun owner => owner.tag = tag with
  | none => none
  | some owner =>
    match data owner.index with
    | none => none
    | some object =>
      if s.slots[owner.index]? = some (some tag) && object.owner = tag then
        some (Function.update data owner.index (some { object with value := some value }))
      else none

def runOnAllThreads (tag : Nat) (value : Value) : Threads Key Value :=
  let s := ({ s with posted := s.posted ++ [(tag, value)] } : Threads Key Value).post
    (.update tag value)
  match s.runUpdate s.mainData tag value with
  | some data => { s with mainData := data }
  | none => s.fail

/-- `onConfigUpdate` of a provider, or the callback of `startResolve`. -/
def updateOwner [DecidableEq Value] (s : Threads Key Value) (tag : Nat) (value : Value) :
    Option (Threads Key Value) :=
  match s.owners.find? fun owner => owner.tag = tag with
  | none => none
  | some owner =>
    if owner.current = some value then some s
    else
      let updated : Threads Key Value := { s with owners := s.owners.map fun other =>
        if other.tag = tag then { other with current := some value } else other }
      some (updated.runOnAllThreads tag value)

def getRouteConfigProvider [DecidableEq Key] (s : Threads Key Value) (key : Key) :
    Threads Key Value × Nat :=
  match s.owners.find? fun owner => owner.key = some key with
  | some owner => (s, owner.tag)
  | none => (s.createOwner (some key), s.nextOwner)

def isHeld (tag : Nat) : Bool :=
  s.listeners.any fun listener => tag ∈ listener.providers

/-- The constructor of `ListenerImpl`: an HTTP connection manager for each key. -/
def createListener [DecidableEq Key] (s : Threads Key Value) (keys : List Key)
    (phase : ListenerPhase) : Threads Key Value :=
  let (s, providers) := keys.foldl (fun (s, providers) key =>
    let (s, tag) := getRouteConfigProvider s key
    (s, providers ++ [tag])) (s, [])
  { s with
    listeners := s.listeners ++ [⟨s.nextListener, providers, phase⟩]
    nextListener := s.nextListener + 1 }

variable (listenerTag : Nat)

/-- A listener is destroyed, and with it the providers that no other listener holds. -/
def destroyListener : Threads Key Value :=
  let s := { s with listeners := s.listeners.filter fun listener => listener.tag ≠ listenerTag }
  (s.owners.filter fun owner => owner.key.isSome && !s.isHeld owner.tag).foldl destroyOwner s

def setPhase (phase : ListenerPhase) : Threads Key Value :=
  { s with listeners := s.listeners.map fun listener =>
      if listener.tag = listenerTag then { listener with phase := phase } else listener }

def phaseOf : Option ListenerPhase :=
  (s.listeners.find? fun listener => listener.tag = listenerTag).map ListenerImpl.phase

/-- The listener that a new one takes the place of at once: a warming one, or an active one while
the workers are not started. -/
def replaced (existing : Option Nat) : Option Nat :=
  existing.filter fun listenerTag =>
    s.phaseOf listenerTag = some ListenerPhase.warming ||
      (s.phaseOf listenerTag = some ListenerPhase.active && !s.workersStarted)

/-- `refused` if the constructor or a later check throws. -/
def addOrUpdateListener [DecidableEq Key] (s : Threads Key Value) (keys : List Key)
    (existing : Option Nat) (refused : Bool) : Threads Key Value :=
  let replaced := if refused then some s.nextListener else s.replaced existing
  let phase : ListenerPhase := if s.workersStarted then .warming else .active
  let s := s.createListener keys phase
  match replaced with
  | some listenerTag => s.destroyListener listenerTag
  | none => s

def onDrained : Threads Key Value :=
  (s.setPhase listenerTag (.removing s.workers.length)).post (.removeListener listenerTag)

def drainListener : Option Nat → Threads Key Value
  | some listenerTag =>
    if s.phaseOf listenerTag = some ListenerPhase.active then s.setPhase listenerTag .draining
    else s
  | none => s

def onListenerWarmed (existing : Option Nat) :
    Threads Key Value := (s.drainListener existing).setPhase listenerTag .active

def removeListener (warming active : Option Nat) : Threads Key Value :=
  let s :=
    match warming with
    | some listenerTag =>
      if s.phaseOf listenerTag = some ListenerPhase.warming then s.destroyListener listenerTag
      else s
    | none => s
  s.drainListener active

def onListenerRemoved : Threads Key Value :=
  match s.phaseOf listenerTag with
  | some (ListenerPhase.removing workersPendingRemoval) =>
    if workersPendingRemoval - 1 = 0 then s.destroyListener listenerTag
    else s.setPhase listenerTag (.removing (workersPendingRemoval - 1))
  | _ => s.fail

def runTask (worker : WorkerThread Value) : Task Value → Option (WorkerThread Value)
  | .setThreadLocal index owner =>
    some { worker with data := Function.update worker.data index (some ⟨owner, none⟩) }
  | .clearSlot index => some { worker with data := Function.update worker.data index none }
  | .update tag value =>
    (s.runUpdate worker.data tag value).map fun data =>
      { worker with data := data, ran := worker.ran ++ [(tag, value)] }
  | .removeListener _ => some worker

def runWorker (i : Nat) : Option (Threads Key Value) :=
  match s.workers[i]? with
  | none => none
  | some worker =>
    match worker.queue with
    | [] => none
    | task :: queue =>
      match s.runTask { worker with queue := queue } task with
      | some worker =>
        some { s with
          workers := s.workers.set i worker
          posts := s.posts ++ Task.completion task }
      | none => some s.fail

inductive Event (Key Value : Type) where
  | addOrUpdateListener (keys : List Key) (existing : Option Nat) (refused : Bool)
  | onListenerWarmed (listenerTag : Nat) (existing : Option Nat)
  | removeListener (warming active : Option Nat)
  | onDrained (listenerTag : Nat)
  | addCluster
  | removeCluster (tag : Nat)
  | update (tag : Nat) (value : Value)
  | startWorkers
  | runWorker (i : Nat)
  | runPost

section Keys

variable [DecidableEq Key] [DecidableEq Value]

def step (s : Threads Key Value) : Event Key Value → Option (Threads Key Value)
  | .addOrUpdateListener keys existing refused => some (s.addOrUpdateListener keys existing refused)
  | .onListenerWarmed listenerTag existing =>
    if s.phaseOf listenerTag = some ListenerPhase.warming then
      some (s.onListenerWarmed listenerTag existing)
    else none
  | .removeListener warming active => some (s.removeListener warming active)
  | .onDrained listenerTag =>
    if s.phaseOf listenerTag = some ListenerPhase.draining then some (s.onDrained listenerTag)
    else none
  | .addCluster => some (s.createOwner none)
  | .removeCluster tag =>
    match s.owners.find? fun owner => owner.tag = tag && owner.key.isNone with
    | some owner => some (s.destroyOwner owner)
    | none => none
  | .update tag value => s.updateOwner tag value
  | .startWorkers => some { s with workersStarted := true }
  | .runWorker i => if s.workersStarted then s.runWorker i else none
  | .runPost =>
    match s.posts with
    | [] => none
    | listenerTag :: posts =>
      some (({ s with posts := posts } : Threads Key Value).onListenerRemoved listenerTag)

end Keys

/-! ## What is wanted -/

/-- The updates that are queued have their owners and slots, none has run without, and each worker
runs all of them in order. -/
structure OwnersOutlive (s : Threads Key Value) : Prop where
  safe : s.failed = false
  queued : ∀ worker ∈ s.workers, ∀ tag value, Task.update tag value ∈ worker.queue →
    ∃ owner ∈ s.owners, owner.tag = tag ∧ s.slots[owner.index]? = some (some tag)
  delivered : ∀ worker ∈ s.workers, worker.ran ++ worker.queue.filterMap Task.update? = s.posted

def IsQueued (tag : Nat) : Prop :=
  ∃ worker ∈ s.workers, ∃ value, Task.update tag value ∈ worker.queue

/-- A listener that the workers were not told to remove holds the provider. -/
def IsKept (tag : Nat) : Prop :=
  ∃ listener ∈ s.listeners, listener.isRemoving = false ∧ tag ∈ listener.providers

/-- The listener may be destroyed without having been drained: each queued update of its providers
waits for another listener, or the new one has the key. -/
def MayGo (keys : List Key) (listenerTag : Nat) : Prop :=
  ∀ listener ∈ s.listeners, listener.tag = listenerTag → ∀ tag ∈ listener.providers,
    ∀ worker ∈ s.workers, ∀ front value back, worker.queue = front ++ .update tag value :: back →
    (∃ other ∈ s.listeners, other.tag ≠ listenerTag ∧ tag ∈ other.providers ∧
      (other.isRemoving = false ∨ .removeListener other.tag ∈ back)) ∨
    ∃ owner ∈ s.owners, owner.tag = tag ∧ ∃ key ∈ keys, owner.key = some key

/-- No owner goes while an update of it is queued for which nothing else waits, and a provider is
not updated once the workers were told to remove every listener that holds it. -/
def Regular : Event Key Value → Prop
  | .addOrUpdateListener keys existing refused => refused = false →
    ∀ listenerTag ∈ s.replaced existing, s.MayGo keys listenerTag
  | .removeListener warming _ => ∀ listenerTag ∈ warming,
    s.phaseOf listenerTag = some ListenerPhase.warming → s.MayGo [] listenerTag
  | .removeCluster tag => ¬s.IsQueued tag
  | .update tag value => ∀ owner ∈ s.owners, owner.tag = tag → owner.key.isSome = true →
    owner.current ≠ some value → s.IsKept tag
  | _ => True

end Threads

end Meliproxy.Envoy.ThreadLocal
