import Meliproxy.Lib.Runs

/-!
# The listener manager

`server/listener_manager_impl.cc`. A worker has a queue of tasks and posts its results back to the
main thread, which runs them in order. A listener object is known by its tag. What the environment
answers (a configuration that throws, the socket, a listener without init targets, a failure to
listen) is free in the events. `none` is a failed `ASSERT`, or a post that finds its listener
destroyed. `stopListener` has no result and is left out, and with it its `ASSERT` that the thread of
the worker is there, which a listener that is removed before the workers start does not meet.
-/

namespace Meliproxy.Envoy.Server

open Lib

variable {Name Address Body : Type}

/-- `envoy::api::v2::Listener`, with `none` for an empty name. -/
structure ListenerConfig (Name Address Body : Type) where
  name : Option Name
  address : Address
  bindToPort : Bool
  body : Body
  deriving DecidableEq

/-- `socketAddress` is the local address of the socket. -/
structure ListenerImpl (Name Address Body : Type) where
  listenerTag : Nat
  name : Name
  config : ListenerConfig Name Address Body
  hash : UInt64
  socketAddress : Address
  sawListenerCreateFailure : Bool

/-- `draining` as long as the drain sequence has not completed. -/
structure DrainingListener (Name Address Body : Type) where
  listener : ListenerImpl Name Address Body
  workersPendingRemoval : Nat
  draining : Bool

inductive Task where
  | addListener (listenerTag : Nat)
  | removeListener (listenerTag : Nat)
  deriving DecidableEq

/-- The result of a task on its way to the main thread. -/
structure Post where
  worker : Nat
  task : Task
  success : Bool

structure ListenerManagerStats where
  listenerAdded : Nat
  listenerModified : Nat
  listenerRemoved : Nat
  listenerCreateSuccess : Nat
  listenerCreateFailure : Nat
  totalListenersWarming : Nat
  totalListenersActive : Nat
  totalListenersDraining : Nat

/-- What was asked for, with the listener that answers to it, and the failures to listen. -/
inductive Request (Name Address Body : Type) where
  | addOrUpdate (name : Name) (config : ListenerConfig Name Address Body) (listenerTag : Nat)
  | remove (name : Name)
  | failed (listenerTag : Nat)

/-- The last five fields are histories, which `step` and `runPost` write: the requests, the tags of
the listeners that have ceased to be active, of those with a complete drain sequence, the workers that
have removed them, and the tags of the draining listeners that were destroyed. -/
structure ListenerManager (Name Address Body : Type) where
  active : List (ListenerImpl Name Address Body)
  warming : List (ListenerImpl Name Address Body)
  draining : List (DrainingListener Name Address Body)
  workers : List (List Task)
  posts : List Post
  workersStarted : Bool
  nextListenerTag : Nat
  stats : ListenerManagerStats
  requests : List (Request Name Address Body)
  drained : List Nat
  completed : List Nat
  confirmed : List (Nat × Nat)
  destroyed : List Nat

namespace ListenerManager

def create (concurrency : Nat) : ListenerManager Name Address Body where
  active := []
  warming := []
  draining := []
  workers := List.replicate (max 1 concurrency) []
  posts := []
  workersStarted := false
  nextListenerTag := 1
  stats := ⟨0, 0, 0, 0, 0, 0, 0, 0⟩
  requests := []
  drained := []
  completed := []
  confirmed := []
  destroyed := []

variable (s : ListenerManager Name Address Body)

def updateWarmingActiveGauges : ListenerManager Name Address Body :=
  { s with stats := { s.stats with
      totalListenersWarming := s.warming.length
      totalListenersActive := s.active.length } }

def enqueue (task : Task) :
    ListenerManager Name Address Body := { s with workers := s.workers.map (· ++ [task]) }

def drainListener (listener : ListenerImpl Name Address Body) : ListenerManager Name Address Body :=
  ({ s with
    draining := ⟨listener, s.workers.length, true⟩ :: s.draining
    stats := { s.stats with totalListenersDraining := s.draining.length + 1 } } :
      ListenerManager Name Address Body).updateWarmingActiveGauges

variable (listenerTag : Nat)

def drainComplete : ListenerManager Name Address Body :=
  if s.draining.any fun d => d.listener.listenerTag = listenerTag && d.draining then
    ({ s with draining := s.draining.map fun d =>
        if d.listener.listenerTag = listenerTag then { d with draining := false } else d } :
      ListenerManager Name Address Body).enqueue (.removeListener listenerTag)
  else s

def runWorker (worker : Nat) (success : Bool) : ListenerManager Name Address Body :=
  match s.workers[worker]? with
  | some (task :: rest) =>
    if s.workersStarted then
      { s with workers := s.workers.set worker rest, posts := s.posts ++ [⟨worker, task, success⟩] }
    else s
  | _ => s

def listeners : List (ListenerImpl Name Address Body) :=
  s.active ++ s.warming ++ s.draining.map DrainingListener.listener

def markFailure : ListenerManager Name Address Body :=
  let mark (listener : ListenerImpl Name Address Body) :=
    if listener.listenerTag = listenerTag then { listener with sawListenerCreateFailure := true }
    else listener
  { s with
    active := s.active.map mark
    warming := s.warming.map mark
    draining := s.draining.map fun d => { d with listener := mark d.listener } }

def onRemoved : Option (ListenerManager Name Address Body) :=
  match s.draining.find? fun d => d.listener.listenerTag = listenerTag with
  | none => none
  | some d =>
    match d.workersPendingRemoval with
    | 0 => none
    | 1 =>
      let draining := s.draining.filter fun d => d.listener.listenerTag ≠ listenerTag
      some { s with
        draining := draining
        stats := { s.stats with totalListenersDraining := draining.length } }
    | pending + 1 =>
      some { s with draining := s.draining.map fun d =>
        if d.listener.listenerTag = listenerTag then { d with workersPendingRemoval := pending }
        else d }

section Histories

def activeTags : List Nat :=
  s.active.map ListenerImpl.listenerTag

def drainingTags : List Nat :=
  s.draining.map fun d => d.listener.listenerTag

def request (requests : List (Request Name Address Body)) : ListenerManager Name Address Body :=
  { s with requests := s.requests ++ requests }

def complete (listenerTag : Nat) : ListenerManager Name Address Body :=
  if listenerTag ∈ s.drainingTags then { s with completed := s.completed ++ [listenerTag] } else s

def confirm (worker listenerTag : Nat) : ListenerManager Name Address Body :=
  { s with confirmed := (worker, listenerTag) :: s.confirmed }

def destroy (listenerTag : Nat) : ListenerManager Name Address Body :=
  if listenerTag ∈ s.drainingTags then s else { s with destroyed := s.destroyed ++ [listenerTag] }

/-- The listeners that are active in `s` and not in `after`. -/
def retire (after : ListenerManager Name Address Body) : ListenerManager Name Address Body :=
  { after with
    drained := after.drained ++ s.activeTags.filter fun listenerTag =>
      listenerTag ∉ after.activeTags }

end Histories

section Names

variable [DecidableEq Name]

variable (listeners : List (ListenerImpl Name Address Body))

def getListenerByName (name : Name) :
    Option (ListenerImpl Name Address Body) := listeners.find? fun listener => listener.name = name

def replaceByName
    (newListener : ListenerImpl Name Address Body) : List (ListenerImpl Name Address Body) :=
  listeners.map fun listener => if listener.name = newListener.name then newListener else listener

def eraseByName (name : Name) :
    List (ListenerImpl Name Address Body) := listeners.filter fun listener => listener.name ≠ name

variable (s : ListenerManager Name Address Body)

def onListenerWarmed (listenerTag : Nat) : ListenerManager Name Address Body :=
  match s.warming.find? fun listener => listener.listenerTag = listenerTag with
  | none => s
  | some listener =>
    let s := s.enqueue (.addListener listenerTag)
    let s :=
      match getListenerByName s.active listener.name with
      | some existingActiveListener =>
        let s := s.drainListener existingActiveListener
        { s with active := replaceByName s.active listener }
      | none => { s with active := s.active ++ [listener] }
    ({ s with warming := eraseByName s.warming listener.name } :
      ListenerManager Name Address Body).updateWarmingActiveGauges

def removeListener (name : Name) : ListenerManager Name Address Body :=
  match getListenerByName s.warming name, getListenerByName s.active name with
  | none, none => s
  | _, existingActiveListener =>
    let s := { s with warming := eraseByName s.warming name }
    let s :=
      match existingActiveListener with
      | some listener =>
        let s := s.drainListener listener
        { s with active := eraseByName s.active name }
      | none => s
    ({ s with stats := { s.stats with listenerRemoved := s.stats.listenerRemoved + 1 } } :
      ListenerManager Name Address Body).updateWarmingActiveGauges

def startWorkers : Option (ListenerManager Name Address Body) :=
  if s.workersStarted || !s.warming.isEmpty then none
  else
    let tasks := s.active.map fun listener => Task.addListener listener.listenerTag
    some { s with workersStarted := true, workers := s.workers.map (· ++ tasks) }

def onAdded (listenerTag : Nat) (success : Bool) : Option (ListenerManager Name Address Body) :=
  match s.listeners.find? fun listener => listener.listenerTag = listenerTag with
  | none => none
  | some listener =>
    if success then
      some { s with stats :=
        { s.stats with listenerCreateSuccess := s.stats.listenerCreateSuccess + 1 } }
    else if listener.sawListenerCreateFailure then some s
    else
      let s := s.markFailure listenerTag
      let s := { s with stats :=
        { s.stats with listenerCreateFailure := s.stats.listenerCreateFailure + 1 } }
      some (s.removeListener listener.name)

/-- The main thread runs the oldest post. -/
def runPost : Option (ListenerManager Name Address Body) :=
  match s.posts with
  | [] => some s
  | post :: rest =>
    let s := { s with posts := rest }
    match post.task with
    | .addListener listenerTag =>
      (s.request (if post.success then [] else [.failed listenerTag])).onAdded listenerTag post.success
    | .removeListener listenerTag =>
      ((s.confirm post.worker listenerTag).onRemoved listenerTag).map fun s => s.destroy listenerTag

variable [DecidableEq Address]

def hasListenerWithAddress (listeners : List (ListenerImpl Name Address Body)) (address : Address) :
    Bool := listeners.any fun listener => listener.config.address = address

/-- The socket of a listener that has no warming or active one of its name: that of a draining
listener, or a new one if it can be made. -/
def chooseSocket (address : Address) (createListenSocket : Option Address) : Option Address :=
  match s.draining.find? fun listener => listener.listener.socketAddress = address with
  | some listener => some listener.listener.socketAddress
  | none => createListenSocket

/-- What `addOrUpdateListener` reads: the hash, a name for a configuration without one, whether the
listener can be made, the address of a new socket, and whether there is nothing to wait for. -/
structure Update (Name Address Body : Type) where
  config : ListenerConfig Name Address Body
  hash : UInt64
  uuid : Name
  constructs : Bool
  createListenSocket : Option Address
  initializes : Bool

variable (update : Update Name Address Body)

def Update.name : Name := update.config.name.getD update.uuid

def Update.newListener (listenerTag : Nat)
    (socketAddress : Address) : ListenerImpl Name Address Body :=
  ⟨listenerTag, update.name, update.config, update.hash, socketAddress, false⟩

variable (existing : Option (ListenerImpl Name Address Body))

def isDuplicate : Bool :=
  existing.any fun listener => listener.hash = update.hash

def hasOtherAddress : Bool :=
  existing.any fun listener => listener.config.address ≠ update.config.address

def finishUpdate (listenerTag : Nat) (added : Bool) : ListenerManager Name Address Body :=
  let s := s.updateWarmingActiveGauges
  let stats :=
    if added then { s.stats with listenerAdded := s.stats.listenerAdded + 1 }
    else { s.stats with listenerModified := s.stats.listenerModified + 1 }
  let s := { s with stats := stats }
  if s.workersStarted && update.initializes then s.onListenerWarmed listenerTag else s

/-- The manager afterwards, and what is returned, with `none` for an exception. -/
def addOrUpdateListener : ListenerManager Name Address Body × Option Bool :=
  let existingActiveListener := getListenerByName s.active update.name
  let existingWarmingListener := getListenerByName s.warming update.name
  if isDuplicate update existingWarmingListener || isDuplicate update existingActiveListener then
    (s, some false)
  else
    let listenerTag := s.nextListenerTag
    let s := { s with nextListenerTag := listenerTag + 1 }
    if !update.constructs then (s, none)
    else if hasOtherAddress update existingWarmingListener ||
        hasOtherAddress update existingActiveListener then (s, none)
    else
      match existingWarmingListener, existingActiveListener with
      | some existing, _ =>
        let newListener := update.newListener listenerTag existing.socketAddress
        (({ s with warming := replaceByName s.warming newListener } :
          ListenerManager Name Address Body).finishUpdate update listenerTag false, some true)
      | none, some existing =>
        let newListener := update.newListener listenerTag existing.socketAddress
        let s : ListenerManager Name Address Body :=
          if s.workersStarted then { s with warming := s.warming ++ [newListener] }
          else { s with active := replaceByName s.active newListener }
        (s.finishUpdate update listenerTag false, some true)
      | none, none =>
        if !update.config.bindToPort && (hasListenerWithAddress s.warming update.config.address ||
            hasListenerWithAddress s.active update.config.address) then (s, none)
        else
          match s.chooseSocket update.config.address update.createListenSocket with
          | none => (s, none)
          | some socketAddress =>
            let newListener := update.newListener listenerTag socketAddress
            let s : ListenerManager Name Address Body :=
              if s.workersStarted then { s with warming := s.warming ++ [newListener] }
              else { s with active := s.active ++ [newListener] }
            (s.finishUpdate update listenerTag true, some true)

inductive Event (Name Address Body : Type) where
  | addOrUpdateListener (update : Update Name Address Body)
  | removeListener (name : Name)
  | startWorkers
  | onListenerWarmed (listenerTag : Nat)
  | drainComplete (listenerTag : Nat)
  | runWorker (worker : Nat) (success : Bool)
  | runPost

def current (name : Name) : Option (ListenerImpl Name Address Body) :=
  (getListenerByName s.warming name).or (getListenerByName s.active name)

/-- The request that `addOrUpdateListener` has taken. The current listener answers to a duplicate. -/
def requested : Option Bool → List (Request Name Address Body)
  | none => []
  | some true => [.addOrUpdate update.name update.config s.nextListenerTag]
  | some false => [.addOrUpdate update.name update.config
      (((s.current update.name).map ListenerImpl.listenerTag).getD 0)]

def act : Event Name Address Body → Option (ListenerManager Name Address Body)
  | .addOrUpdateListener update =>
    let updated := s.addOrUpdateListener update
    some (updated.1.request (s.requested update updated.2))
  | .removeListener name => some ((s.request [.remove name]).removeListener name)
  | .startWorkers => s.startWorkers
  | .onListenerWarmed listenerTag => some (s.onListenerWarmed listenerTag)
  | .drainComplete listenerTag => some ((s.complete listenerTag).drainComplete listenerTag)
  | .runWorker worker success => some (s.runWorker worker success)
  | .runPost => s.runPost

/-- Before the workers have started an update replaces the active listener in its place. -/
def inPlace : Event Name Address Body → Bool
  | .addOrUpdateListener _ => !s.workersStarted
  | _ => false

def step (s : ListenerManager Name Address Body) (event : Event Name Address Body) :
    Option (ListenerManager Name Address Body) :=
  (s.act event).map fun after => if s.inPlace event then after else s.retire after

end Names

end ListenerManager

end Meliproxy.Envoy.Server
