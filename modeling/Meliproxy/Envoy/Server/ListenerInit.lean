import Meliproxy.Envoy.Server.ListenerManager

/-!
# Listeners whose routes come from RDS

`common/router/rds_impl.cc`, `server/init_manager_impl.cc` and the part of
`server/listener_manager_impl.cc` that has to do with them, over the listener manager. Everything is
on the main thread. A provider object is known by its tag and a listener object by that of its
listener. The body of a listener's configuration is the `Rds` messages of its HTTP connection
managers, up to a filter that throws.

`failed` is a failed `ASSERT` or the use of an object that is destroyed. The only other init target
is the `LdsApi`, which is made after the listeners of the bootstrap, so that it comes last.
-/

namespace Meliproxy.Envoy.Server

open Lib

/-- `envoy::api::v2::filter::http::Rds`, which stands for its serialization. -/
structure Rds where
  routeConfigName : String
  configSource : String
  deriving DecidableEq

/-- `loads` unless the constructor of `ConfigImpl` throws. -/
structure RouteConfiguration where
  name : String
  hash : UInt64
  loads : Bool

/-- What a subscription calls. -/
inductive Answer where
  | update (resources : List RouteConfiguration)
  | failed

/-- The init manager of the server, or the `dynamic_init_manager_` of a listener. -/
inductive ManagerId where
  | server
  | dynamic (listenerTag : Nat)
  deriving DecidableEq

inductive Target where
  | lds
  | provider (providerTag : Nat)
  deriving DecidableEq

inductive InitState where
  | notInitialized
  | initializing
  | initialized
  deriving DecidableEq

structure InitManagerImpl where
  state : InitState
  targets : List Target
  deriving DecidableEq

def InitManagerImpl.remove (m : InitManagerImpl) (target : Target) : InitManagerImpl :=
  let targets := m.targets.filter (· ≠ target)
  ⟨if targets = [] then .initialized else m.state, targets⟩

/-- `initializeCallback` has the manager that gave it. `starts` and `answered` are a history: how
often the subscription was started, and whether an update or a failure has been processed. -/
structure RdsRouteConfigProviderImpl where
  managerIdentifier : Rds
  initialized : Bool
  lastConfigHash : UInt64
  routeConfigProto : Option RouteConfiguration
  configReload : Nat
  updateEmpty : Nat
  initializeCallback : Option ManagerId
  starts : Nat
  answered : Bool

namespace RdsRouteConfigProviderImpl

def create (rds : Rds) : RdsRouteConfigProviderImpl where
  managerIdentifier := rds
  initialized := false
  lastConfigHash := 0
  routeConfigProto := none
  configReload := 0
  updateEmpty := 0
  initializeCallback := none
  starts := 0
  answered := false

variable (p : RdsRouteConfigProviderImpl)

/-- `onConfigUpdate` up to `runInitializeCallbackIfAny`, or `none` if it throws. -/
def onConfigUpdate :
    List RouteConfiguration → Option RdsRouteConfigProviderImpl
  | [] => some { p with updateEmpty := p.updateEmpty + 1 }
  | [routeConfig] =>
    if routeConfig.name ≠ p.managerIdentifier.routeConfigName then none
    else if routeConfig.hash ≠ p.lastConfigHash || !p.initialized then
      if routeConfig.loads then
        some { p with
          initialized := true
          lastConfigHash := routeConfig.hash
          configReload := p.configReload + 1
          routeConfigProto := some routeConfig }
      else none
    else some p
  | _ => none

/-- An update that throws comes back as a failure. -/
def answer : Answer → RdsRouteConfigProviderImpl
  | .update resources => { (p.onConfigUpdate resources).getD p with answered := true }
  | .failed => { p with answered := true }

end RdsRouteConfigProviderImpl

/-- A listener object with the providers its filter factories hold. -/
structure ListenerObject where
  listenerTag : Nat
  workersStarted : Bool
  providers : List Nat
  deriving DecidableEq

def ListenerObject.initManager (listener : ListenerObject) : ManagerId :=
  if listener.workersStarted then .dynamic listener.listenerTag else .server

/-- `objects` are the listener objects whose destructor has not begun, and `initManagers` and
`providers` have what exists. `ldsCallback` is that of the `LdsApi`. -/
structure ListenerInit (Name Address : Type) where
  manager : ListenerManager Name Address (List Rds)
  objects : List ListenerObject
  initManagers : ManagerId → Option InitManagerImpl
  providers : Nat → Option RdsRouteConfigProviderImpl
  routeConfigProviders : List (Rds × Nat)
  nextProviderTag : Nat
  ldsCallback : Bool
  failed : Bool

namespace ListenerInit

variable {Name Address : Type}

def create (concurrency : Nat) : ListenerInit Name Address where
  manager := ListenerManager.create concurrency
  objects := []
  initManagers := Function.update (fun _ => none) .server (some ⟨.notInitialized, []⟩)
  providers := fun _ => none
  routeConfigProviders := []
  nextProviderTag := 0
  ldsCallback := false
  failed := false

variable (s : ListenerInit Name Address)

def fail : ListenerInit Name Address := { s with failed := true }

def setProvider (tag : Nat) (p : RdsRouteConfigProviderImpl) :
    ListenerInit Name Address := { s with providers := Function.update s.providers tag (some p) }

def setInitManager (id : ManagerId) (m : InitManagerImpl) :
    ListenerInit Name Address :=
  { s with initManagers := Function.update s.initManagers id (some m) }

section Names

variable [DecidableEq Name] (s : ListenerInit Name Address)

/-- The callback that an init manager was initialized with. That of a listener does nothing once
`initialize_canceled_` is set, by a destructor that has begun. -/
def onInitialized : ManagerId → ListenerInit Name Address
  | .server =>
    match s.manager.startWorkers with
    | some manager => { s with manager := manager }
    | none => s.fail
  | .dynamic listenerTag =>
    if s.objects.any fun listener => listener.listenerTag = listenerTag then
      { s with manager := s.manager.onListenerWarmed listenerTag }
    else s

/-- The callback that `InitManagerImpl::initializeTarget` gives to its target. -/
def onTargetInitialized (id : ManagerId) (target : Target) : ListenerInit Name Address :=
  match s.initManagers id with
  | none => s.fail
  | some m =>
    if target ∈ m.targets then
      let s := s.setInitManager id (m.remove target)
      if (m.remove target).targets = [] then s.onInitialized id else s
    else s.fail

def runInitializeCallbackIfAny (tag : Nat) : ListenerInit Name Address :=
  match s.providers tag with
  | none => s.fail
  | some p =>
    match p.initializeCallback with
    | none => s
    | some id =>
      (s.onTargetInitialized id (.provider tag)).setProvider tag
        { p with initializeCallback := none }

/-- A subscription that is not started, or gone with its provider, delivers nothing. -/
def onAnswer (tag : Nat) (answer : Answer) : ListenerInit Name Address :=
  match s.providers tag with
  | none => s
  | some p =>
    if p.starts = 0 then s
    else (s.setProvider tag (p.answer answer)).runInitializeCallbackIfAny tag

variable (sync : Nat → List Answer)

variable (id : ManagerId)

/-- `initialize` of a target. `sync` is what the start of a subscription delivers before it
returns. What the start of LDS delivers comes as later events, since LDS is the last target. -/
def initializeTarget :
    Target → ListenerInit Name Address
  | .lds => { s with ldsCallback := true }
  | .provider tag =>
    match s.providers tag with
    | none => s.fail
    | some p =>
      let s := s.setProvider tag { p with initializeCallback := some id, starts := p.starts + 1 }
      (sync tag).foldl (fun s answer => s.onAnswer tag answer) s

def registerTarget (target : Target) : ListenerInit Name Address :=
  match s.initManagers id with
  | none => s.fail
  | some m =>
    let registered := s.setInitManager id { m with targets := m.targets ++ [target] }
    match m.state with
    | .initialized => s.fail
    | .initializing => registered.initializeTarget sync id target
    | .notInitialized => registered

/-- `InitManagerImpl::initialize`. While the loop runs, targets only leave the list. -/
def initializeManager : ListenerInit Name Address :=
  match s.initManagers id with
  | none => s.fail
  | some m =>
    if m.state ≠ .notInitialized then s.fail
    else if m.targets = [] then (s.onInitialized id).setInitManager id ⟨.initialized, []⟩
    else
      m.targets.foldl (fun s target => s.initializeTarget sync id target)
        (s.setInitManager id { m with state := .initializing })

omit [DecidableEq Name] in
def findProvider (rds : Rds) : Option Nat :=
  (s.routeConfigProviders.find? fun entry => entry.1 = rds).map Prod.snd

omit [DecidableEq Name] in
def hold (listenerTag tag : Nat) : ListenerInit Name Address :=
  { s with objects := s.objects.map fun listener =>
      if listener.listenerTag = listenerTag then
        { listener with providers := listener.providers ++ [tag] }
      else listener }

/-- For an HTTP connection manager of the new listener. A new provider is held as soon as it is
there, and registered before it is in the map. -/
def getRouteConfigProvider (new : ListenerObject)
    (s : ListenerInit Name Address) (rds : Rds) : ListenerInit Name Address :=
  match s.findProvider rds with
  | some tag => s.hold new.listenerTag tag
  | none =>
    let tag := s.nextProviderTag
    let s := { (s.setProvider tag (.create rds)).hold new.listenerTag tag with
      nextProviderTag := tag + 1 }
    let s := s.registerTarget sync new.initManager (.provider tag)
    { s with routeConfigProviders := (rds, tag) :: s.routeConfigProviders }

def destroyProvider (tag : Nat) : ListenerInit Name Address :=
  match s.providers tag with
  | none => s
  | some p =>
    let s := s.runInitializeCallbackIfAny tag
    { s with
      providers := Function.update s.providers tag none
      routeConfigProviders := s.routeConfigProviders.filter fun entry =>
        entry.1 ≠ p.managerIdentifier }

def releaseProvider (tag : Nat) : ListenerInit Name Address :=
  if s.objects.any fun listener => tag ∈ listener.providers then s else s.destroyProvider tag

/-- `~ListenerImpl`: the filter factories go first, then the members. -/
def destroyListener (listener : ListenerObject) : ListenerInit Name Address :=
  let s := { s with
    objects := s.objects.filter fun other => other.listenerTag ≠ listener.listenerTag }
  let s := listener.providers.foldl releaseProvider s
  { s with initManagers := Function.update s.initManagers (.dynamic listener.listenerTag) none }

omit [DecidableEq Name] in
def isListed (listenerTag : Nat) : Bool :=
  s.manager.listeners.any fun listener => listener.listenerTag = listenerTag

def destroyUnlisted : ListenerInit Name Address :=
  (s.objects.filter fun listener => !s.isListed listener.listenerTag).foldl destroyListener s

def createListener (filters : List Rds) : ListenerInit Name Address :=
  let new : ListenerObject := ⟨s.manager.nextListenerTag, s.manager.workersStarted, []⟩
  let s := { s.setInitManager (.dynamic new.listenerTag) ⟨.notInitialized, []⟩ with
    objects := s.objects ++ [new] }
  filters.foldl (getRouteConfigProvider sync new) s

/-- `ListenerImpl::initialize` of a listener that was kept. -/
def initializeListener (listenerTag : Nat) : ListenerInit Name Address :=
  if s.objects.any fun listener =>
      listener.listenerTag = listenerTag && listener.workersStarted then
    s.initializeManager sync (.dynamic listenerTag)
  else s

variable [DecidableEq Address]

variable (update : ListenerManager.Update Name Address (List Rds))

omit [DecidableEq Address] in
def isDuplicate : Bool :=
  ListenerManager.isDuplicate update
      (ListenerManager.getListenerByName s.manager.warming update.name) ||
    ListenerManager.isDuplicate update
      (ListenerManager.getListenerByName s.manager.active update.name)

omit [DecidableEq Name] [DecidableEq Address] in
def isStarting : Bool :=
  (s.initManagers .server).any fun m => m.state = .notInitialized

/-- The listener that was made goes to the lists, unless it is refused. -/
def placeListener :
    ListenerInit Name Address :=
  { s with manager := (s.manager.addOrUpdateListener { update with initializes := false }).1 }

/-- An exception that is thrown before the server has started ends it. -/
def addOrUpdateListener (sync : Nat → List Answer)
    (update : ListenerManager.Update Name Address (List Rds)) :
    Option (ListenerInit Name Address) :=
  if s.isDuplicate update then some { s with manager := (s.manager.addOrUpdateListener update).1 }
  else
    let listenerTag := s.manager.nextListenerTag
    let s := (s.createListener sync update.config.body).placeListener update
    if s.isStarting && !s.isListed listenerTag then none
    else some (s.destroyUnlisted.initializeListener sync listenerTag)

def manage (event : ListenerManager.Event Name Address (List Rds)) :
    Option (ListenerInit Name Address) :=
  (s.manager.act event).map fun manager => { s with manager := manager }.destroyUnlisted

def initializeServer (lds : Bool) (sync : Nat → List Answer) : Option (ListenerInit Name Address) :=
  if s.isStarting then
    let s := if lds then s.registerTarget sync .server .lds else s
    some (s.initializeManager sync .server)
  else none

/-- `LdsApi::runInitializeCallbackIfAny` -/
def onLdsAnswer : ListenerInit Name Address :=
  if s.ldsCallback then { s.onTargetInitialized .server .lds with ldsCallback := false } else s

/-- Of `update` what matters is whether the new listener has targets, so that `initializes` is not
read. The results of the workers come when they are started. -/
inductive Event (Name Address : Type) where
  | addOrUpdateListener (update : ListenerManager.Update Name Address (List Rds))
      (sync : Nat → List Answer)
  | removeListener (name : Name)
  | drainComplete (listenerTag : Nat)
  | runWorker (worker : Nat) (success : Bool)
  | runPost
  | initializeServer (lds : Bool) (sync : Nat → List Answer)
  | onLdsAnswer
  | onAnswer (providerTag : Nat) (answer : Answer)

def step (s : ListenerInit Name Address) : Event Name Address → Option (ListenerInit Name Address)
  | .addOrUpdateListener update sync => s.addOrUpdateListener sync update
  | .removeListener name => s.manage (.removeListener name)
  | .drainComplete listenerTag => s.manage (.drainComplete listenerTag)
  | .runWorker worker success => s.manage (.runWorker worker success)
  | .runPost => if s.manager.workersStarted then s.manage .runPost else none
  | .initializeServer lds sync => s.initializeServer lds sync
  | .onLdsAnswer => some s.onLdsAnswer
  | .onAnswer providerTag answer => some (s.onAnswer providerTag answer)

/-! ## What is wanted -/

/-- The init manager of a listener has initialized its targets. -/
def IsInitialized (listener : ListenerObject) : Prop :=
  ∃ m, s.initManagers listener.initManager = some m ∧ m.state = .initialized

/-- The init manager of a listener was told to initialize its targets: by `initializeServer`, or for
a listener that is made after the workers have started by the update that made it. -/
def IsStarted (listener : ListenerObject) : Prop :=
  ∃ m, s.initManagers listener.initManager = some m ∧ m.state ≠ .notInitialized

structure RoutesKnown : Prop where
  safe : s.failed = false
  objects : ∀ listener ∈ s.manager.listeners,
    ∃ object ∈ s.objects, object.listenerTag = listener.listenerTag
  known : ∀ object ∈ s.objects, s.IsInitialized object →
    ∀ tag ∈ object.providers, ∃ p, s.providers tag = some p ∧ p.answered = true
  once : ∀ object ∈ s.objects, s.IsStarted object →
    ∀ tag ∈ object.providers, ∃ p, s.providers tag = some p ∧ p.starts = 1
  served : s.manager.workersStarted = true →
    ∀ object ∈ s.objects, object.workersStarted = false → s.IsInitialized object
  atMostOnce : ∀ tag p, s.providers tag = some p → p.starts ≤ 1

/-- No listener shares a provider that waits for its first answer with another init manager, and
none whose provider is a target of the server goes before the server initializes its targets. -/
def Regular : Event Name Address → Prop
  | .addOrUpdateListener update _ => s.isDuplicate update = false →
    (s.manager.workersStarted = true → ∀ rds ∈ update.config.body, ∀ tag ∈ s.findProvider rds,
      ∀ p ∈ s.providers tag, p.answered = true) ∧
    (s.isStarting = true →
      ∀ existing ∈ ListenerManager.getListenerByName s.manager.active update.name,
      ∀ object ∈ s.objects, object.listenerTag = existing.listenerTag → ∀ tag ∈ object.providers,
        (∃ other ∈ s.objects, other.listenerTag ≠ object.listenerTag ∧ tag ∈ other.providers) ∨
        ∃ rds ∈ update.config.body, s.findProvider rds = some tag)
  | _ => True

end Names

end ListenerInit

end Meliproxy.Envoy.Server
