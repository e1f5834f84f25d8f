import Meliproxy.Envoy.Upstream.HealthChecker
import Meliproxy.Envoy.Upstream.HostSet

/-!
# EDS clusters

`upstream/eds.cc` and what it uses of `upstream/upstream_impl.cc`, for a cluster with a health
checker. A host is an object with a tag; its weight is kept apart, because updates change it.
`failed` is a failed `ASSERT` or the call of an empty `initialize_callback_`. That callback does not
come back to the cluster.
-/

namespace Meliproxy.Envoy.Upstream

open Lib

structure HostImpl (Address Locality : Type) where
  tag : Nat
  address : Address
  locality : Locality
  deriving DecidableEq

instance {Address Locality : Type} [DecidableEq Address] [LinearOrder Locality] :
    LawfulBEq (HostImpl Address Locality) := inferInstance

/-- `address` is `none` where `resolveProtoAddress` throws. -/
structure LbEndpoint (Address : Type) where
  address : Option Address
  loadBalancingWeight : Nat

structure LocalityLbEndpoints (Address Locality : Type) where
  locality : Locality
  lbEndpoints : List (LbEndpoint Address)

structure ClusterLoadAssignment (Address Locality : Type) where
  clusterName : String
  endpoints : List (LocalityLbEndpoints Address Locality)

variable {Address Locality : Type}

def hostWeight (newWeight : Nat) : Nat := max 1 (min 100 newWeight)

def ClusterLoadAssignment.newHosts (assignment : ClusterLoadAssignment Address Locality)
    (nextTag : Nat) : Option (List (HostImpl Address Locality × Nat)) :=
  let endpoints := assignment.endpoints.flatMap fun localityLbEndpoint =>
    localityLbEndpoint.lbEndpoints.map fun lbEndpoint => (lbEndpoint, localityLbEndpoint.locality)
  (endpoints.zipIdx nextTag).mapM fun ((lbEndpoint, locality), tag) =>
    lbEndpoint.address.map fun address =>
      (⟨tag, address, locality⟩, hostWeight lbEndpoint.loadBalancingWeight)

structure HostListUpdate (Address Locality : Type) where
  hostAddresses : List Address
  currentHosts : List (HostImpl Address Locality)
  finalHosts : List (HostImpl Address Locality)
  hostsAdded : List (HostImpl Address Locality)
  failedActiveHc : HostImpl Address Locality → Bool
  weight : HostImpl Address Locality → Nat
  maxHostWeight : Nat

namespace HostListUpdate

variable [DecidableEq Address] [DecidableEq Locality]

def addNewHost (dependOnHc : Bool) (u : HostListUpdate Address Locality)
    (new : HostImpl Address Locality × Nat) : HostListUpdate Address Locality :=
  let (host, weight) := new
  if host.address ∈ u.hostAddresses then u
  else
    let found := u.currentHosts.filter fun current => current.address = host.address
    let u := { u with
      hostAddresses := host.address :: u.hostAddresses
      maxHostWeight := max u.maxHostWeight weight }
    if found = [] then
      { u with
        finalHosts := u.finalHosts ++ [host]
        hostsAdded := u.hostsAdded ++ [host]
        weight := Function.update u.weight host weight
        failedActiveHc :=
          if dependOnHc then Function.update u.failedActiveHc host true else u.failedActiveHc }
    else
      { u with
        finalHosts := u.finalHosts ++ found
        currentHosts := u.currentHosts.filter fun current => current.address ≠ host.address
        weight := fun current => if current ∈ found then weight else u.weight current }

omit [DecidableEq Address] [DecidableEq Locality] in
def keepHealthy (u : HostListUpdate Address Locality) : HostListUpdate Address Locality :=
  let kept := u.currentHosts.filter fun host => !u.failedActiveHc host
  { u with
    finalHosts := u.finalHosts ++ kept
    currentHosts := u.currentHosts.filter u.failedActiveHc
    maxHostWeight := kept.foldl (fun weight host => max weight (u.weight host)) u.maxHostWeight }

end HostListUpdate

/-- `currentHosts` are those that are removed, and nothing has changed if neither hosts were added
nor removed. -/
def updateDynamicHostList [DecidableEq Address] [DecidableEq Locality]
    (newHosts : List (HostImpl Address Locality × Nat))
    (currentHosts : List (HostImpl Address Locality))
    (failedActiveHc : HostImpl Address Locality → Bool) (weight : HostImpl Address Locality → Nat)
    (dependOnHc : Bool) : HostListUpdate Address Locality :=
  let u := newHosts.foldl (HostListUpdate.addNewHost dependOnHc)
    ⟨[], currentHosts, [], [], failedActiveHc, weight, 1⟩
  if dependOnHc then u.keepHealthy else u

/-- The hosts by locality: those of the own locality first, then in the order of a map. -/
def localityHosts [LinearOrder Locality] (localLocality : Option Locality)
    (hosts : List (HostImpl Address Locality)) : List (List (HostImpl Address Locality)) :=
  match localLocality with
  | none => []
  | some localLocality =>
    let localities := (hosts.map HostImpl.locality).dedup.mergeSort fun a b => a ≤ b
    let hostsOf (locality : Locality) := hosts.filter fun host => host.locality = locality
    if localLocality ∈ localities then
      hostsOf localLocality :: (localities.filter (· ≠ localLocality)).map hostsOf
    else []

/-- `callbackSet`, `callbackRuns` and `firstAnswer` are a history: whether `setInitializedCb` was
called, how often the callback has run, and the hosts that the first answer of the subscription
brought. `hostCheckCompleteCbs` is the number of callbacks that `onConfigUpdate` registered. -/
structure EdsClusterImpl (Address Locality : Type) where
  clusterName : String
  localLocality : Option Locality
  healthChecker : HealthChecker (HostImpl Address Locality)
  failedOutlierCheck : HostImpl Address Locality → Bool
  hostSet : HostSet (HostImpl Address Locality)
  weight : HostImpl Address Locality → Nat
  maxHostWeight : Nat
  nextTag : Nat
  initializeCallback : Bool
  pendingHealthChecks : Nat
  hcUpdatesBlocked : Bool
  hostCheckCompleteCbs : Nat
  failed : Bool
  callbackSet : Bool
  callbackRuns : Nat
  firstAnswer : Option (List (HostImpl Address Locality))

namespace EdsClusterImpl

def create (clusterName : String) (localLocality : Option Locality)
    (unhealthyThreshold healthyThreshold : Nat) : EdsClusterImpl Address Locality where
  clusterName := clusterName
  localLocality := localLocality
  healthChecker := .create unhealthyThreshold healthyThreshold fun _ => false
  failedOutlierCheck := fun _ => false
  hostSet := .empty
  weight := fun _ => 1
  maxHostWeight := 0
  nextTag := 0
  initializeCallback := false
  pendingHealthChecks := 0
  hcUpdatesBlocked := false
  hostCheckCompleteCbs := 0
  failed := false
  callbackSet := false
  callbackRuns := 0
  firstAnswer := none

variable (s : EdsClusterImpl Address Locality)

def fail : EdsClusterImpl Address Locality :=
  { s with failed := true }

def healthy (host : HostImpl Address Locality) : Bool :=
  !(s.healthChecker.failedActiveHc host || s.failedOutlierCheck host)

def reloadHealthyHosts (s : EdsClusterImpl Address Locality) : EdsClusterImpl Address Locality :=
  { s with hostSet := s.hostSet.reloadHealthyHosts s.healthy }

def blockHcUpdates (block : Bool) : EdsClusterImpl Address Locality :=
  let s := if s.hcUpdatesBlocked = !block then s else s.fail
  let s := { s with hcUpdatesBlocked := block }
  if block then s else s.reloadHealthyHosts

def runInitializeCallback : EdsClusterImpl Address Locality :=
  if s.initializeCallback then
    { s with callbackRuns := s.callbackRuns + 1, initializeCallback := false }
  else s.fail

def runInitializeCallbackIfAny : EdsClusterImpl Address Locality :=
  if s.initializeCallback && s.pendingHealthChecks = 0 then s.runInitializeCallback else s

/-- The callback that `onConfigUpdate` registers with the health checker. -/
def onHostCheckComplete : EdsClusterImpl Address Locality :=
  if 0 < s.pendingHealthChecks then
    let s := { s with pendingHealthChecks := s.pendingHealthChecks - 1 }
    if s.pendingHealthChecks = 0 then (s.blockHcUpdates false).runInitializeCallback else s
  else s

/-- What the callbacks of the health checker do: that of `setHealthChecker` comes first. -/
def runHealthCallbacks (changedState : Bool) : EdsClusterImpl Address Locality :=
  let s := if !s.hcUpdatesBlocked && changedState then s.reloadHealthyHosts else s
  Nat.iterate onHostCheckComplete s.hostCheckCompleteCbs s

def answered (hosts : List (HostImpl Address Locality)) :
    EdsClusterImpl Address Locality := { s with firstAnswer := s.firstAnswer.or (some hosts) }

def onConfigUpdateFailed : EdsClusterImpl Address Locality :=
  (s.answered []).runInitializeCallbackIfAny

/-- Once there are hosts, the callback waits for their health checks. -/
def awaitHealthChecks : EdsClusterImpl Address Locality :=
  if s.initializeCallback && s.pendingHealthChecks = 0 then
    let s := { s with pendingHealthChecks := s.hostSet.hosts.length }
    let s := if 0 < s.pendingHealthChecks then s else s.fail
    let s := s.blockHcUpdates true
    { s with hostCheckCompleteCbs := s.hostCheckCompleteCbs + 1 }
  else s

section Hosts

variable [DecidableEq Address] [LinearOrder Locality]

variable (s : EdsClusterImpl Address Locality)

def onClusterMemberUpdate (hostsAdded hostsRemoved : List (HostImpl Address Locality)) :
    EdsClusterImpl Address Locality :=
  match do
    let checker ← hostsAdded.foldlM HealthChecker.addHost s.healthChecker
    hostsRemoved.foldlM HealthChecker.removeHost checker with
  | some checker => { s with healthChecker := checker }
  | none => s.fail

def updateHosts (hosts : List (HostImpl Address Locality))
    (hostsAdded hostsRemoved : List (HostImpl Address Locality)) :
    EdsClusterImpl Address Locality :=
  { s with hostSet := .ofHosts s.healthy hosts (localityHosts s.localLocality hosts) }
    |>.onClusterMemberUpdate hostsAdded hostsRemoved

def assignHosts
    (newHosts : List (HostImpl Address Locality × Nat)) : EdsClusterImpl Address Locality :=
  let u := updateDynamicHostList newHosts s.hostSet.hosts s.healthChecker.failedActiveHc s.weight
    true
  let s := { s with
    healthChecker := { s.healthChecker with failedActiveHc := u.failedActiveHc }
    weight := u.weight
    maxHostWeight := u.maxHostWeight
    nextTag := s.nextTag + newHosts.length }
  let s :=
    if u.hostsAdded ≠ [] || u.currentHosts ≠ [] then
      (s.updateHosts u.finalHosts u.hostsAdded u.currentHosts).awaitHealthChecks
    else s
  (s.answered s.hostSet.hosts).runInitializeCallbackIfAny

/-- An update that throws comes back as a failure. -/
def onConfigUpdate
    (resources : List (ClusterLoadAssignment Address Locality)) : EdsClusterImpl Address Locality :=
  match resources with
  | [] => (s.answered []).runInitializeCallbackIfAny
  | [assignment] =>
    if assignment.clusterName ≠ s.clusterName then s.onConfigUpdateFailed
    else
      match assignment.newHosts s.nextTag with
      | some newHosts => s.assignHosts newHosts
      | none => s.onConfigUpdateFailed
  | _ => s.onConfigUpdateFailed

def onResult (host : HostImpl Address Locality)
    (result : CheckResult) : EdsClusterImpl Address Locality :=
  match s.healthChecker.handle host result with
  | some checker =>
    { s with healthChecker := checker }.runHealthCallbacks (checker.reports.getLast?.any Prod.snd)
  | none => s.fail

/-- Results come for hosts with a session, and passive failures also for hosts that have gone. The
outlier detector changes its flag of a host and has the cluster reload. -/
inductive Event (Address Locality : Type) where
  | setInitializedCb
  | onConfigUpdate (resources : List (ClusterLoadAssignment Address Locality))
  | onConfigUpdateFailed
  | result (host : HostImpl Address Locality) (result : CheckResult)
  | setUnhealthyCrossThread (host : HostImpl Address Locality)
  | outlierChangedState (host : HostImpl Address Locality) (failed : Bool)

def step : Event Address Locality → Option (EdsClusterImpl Address Locality)
  | .setInitializedCb =>
    if s.callbackSet then none else some { s with initializeCallback := true, callbackSet := true }
  | .onConfigUpdate resources => some (s.onConfigUpdate resources)
  | .onConfigUpdateFailed => some s.onConfigUpdateFailed
  | .result host result =>
    if host ∈ s.healthChecker.activeSessions then some (s.onResult host result) else none
  | .setUnhealthyCrossThread host =>
    some (if host ∈ s.healthChecker.activeSessions then s.onResult host (.failure .passive) else s)
  | .outlierChangedState host failed =>
    some ({ s with failedOutlierCheck := Function.update s.failedOutlierCheck host failed } :
      EdsClusterImpl Address Locality).reloadHealthyHosts

/-! ## What is wanted -/

omit [DecidableEq Address] [LinearOrder Locality] in
def Unchecked (host : HostImpl Address Locality) : Prop :=
  (s.healthChecker.session host).results = []

omit [DecidableEq Address] [LinearOrder Locality] in
/-- The first answer has come, and of the hosts that it brought those that are still in the cluster
have had a result. -/
def IsReady : Prop :=
  ∃ hosts, s.firstAnswer = some hosts ∧ ∀ host ∈ hosts, host ∈ s.hostSet.hosts → ¬s.Unchecked host

omit [DecidableEq Address] [LinearOrder Locality] in
structure Initializes (s : EdsClusterImpl Address Locality) : Prop where
  safe : s.failed = false
  atMostOnce : s.callbackRuns ≤ 1
  whenReady : s.callbackSet = true → (s.callbackRuns = 1 ↔ s.IsReady)
  healthy : (s.callbackSet = true → s.callbackRuns = 1) →
    s.hostSet.healthyHosts = HostSet.createHealthyHostList s.healthy s.hostSet.hosts

omit [DecidableEq Address] [LinearOrder Locality] in
instance (s : EdsClusterImpl Address Locality) : DecidablePred s.Unchecked :=
  fun host => inferInstanceAs (Decidable ((s.healthChecker.session host).results = []))

def awaited : List (HostImpl Address Locality) :=
  if s.initializeCallback then
    (s.firstAnswer.getD []).filter fun host => host ∈ s.hostSet.hosts ∧ s.Unchecked host
  else []

/-- While the callback waits for hosts no other host has a result, and no update drops one of them.
The callback is set before the first answer. -/
def Regular : Event Address Locality → Prop
  | .setInitializedCb => s.firstAnswer = none
  | .onConfigUpdate [assignment] => assignment.clusterName = s.clusterName →
    ∀ newHosts ∈ assignment.newHosts s.nextTag, ∀ host ∈ s.awaited,
      ∃ new ∈ newHosts, new.1.address = host.address
  | .result host _ | .setUnhealthyCrossThread host =>
    host ∈ s.hostSet.hosts → s.awaited = [] ∨ host ∈ s.awaited
  | .onConfigUpdate _ | .onConfigUpdateFailed | .outlierChangedState _ _ => True

end Hosts

end EdsClusterImpl

end Meliproxy.Envoy.Upstream
