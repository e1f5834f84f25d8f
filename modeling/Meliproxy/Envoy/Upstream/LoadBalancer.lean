import Meliproxy.Envoy.Upstream.HostSet
import Meliproxy.Lib.Runs

/-!
# The round robin, random and least request load balancers

`upstream/load_balancer_impl.cc`. Runtime values, random draws and what the hosts report are free in
every call. A host list is picked from the lists of the host set with the structures for locality
routing, which are made anew with every update of the host set or of the local one.
-/

namespace Meliproxy.Envoy.Upstream

open Lib

/-- The runtime values under `upstream`, as `hostsToUse` and the others read them. -/
structure RuntimeValues where
  healthyPanicThreshold : Nat
  minClusterSize : Nat
  zoneRoutingEnabled : Bool
  weightEnabled : Bool

inductive LocalityRoutingState where
  | noLocalityRouting
  | localityDirect
  | localityResidual
  deriving DecidableEq

inductive LoadBalancerType where
  | roundRobin
  | leastRequest
  | random

/-- What a call of `chooseHost` reads: runtime values, the draws for the local locality, for another
one and for the hosts, the stat `max_host_weight`, and the weight and the active requests of a
host. -/
structure Call (Host : Type) where
  runtime : RuntimeValues
  drawLocal : Nat
  drawLocality : Nat
  drawFirst : Nat
  drawSecond : Nat
  maxHostWeight : Nat
  weight : Host → Nat
  rqActive : Host → Nat

variable {Host : Type}

def Call.weighted (call : Call Host) : Bool := call.maxHostWeight != 1 && call.runtime.weightEnabled

/-- The comparison of doubles is exact for numbers of hosts that occur. -/
def isGlobalPanic (hostSet : HostSet Host) (runtime : RuntimeValues) : Bool :=
  let globalPanicThreshold := min 100 runtime.healthyPanicThreshold
  if hostSet.hosts.isEmpty then 0 < globalPanicThreshold
  else 100 * hostSet.healthyHosts.length < globalPanicThreshold * hostSet.hosts.length

def calculateLocalityPercentage (hostsPerLocality : List (List Host)) : List Nat :=
  let totalHosts := (hostsPerLocality.map List.length).sum
  hostsPerLocality.map fun hosts => if 0 < totalHosts then 10000 * hosts.length / totalHosts else 0

/-- The residual capacities of further localities, added up from the one before. -/
def residualCapacities (capacity : Nat) : List (Nat × Nat) → List Nat
  | [] => []
  | (upstream, localPercentage) :: rest =>
    let capacity := if localPercentage < upstream then capacity + upstream - localPercentage else capacity
    capacity :: residualCapacities capacity rest

structure LoadBalancer (Host : Type) where
  hostSet : HostSet Host
  healthy : Host → Bool
  localHostSet : Option (HostSet Host)
  localityRoutingState : LocalityRoutingState
  localPercentToRoute : Nat
  residualCapacity : List Nat
  rrIndex : Nat
  lastHost : Option Host
  hitsLeft : Nat

namespace LoadBalancer

def create (hostSet : HostSet Host) (healthy : Host → Bool) (localHostSet : Option (HostSet Host)) :
    LoadBalancer Host where
  hostSet := hostSet
  healthy := healthy
  localHostSet := localHostSet
  localityRoutingState := .noLocalityRouting
  localPercentToRoute := 0
  residualCapacity := []
  rrIndex := 0
  lastHost := none
  hitsLeft := 0

variable (s : LoadBalancer Host)

def earlyExitNonLocalityRouting (localHostSet : HostSet Host) (runtime : RuntimeValues) : Bool :=
  s.hostSet.healthyHostsPerLocality.length < 2 ||
    (s.hostSet.healthyHostsPerLocality.headD []).isEmpty ||
    s.hostSet.healthyHostsPerLocality.length != localHostSet.healthyHostsPerLocality.length ||
    s.hostSet.healthyHosts.length < runtime.minClusterSize

/-- The callback of both host sets, for a balancer with a local one. -/
def regenerateLocalityRoutingStructures (runtime : RuntimeValues) : LoadBalancer Host :=
  match s.localHostSet with
  | none => s
  | some localHostSet =>
    if s.earlyExitNonLocalityRouting localHostSet runtime then
      { s with localityRoutingState := .noLocalityRouting }
    else
      let localPercentage := calculateLocalityPercentage localHostSet.healthyHostsPerLocality
      let upstreamPercentage := calculateLocalityPercentage s.hostSet.healthyHostsPerLocality
      if localPercentage.headD 0 ≤ upstreamPercentage.headD 0 then
        { s with localityRoutingState := .localityDirect }
      else
        { s with
          localityRoutingState := .localityResidual
          localPercentToRoute := upstreamPercentage.headD 0 * 10000 / localPercentage.headD 0
          residualCapacity :=
            0 :: residualCapacities 0 (upstreamPercentage.tail.zip localPercentage.tail) }

variable (call : Call Host)

def chooseLocality : Nat :=
  if s.localityRoutingState = .localityDirect then 0
  else if call.drawLocal % 10000 < s.localPercentToRoute then 0
  else
    let numberOfLocalities := s.hostSet.healthyHostsPerLocality.length
    let capacity := s.residualCapacity.getD (numberOfLocalities - 1) 0
    if capacity = 0 then call.drawLocality % numberOfLocalities
    else
      let threshold := call.drawLocality % capacity
      s.residualCapacity.findIdx fun capacity => threshold ≤ capacity

def tryChooseLocalLocalityHosts : List Host :=
  s.hostSet.healthyHostsPerLocality.getD (s.chooseLocality call) []

def usesLocality : Bool :=
  !isGlobalPanic s.hostSet call.runtime &&
    s.localityRoutingState != .noLocalityRouting && call.runtime.zoneRoutingEnabled &&
      match s.localHostSet with
      | none => false
      | some localHostSet => !isGlobalPanic localHostSet call.runtime

def hostsToUse : List Host :=
  if isGlobalPanic s.hostSet call.runtime then s.hostSet.hosts
  else if s.usesLocality call then s.tryChooseLocalLocalityHosts call
  else s.hostSet.healthyHosts

def drawHost (hosts : List Host) (draw : Nat) : Option Host := hosts[draw % hosts.length]?

def roundRobinChooseHost : Option Host × LoadBalancer Host :=
  let hostsToUse := s.hostsToUse call
  if hostsToUse.isEmpty then (none, s)
  else (drawHost hostsToUse s.rrIndex, { s with rrIndex := s.rrIndex + 1 })

def leastRequestChooseHost : Option Host × LoadBalancer Host :=
  if call.weighted && 0 < s.hitsLeft then (s.lastHost, { s with hitsLeft := s.hitsLeft - 1 })
  else
    let s : LoadBalancer Host := { s with hitsLeft := 0, lastHost := none }
    let hostsToUse := s.hostsToUse call
    if hostsToUse.isEmpty then (none, s)
    else if call.weighted then
      let lastHost := drawHost hostsToUse call.drawFirst
      (lastHost, { s with
        lastHost := lastHost
        hitsLeft := (lastHost.map call.weight).getD 0 - 1 })
    else
      match drawHost hostsToUse call.drawFirst, drawHost hostsToUse call.drawSecond with
      | some host₁, some host₂ =>
        (some (if call.rqActive host₁ < call.rqActive host₂ then host₁ else host₂), s)
      | _, _ => (none, s)

def randomChooseHost : Option Host × LoadBalancer Host :=
  let hostsToUse := s.hostsToUse call
  if hostsToUse.isEmpty then (none, s) else (drawHost hostsToUse call.drawFirst, s)

def chooseHost (type : LoadBalancerType) (s : LoadBalancer Host) (call : Call Host) :
    Option Host × LoadBalancer Host :=
  match type with
  | .roundRobin => s.roundRobinChooseHost call
  | .leastRequest => s.leastRequestChooseHost call
  | .random => s.randomChooseHost call

/-- The callback of the least request balancer, which is the only one that remembers a host. -/
def forgetHost [DecidableEq Host] (s : LoadBalancer Host) (hostsRemoved : List Host) :
    LoadBalancer Host :=
  match s.lastHost with
  | none => s
  | some lastHost =>
    if lastHost ∈ hostsRemoved then { s with hitsLeft := 0, lastHost := none } else s

/-- Updates of the host set with the lists of healthy hosts, also after a change of health, updates
of the local host set, and calls. -/
inductive Event (Host : Type) where
  | updateHosts (hosts : List Host) (hostsPerLocality : List (List Host)) (healthy : Host → Bool)
    (hostsRemoved : List Host) (runtime : RuntimeValues)
  | reloadHealthyHosts (healthy : Host → Bool) (runtime : RuntimeValues)
  | updateLocalHosts (localHostSet : HostSet Host) (runtime : RuntimeValues)
  | chooseHost (call : Call Host)

def updateHostSet [DecidableEq Host] (s : LoadBalancer Host) (hostSet : HostSet Host)
    (healthy : Host → Bool) (hostsRemoved : List Host) (runtime : RuntimeValues) : LoadBalancer Host :=
  (({ s with hostSet := hostSet, healthy := healthy } :
    LoadBalancer Host).regenerateLocalityRoutingStructures runtime).forgetHost hostsRemoved

def step [DecidableEq Host] (type : LoadBalancerType) (s : LoadBalancer Host) :
    Event Host → Option (LoadBalancer Host)
  | .updateHosts hosts hostsPerLocality healthy hostsRemoved runtime =>
    some (s.updateHostSet (.ofHosts healthy hosts hostsPerLocality) healthy hostsRemoved runtime)
  | .reloadHealthyHosts healthy runtime =>
    some (s.updateHostSet (s.hostSet.reloadHealthyHosts healthy) healthy [] runtime)
  | .updateLocalHosts localHostSet runtime =>
    if s.localHostSet.isSome then
      some (({ s with localHostSet := some localHostSet } :
        LoadBalancer Host).regenerateLocalityRoutingStructures runtime)
    else none
  | .chooseHost call => some (s.chooseHost type call).2

end LoadBalancer

end Meliproxy.Envoy.Upstream
