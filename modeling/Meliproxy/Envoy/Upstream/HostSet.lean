import Mathlib.Algebra.Order.BigOperators.Group.Finset
import Mathlib.Tactic.Ring

/-!
# Sets of hosts

`HostSetImpl` and the healthy lists of `upstream/upstream_impl.cc`. A host is a pointer, and
`healthy` says what its health flags are at the time.
-/

namespace Meliproxy.Envoy.Upstream

variable {Host : Type}

structure HostSet (Host : Type) where
  hosts : List Host
  healthyHosts : List Host
  hostsPerLocality : List (List Host)
  healthyHostsPerLocality : List (List Host)

namespace HostSet

def empty : HostSet Host := ⟨[], [], [], []⟩

variable (healthy : Host → Bool)

def createHealthyHostList (hosts : List Host) : List Host :=
  hosts.filter healthy

def createHealthyHostLists (hosts : List (List Host)) :
    List (List Host) := hosts.map (createHealthyHostList healthy)

def ofHosts (hosts : List Host) (hostsPerLocality : List (List Host)) : HostSet Host where
  hosts := hosts
  healthyHosts := createHealthyHostList healthy hosts
  hostsPerLocality := hostsPerLocality
  healthyHostsPerLocality := createHealthyHostLists healthy hostsPerLocality

def reloadHealthyHosts (s : HostSet Host) : HostSet Host :=
  ofHosts healthy s.hosts s.hostsPerLocality

end HostSet

end Meliproxy.Envoy.Upstream
