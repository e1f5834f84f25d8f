import Meliproxy.Envoy.Router.MetadataMatch
import Meliproxy.Envoy.Upstream.HostSet
import Meliproxy.Lib.Runs

/-!
# The subset load balancer

`upstream/subset_lb.cc`. The subsets are kept in a trie of entries, one level for each key of the
metadata of a host. An entry is a pointer to a place of `entries`, and `children` is the table of
the maps `children_` of all entries: the place 0 stands for the map `subsets_`.
-/

namespace Meliproxy.Envoy.Upstream

open Lib Config Router

/-- `LbSubsetConfig::LbSubsetFallbackPolicy`. -/
inductive FallbackPolicy where
  | noFallback
  | anyEndpoint
  | defaultSubset

/-- What a subset load balancer is made with: the subset configuration, the metadata of the hosts,
which never changes, and the hash of values. -/
structure SubsetConfig (Host : Type) where
  fallbackPolicy : FallbackPolicy
  defaultSubset : Struct
  subsetSelectors : List (List Bytes)
  metadata : Host → Metadata
  hash : Value → UInt64

/-- The filter name `envoy.lb`. -/
def envoyLb : Bytes := ascii "envoy.lb"

abbrev SubsetMetadata := List (Bytes × Value)

variable {Host : Type}

namespace SubsetConfig

variable (config : SubsetConfig Host)

/-- The constructor of `LoadBalancerSubsetInfoImpl`. The keys of a selector are put into a set. -/
def subsetKeys : List (List Bytes) :=
  (config.subsetSelectors.filter fun keys => !keys.isEmpty).map fun keys => sortBy id keys.dedup

/-- The loop of `extractSubsetMetadata`. -/
def extractKeys (fields : Struct) : List Bytes → SubsetMetadata
  | [] => []
  | key :: keys =>
    match fields.lookup key with
    | none => []
    | some value => (key, value) :: extractKeys fields keys

def extractSubsetMetadata (keys : List Bytes) (host : Host) : SubsetMetadata :=
  match (config.metadata host).lookup envoyLb with
  | none => []
  | some fields =>
    let kvs := extractKeys fields keys
    if kvs.length ≠ keys.length then [] else kvs

def hostMatches (kvs : SubsetMetadata) (host : Host) : Bool :=
  kvs.all fun kv =>
    match metadataValue (config.metadata host) envoyLb kv.1 with
    | none => false
    | some value => value.equal kv.2

def hostMatchesDefaultSubset (host : Host) : Bool :=
  config.hostMatches config.defaultSubset host

end SubsetConfig

/-- An entry of a map `children_`, with the pointer of the entry whose map it is. -/
structure Child where
  parent : Nat
  name : Bytes
  value : Value
  entry : Nat

/-- `LbSubsetEntry`, without its map. The history is in `kvs`, the names and values that lead to
the entry. -/
structure LbSubsetEntry (Host : Type) where
  kvs : SubsetMetadata
  hostSubset : Option (HostSet Host)

def LbSubsetEntry.active (entry : LbSubsetEntry Host) : Bool :=
  match entry.hostSubset with
  | none => false
  | some subset => !subset.hosts.isEmpty

/-- `HostSubsetImpl::update`, for the hosts of the original host set that are in the subset. -/
def HostSet.updateSubset (subset : HostSet Host) (original : HostSet Host) (healthy : Host → Bool)
    (hostsAdded hostsRemoved : List Host) (predicate : Host → Bool) : HostSet Host :=
  if (hostsAdded.filter predicate).isEmpty && (hostsRemoved.filter predicate).isEmpty then subset
  else
    .ofHosts healthy (original.hosts.filter predicate)
      (original.hostsPerLocality.map (List.filter predicate))

/-- `healthy` are the health flags at the last update, `lbSubsetsActive` and so on the stats. -/
structure SubsetLoadBalancer (Host : Type) where
  original : HostSet Host
  healthy : Host → Bool
  fallbackSubset : Option (HostSet Host)
  children : List Child
  entries : List (LbSubsetEntry Host)
  lbSubsetsActive : Int
  lbSubsetsCreated : Nat
  lbSubsetsRemoved : Nat

/-- The load balancer that `chooseHost` asks. -/
inductive Chosen (Host : Type) where
  | none
  | subset (hosts : HostSet Host)
  | fallback (hosts : HostSet Host)

namespace SubsetLoadBalancer

variable (config : SubsetConfig Host) (s : SubsetLoadBalancer Host)

def findChild (entry : Nat) (name : Bytes) (value : Value) : Option Nat :=
  (s.children.find? fun child =>
    child.parent == entry && child.name == name &&
      hashedEqual config.hash child.value value).map Child.entry

def findSubset (config : SubsetConfig Host) (s : SubsetLoadBalancer Host) :
    Nat → List MetadataMatchCriterion → Option Nat
  | _, [] => none
  | entry, criterion :: criteria =>
    match s.findChild config entry criterion.1 criterion.2 with
    | none => none
    | some entry => if criteria.isEmpty then some entry else s.findSubset config entry criteria

def kvs (s : SubsetLoadBalancer Host) (entry : Nat) : SubsetMetadata :=
  (s.entries[entry]?.map LbSubsetEntry.kvs).getD []

def createEntry (entry : Nat) (name : Bytes) (value : Value) : SubsetLoadBalancer Host :=
  { s with
    children := s.children ++ [⟨entry, name, value, s.entries.length⟩]
    entries := s.entries ++ [⟨s.kvs entry ++ [(name, value)], none⟩] }

def findOrCreateSubset (config : SubsetConfig Host) (s : SubsetLoadBalancer Host) (entry : Nat) :
    SubsetMetadata → SubsetLoadBalancer Host × Nat
  | [] => (s, entry)
  | (name, value) :: kvs =>
    match s.findChild config entry name value with
    | some child => s.findOrCreateSubset config child kvs
    | none => (s.createEntry entry name value).findOrCreateSubset config s.entries.length kvs

def hostSubset (s : SubsetLoadBalancer Host) (entry : Nat) : Option (HostSet Host) :=
  s.entries[entry]?.bind LbSubsetEntry.hostSubset

def active (s : SubsetLoadBalancer Host) (entry : Nat) : Bool :=
  (s.entries[entry]?.map LbSubsetEntry.active).getD false

def setHostSubset (entry : Nat) (subset : HostSet Host) : SubsetLoadBalancer Host :=
  { s with entries := s.entries.modify entry fun e => { e with hostSubset := some subset } }

def initLoadBalancer (predicate : Host → Bool) : HostSet Host :=
  HostSet.empty.updateSubset s.original s.healthy s.original.hosts [] predicate

def countCreated : SubsetLoadBalancer Host :=
  { s with
    lbSubsetsActive := s.lbSubsetsActive + 1
    lbSubsetsCreated := s.lbSubsetsCreated + 1 }

def countRemoved : SubsetLoadBalancer Host :=
  { s with
    lbSubsetsActive := s.lbSubsetsActive - 1
    lbSubsetsRemoved := s.lbSubsetsRemoved + 1 }

variable (hostsAdded hostsRemoved : List Host)

/-- The callback of `update` for an entry. -/
def updateEntry (entry : Nat)
    (predicate : Host → Bool) (addingHost : Bool) : SubsetLoadBalancer Host :=
  match s.hostSubset entry with
  | some subset =>
    let updated := s.setHostSubset entry
      (subset.updateSubset s.original s.healthy hostsAdded hostsRemoved predicate)
    if s.active entry && !updated.active entry then updated.countRemoved
    else if !s.active entry && updated.active entry then updated.countCreated
    else updated
  | none =>
    if addingHost then (s.setHostSubset entry (s.initLoadBalancer predicate)).countCreated else s

/-- What `processSubsets` does for a host and the keys of a subset. `modified` are the entries that
the callback was already invoked for. -/
def processSubset (state : SubsetLoadBalancer Host × List Nat) (visit : Host × List Bytes × Bool) :
    SubsetLoadBalancer Host × List Nat :=
  let (s, modified) := state
  let (host, keys, addingHosts) := visit
  let kvs := config.extractSubsetMetadata keys host
  if kvs.isEmpty then (s, modified)
  else
    let (s, entry) := s.findOrCreateSubset config 0 kvs
    if entry ∈ modified then (s, modified)
    else
      (s.updateEntry hostsAdded hostsRemoved entry (config.hostMatches kvs) addingHosts,
        entry :: modified)

def visits (hosts : List Host) (addingHosts : Bool) : List (Host × List Bytes × Bool) :=
  hosts.flatMap fun host => config.subsetKeys.map fun keys => (host, keys, addingHosts)

def processSubsets : SubsetLoadBalancer Host :=
  ((visits config hostsAdded true ++ visits config hostsRemoved false).foldl
    (processSubset config hostsAdded hostsRemoved) (s, [])).1

def fallbackPredicate : Option (Host → Bool) :=
  match config.fallbackPolicy with
  | .noFallback => none
  | .anyEndpoint => some fun _ => true
  | .defaultSubset => some config.hostMatchesDefaultSubset

def updateFallbackSubset : SubsetLoadBalancer Host :=
  match fallbackPredicate config with
  | none => s
  | some predicate =>
    match s.fallbackSubset with
    | none => { s with fallbackSubset := some (s.initLoadBalancer predicate) }
    | some subset =>
      { s with
        fallbackSubset := some
          (subset.updateSubset s.original s.healthy hostsAdded hostsRemoved predicate) }

def update : SubsetLoadBalancer Host :=
  (s.updateFallbackSubset config hostsAdded hostsRemoved).processSubsets config hostsAdded
    hostsRemoved

def create (original : HostSet Host) (healthy : Host → Bool) : SubsetLoadBalancer Host :=
  let s : SubsetLoadBalancer Host :=
    { original := original
      healthy := healthy
      fallbackSubset := none
      children := []
      entries := [⟨[], none⟩]
      lbSubsetsActive := 0
      lbSubsetsCreated := 0
      lbSubsetsRemoved := 0 }
  s.update config original.hosts []

/-- What the cluster does: new lists of hosts, or new lists of healthy hosts after a change of
health. -/
inductive Event (Host : Type) where
  | updateHosts (hosts : List Host) (hostsPerLocality : List (List Host)) (healthy : Host → Bool)
    (hostsAdded hostsRemoved : List Host)
  | reloadHealthyHosts (healthy : Host → Bool)

/-- The original host set is updated before its callbacks are called. -/
def setHosts (original : HostSet Host) (healthy : Host → Bool) :
    SubsetLoadBalancer Host := { s with original := original, healthy := healthy }

def step : Event Host → Option (SubsetLoadBalancer Host)
  | .updateHosts hosts hostsPerLocality healthy hostsAdded hostsRemoved =>
    some ((s.setHosts (.ofHosts healthy hosts hostsPerLocality) healthy).update config hostsAdded
      hostsRemoved)
  | .reloadHealthyHosts healthy =>
    some ((s.setHosts (s.original.reloadHealthyHosts healthy) healthy).update config [] [])

variable (criteria : Option (List MetadataMatchCriterion))

/-- An entry of a subset without hosts is as good as none. -/
def tryChooseHostFromContext : Option (HostSet Host) :=
  criteria.bind fun criteria =>
    (s.findSubset config 0 criteria).bind fun entry =>
      if s.active entry then s.hostSubset entry else none

def chooseHost : Chosen Host :=
  match s.tryChooseHostFromContext config criteria with
  | some hosts => .subset hosts
  | none =>
    match s.fallbackSubset with
    | none => .none
    | some hosts => .fallback hosts

end SubsetLoadBalancer

end Meliproxy.Envoy.Upstream
