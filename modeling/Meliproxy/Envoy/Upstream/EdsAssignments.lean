import Meliproxy.Envoy.Upstream.DynamicHostList
import Meliproxy.Lib.Sort

/-!
# What the hosts of an EDS cluster carry

`EdsClusterImpl::onConfigUpdate` of `upstream/eds.cc`, with and without a health checker, over the
updates that the cluster gets and any changes of health in between. A host whose address comes
again is kept: its weight is changed inline, while `metadata_` and `locality_` are `const`.
-/

namespace Meliproxy.Envoy.Upstream.EdsAssignments

open Lib List

/-- `address` is `none` where `resolveProtoAddress` throws. -/
structure LbEndpoint (Address Metadata : Type) where
  address : Option Address
  metadata : Metadata
  loadBalancingWeight : Nat
  deriving DecidableEq

structure LocalityLbEndpoints (Address Locality Metadata : Type) where
  locality : Locality
  lbEndpoints : List (LbEndpoint Address Metadata)

structure ClusterLoadAssignment (Address Locality Metadata : Type) where
  clusterName : String
  endpoints : List (LocalityLbEndpoints Address Locality Metadata)

/-- A host object that was made for an endpoint. -/
structure NewHost (Address Locality Metadata : Type) where
  host : HostImpl Address Locality
  weight : Nat
  metadata : Metadata

variable {Address Locality Metadata : Type}

def ClusterLoadAssignment.lbEndpoints
    (assignment : ClusterLoadAssignment Address Locality Metadata) :
    List (LbEndpoint Address Metadata × Locality) :=
  assignment.endpoints.flatMap fun localityLbEndpoint =>
    localityLbEndpoint.lbEndpoints.map fun lbEndpoint => (lbEndpoint, localityLbEndpoint.locality)

def newHosts : List (LbEndpoint Address Metadata × Locality) → Nat →
    Option (List (NewHost Address Locality Metadata))
  | [], _ => some []
  | (lbEndpoint, locality) :: endpoints, tag => do
    let address ← lbEndpoint.address
    let new : NewHost Address Locality Metadata :=
      ⟨⟨tag, address, locality⟩, hostWeight lbEndpoint.loadBalancingWeight, lbEndpoint.metadata⟩
    let news ← newHosts endpoints (tag + 1)
    some (new :: news)

/-- `localLocality` is `none` where the locality of the own node is empty. The metadata is that of
the host objects that there are. -/
structure EdsClusterImpl (Address Locality Metadata : Type) where
  clusterName : String
  localLocality : Option Locality
  hasHealthChecker : Bool
  hosts : List (HostImpl Address Locality)
  hostsPerLocality : List (List (HostImpl Address Locality))
  weight : HostImpl Address Locality → Nat
  metadata : HostImpl Address Locality → Metadata
  failedActiveHc : HostImpl Address Locality → Bool
  nextTag : Nat

namespace EdsClusterImpl

def create (clusterName : String) (localLocality : Option Locality) (hasHealthChecker : Bool)
    (defaultMetadata : Metadata) : EdsClusterImpl Address Locality Metadata where
  clusterName := clusterName
  localLocality := localLocality
  hasHealthChecker := hasHealthChecker
  hosts := []
  hostsPerLocality := []
  weight := fun _ => 1
  metadata := fun _ => defaultMetadata
  failedActiveHc := fun _ => false
  nextTag := 0

section NewHosts

variable {endpoints : List (LbEndpoint Address Metadata × Locality)} {tag : Nat}
  {news : List (NewHost Address Locality Metadata)}

/-- The host that the loop makes of an endpoint. -/
structure MadeFrom (endpoint : LbEndpoint Address Metadata × Locality)
    (new : NewHost Address Locality Metadata) : Prop where
  address : endpoint.1.address = some new.host.address
  weight : new.weight = hostWeight endpoint.1.loadBalancingWeight
  metadata : new.metadata = endpoint.1.metadata
  locality : new.host.locality = endpoint.2

theorem newHosts_cons {lbEndpoint : LbEndpoint Address Metadata} {locality : Locality}
    (h : newHosts ((lbEndpoint, locality) :: endpoints) tag = some news) :
    ∃ new rest, news = new :: rest ∧ new.host.tag = tag ∧ MadeFrom (lbEndpoint, locality) new ∧
      newHosts endpoints (tag + 1) = some rest := by
  rw [newHosts] at h
  obtain ⟨address, haddress, h⟩ := Option.bind_eq_some_iff.mp h
  obtain ⟨rest, hrest, h⟩ := Option.bind_eq_some_iff.mp h
  cases h
  exact ⟨_, rest, rfl, rfl, ⟨haddress, rfl, rfl, rfl⟩, hrest⟩

theorem newHosts_made (h : newHosts endpoints tag = some news) :
    List.Forall₂ MadeFrom endpoints news := by
  induction endpoints generalizing tag news with
  | nil =>
    cases h
    exact .nil
  | cons endpoint endpoints ih =>
    obtain ⟨new, rest, rfl, -, hmade, hrest⟩ := newHosts_cons h
    exact .cons hmade (ih hrest)

theorem newHosts_tags (h : newHosts endpoints tag = some news) :
    news.map (fun new => new.host.tag) = List.range' tag news.length := by
  induction endpoints generalizing tag news with
  | nil =>
    cases h
    rfl
  | cons endpoint endpoints ih =>
    obtain ⟨new, rest, rfl, htag, -, hrest⟩ := newHosts_cons h
    rw [map_cons, length_cons, range'_succ, htag, ih hrest]

theorem newHosts_isSome (h : ∀ endpoint ∈ endpoints, endpoint.1.address ≠ none) (tag : Nat) :
    ∃ news, newHosts endpoints tag = some news := by
  induction endpoints generalizing tag with
  | nil => exact ⟨[], rfl⟩
  | cons endpoint endpoints ih =>
    obtain ⟨address, haddress⟩ := Option.ne_none_iff_exists'.mp (h endpoint mem_cons_self)
    have hrest := fun other hother => h other (mem_cons_of_mem endpoint hother)
    obtain ⟨rest, hrest⟩ := ih hrest (tag + 1)
    rw [newHosts, haddress, Option.bind_eq_bind, Option.bind_some, hrest]
    exact ⟨_, rfl⟩

/-- New objects that are no hosts yet. -/
structure Fresh (nextTag : Nat) (news : List (NewHost Address Locality Metadata)) : Prop where
  nodup : (news.map NewHost.host).Nodup
  tags : ∀ new ∈ news, nextTag ≤ new.host.tag ∧ new.host.tag < nextTag + news.length

theorem newHosts_fresh (h : newHosts endpoints tag = some news) : Fresh tag news := by
  have htags := newHosts_tags h
  refine ⟨?_, fun new hnew => ?_⟩
  · refine List.Nodup.of_map HostImpl.tag ?_
    rw [map_map]
    exact htags ▸ nodup_range'
  · have hmem : new.host.tag ∈ List.range' tag news.length := htags ▸ mem_map_of_mem hnew
    simpa [mem_range'_1] using hmem

theorem made_addresses {endpoints : List (LbEndpoint Address Metadata × Locality)}
    {news : List (NewHost Address Locality Metadata)} (h : List.Forall₂ MadeFrom endpoints news) :
    (endpoints.map fun endpoint => endpoint.1.address) =
      (news.map fun new => new.host.address).map some := by
  induction h with
  | nil => rfl
  | cons hmade _ ih => rw [map_cons, map_cons, map_cons, ih, hmade.address]

end NewHosts

variable [DecidableEq Address] [LinearOrder Locality]

/-- The constructor of `HostDescriptionImpl` sets the metadata of the new objects. -/
def construct (metadata : HostImpl Address Locality → Metadata)
    (news : List (NewHost Address Locality Metadata)) : HostImpl Address Locality → Metadata :=
  news.foldl (fun metadata new => Function.update metadata new.host new.metadata) metadata

variable (s : EdsClusterImpl Address Locality Metadata)

def assignHosts
    (news : List (NewHost Address Locality Metadata)) : EdsClusterImpl Address Locality Metadata :=
  let u := updateDynamicHostList (news.map fun new => (new.host, new.weight)) s.hosts
    s.failedActiveHc s.weight s.hasHealthChecker
  let s := { s with
    weight := u.weight
    metadata := construct s.metadata news
    failedActiveHc := u.failedActiveHc
    nextTag := s.nextTag + news.length }
  if u.changed then
    { s with
      hosts := u.finalHosts
      hostsPerLocality := localityHosts s.localLocality u.finalHosts }
  else s

/-- An update that throws changes nothing. -/
def onConfigUpdate (resources : List (ClusterLoadAssignment Address Locality Metadata)) :
    EdsClusterImpl Address Locality Metadata :=
  match resources with
  | [assignment] =>
    if assignment.clusterName ≠ s.clusterName then s
    else
      match newHosts assignment.lbEndpoints s.nextTag with
      | some news => s.assignHosts news
      | none => s
  | _ => s

/-- The health checker may set and clear the flags of the hosts between two updates. -/
inductive Event (Address Locality Metadata : Type) where
  | onConfigUpdate (resources : List (ClusterLoadAssignment Address Locality Metadata))
  | healthFlags (failedActiveHc : HostImpl Address Locality → Bool)

def step : Event Address Locality Metadata → EdsClusterImpl Address Locality Metadata
  | .onConfigUpdate resources => s.onConfigUpdate resources
  | .healthFlags failedActiveHc => { s with failedActiveHc := failedActiveHc }

def run
    (events : List (Event Address Locality Metadata)) : EdsClusterImpl Address Locality Metadata :=
  events.foldl step s

/-! ## What is wanted -/

omit [DecidableEq Address] [LinearOrder Locality] in
/-- Every endpoint has an address, and no two have the same. -/
structure Valid (clusterName : String)
    (assignment : ClusterLoadAssignment Address Locality Metadata) : Prop where
  clusterName : assignment.clusterName = clusterName
  resolved : ∀ endpoint ∈ assignment.lbEndpoints, endpoint.1.address ≠ none
  distinct : (assignment.lbEndpoints.map fun endpoint => endpoint.1.address).Nodup

omit [DecidableEq Address] [LinearOrder Locality] in
/-- Every endpoint is a host with all that the assignment says of it. -/
def Mirrors (assignment : ClusterLoadAssignment Address Locality Metadata) : Prop :=
  ∀ endpoint ∈ assignment.lbEndpoints, ∃ host ∈ s.hosts, endpoint.1.address = some host.address ∧
    s.weight host = hostWeight endpoint.1.loadBalancingWeight ∧
    s.metadata host = endpoint.1.metadata ∧ host.locality = endpoint.2

/-- The host came with an endpoint of an update that had found no host at its address, and has been
in the cluster ever since. -/
def CameWith (start : EdsClusterImpl Address Locality Metadata)
    (events : List (Event Address Locality Metadata)) (host : HostImpl Address Locality)
    (endpoint : LbEndpoint Address Metadata × Locality) : Prop :=
  endpoint.1.address = some host.address ∧
    ∃ before assignment after, endpoint ∈ assignment.lbEndpoints ∧
      events = before ++ .onConfigUpdate [assignment] :: after ∧
      (∀ other ∈ (start.run before).hosts, other.address ≠ host.address) ∧
      ∀ since, since <+: after →
        host ∈ (start.run (before ++ .onConfigUpdate [assignment] :: since)).hosts

omit [DecidableEq Address] in
/-- `hostsPerLocality()` is empty if there is no local locality or no host in it, and otherwise has
the hosts by their localities, the local one first. -/
def LocalitiesCorrect : Prop :=
  (s.hostsPerLocality = [] ∧
    ∀ localLocality ∈ s.localLocality, ∀ host ∈ s.hosts, host.locality ≠ localLocality) ∨
  ∃ localLocality ∈ s.localLocality,
    GroupedBy HostImpl.locality localLocality s.hosts s.hostsPerLocality

section Construct

variable {news : List (NewHost Address Locality Metadata)}
  {metadata : HostImpl Address Locality → Metadata}

theorem construct_of_ne {host : HostImpl Address Locality} (h : ∀ new ∈ news, new.host ≠ host) :
    construct metadata news host = metadata host := by
  induction news generalizing metadata with
  | nil => rfl
  | cons new news ih =>
    rw [construct, foldl_cons]
    refine (ih fun other hother => h other (mem_cons_of_mem _ hother)).trans ?_
    exact Function.update_of_ne (h new mem_cons_self).symm ..

theorem construct_of_mem (hnodup : (news.map NewHost.host).Nodup)
    {new : NewHost Address Locality Metadata} (hnew : new ∈ news) :
    construct metadata news new.host = new.metadata := by
  induction news generalizing metadata with
  | nil => cases hnew
  | cons first news ih =>
    obtain ⟨hfirst, hnodup⟩ := nodup_cons.mp hnodup
    rw [construct, foldl_cons]
    rcases mem_cons.mp hnew with rfl | hnew
    · refine (construct_of_ne fun other hother heq => ?_).trans (Function.update_self ..)
      exact hfirst (heq ▸ mem_map_of_mem hother)
    · exact ih hnodup hnew

end Construct

section Update

variable {s : EdsClusterImpl Address Locality Metadata}
  {news : List (NewHost Address Locality Metadata)}

variable (s)

omit [DecidableEq Address] in
structure Inv : Prop where
  distinct : (s.hosts.map HostImpl.address).Nodup
  tags : ∀ host ∈ s.hosts, host.tag < s.nextTag
  perLocality : s.hostsPerLocality = localityHosts s.localLocality s.hosts

/-- What `assignHosts` makes of the list of hosts. -/
def listUpdate (news : List (NewHost Address Locality Metadata)) : HostListUpdate Address Locality
    :=
  updateDynamicHostList (news.map fun new => (new.host, new.weight)) s.hosts s.failedActiveHc
    s.weight s.hasHealthChecker

variable {s}

variable (news) in
theorem Inv.conserves (h : Inv s) : HostListUpdate.Conserves
    (news.map fun new => (new.host, new.weight)) s.hosts s.failedActiveHc s.weight
    s.hasHealthChecker (s.listUpdate news) :=
  updateDynamicHostList_conserves _ _ _ _ _ h.distinct

theorem assignHosts_of_changed (hchanged : (s.listUpdate news).changed = true) :
    s.assignHosts news = { s with
      weight := (s.listUpdate news).weight
      metadata := construct s.metadata news
      failedActiveHc := (s.listUpdate news).failedActiveHc
      nextTag := s.nextTag + news.length
      hosts := (s.listUpdate news).finalHosts
      hostsPerLocality := localityHosts s.localLocality (s.listUpdate news).finalHosts } :=
  if_pos hchanged

theorem assignHosts_of_same (hsame : (s.listUpdate news).changed = false) :
    s.assignHosts news = { s with
      weight := (s.listUpdate news).weight
      metadata := construct s.metadata news
      failedActiveHc := (s.listUpdate news).failedActiveHc
      nextTag := s.nextTag + news.length } :=
  if_neg (Bool.eq_false_iff.mp hsame)

/-- What an update does: the hosts that stay keep their metadata, and of the new ones those whose
addresses are new are added. -/
structure Assigned (s : EdsClusterImpl Address Locality Metadata)
    (news : List (NewHost Address Locality Metadata))
    (s' : EdsClusterImpl Address Locality Metadata) : Prop where
  named : (news.map fun new => new.host.address).Nodup → ∀ new ∈ news, ∃ host ∈ s'.hosts,
    host.address = new.host.address ∧ s'.weight host = new.weight
  origin : ∀ host ∈ s'.hosts, host ∈ s.hosts ∨
    (∃ new ∈ news, new.host = host) ∧ ∀ other ∈ s.hosts, other.address ≠ host.address
  kept : ∀ host ∈ s.hosts, s'.metadata host = s.metadata host
  made : ∀ new ∈ news, s'.metadata new.host = new.metadata

omit [LinearOrder Locality] in
theorem firstByAddress_of_nodup {news : List (HostImpl Address Locality × Nat)}
    (h : (news.map fun new => new.1.address).Nodup) : firstByAddress news = news := by
  induction news with
  | nil => rfl
  | cons new news ih =>
    obtain ⟨hnew, hnodup⟩ := nodup_cons.mp h
    rw [firstByAddress, ih hnodup, filter_eq_self.mpr]
    exact fun other hother => decide_eq_true fun heq =>
      hnew (mem_map.mpr ⟨other, hother, heq⟩)

variable (news) in
theorem Inv.assignHosts_hosts (h : Inv s) :
    (s.assignHosts news).hosts.Perm (s.listUpdate news).finalHosts := by
  cases hchanged : (s.listUpdate news).changed with
  | true => rw [assignHosts_of_changed hchanged]
  | false =>
    obtain ⟨hadded, hremoved⟩ := HostListUpdate.changed_eq_false_iff.mp hchanged
    have hperm := (h.conserves news).perm
    rw [hadded, hremoved, append_nil, append_nil] at hperm
    rw [assignHosts_of_same hchanged]
    exact hperm

theorem Inv.assignHosts (h : Inv s) (hfresh : Fresh s.nextTag news) : Inv (s.assignHosts news) := by
  have hconserves := h.conserves news
  cases hchanged : (s.listUpdate news).changed with
  | false =>
    rw [assignHosts_of_same hchanged]
    exact ⟨h.distinct, fun host hhost => Nat.lt_add_right _ (h.tags host hhost), h.perLocality⟩
  | true =>
    rw [assignHosts_of_changed hchanged]
    refine ⟨hconserves.distinct, fun host hhost => ?_, rfl⟩
    have hmem := hconserves.perm.mem_iff.mpr (mem_append_left _ hhost)
    rcases mem_append.mp hmem with hcurrent | hadded
    · exact Nat.lt_add_right _ (h.tags host hcurrent)
    · rw [hconserves.added] at hadded
      obtain ⟨pair, hpair, rfl⟩ := mem_map.mp (mem_filter.mp hadded).1
      obtain ⟨new, hnew, rfl⟩ := mem_map.mp (mem_firstByAddress hpair)
      exact (hfresh.tags new hnew).2

theorem assignHosts_weight : (s.assignHosts news).weight = (s.listUpdate news).weight := by
  cases hchanged : (s.listUpdate news).changed with
  | true => rw [assignHosts_of_changed hchanged]
  | false => rw [assignHosts_of_same hchanged]

theorem assignHosts_metadata (s : EdsClusterImpl Address Locality Metadata)
    (news : List (NewHost Address Locality Metadata)) :
    (s.assignHosts news).metadata = construct s.metadata news := by
  rw [assignHosts]
  split
  · rfl
  · rfl

theorem Inv.assigned (h : Inv s) (hfresh : Fresh s.nextTag news) :
    Assigned s news (s.assignHosts news) := by
  have hconserves := h.conserves news
  have hhosts := h.assignHosts_hosts news
  refine ⟨fun hdistinct new hnew => ?_, fun host hhost => ?_, fun host hhost => ?_,
    fun new hnew => ?_⟩
  · have hpair : (new.host, new.weight) ∈ firstByAddress
        (news.map fun new => (new.host, new.weight)) := by
      have hpairs : ((news.map fun new => (new.host, new.weight)).map
          fun new => new.1.address).Nodup := by
        rw [map_map]
        exact hdistinct
      rw [firstByAddress_of_nodup hpairs]
      exact mem_map_of_mem hnew
    rw [assignHosts_weight]
    by_cases hold : ∃ host ∈ s.hosts, host.address = new.host.address
    · obtain ⟨host, hhost, haddress⟩ := hold
      obtain ⟨hfinal, hweight⟩ := hconserves.kept host hhost _ hpair haddress
      exact ⟨host, hhosts.mem_iff.mpr hfinal, haddress, hweight⟩
    · have hadded : new.host ∈ (s.listUpdate news).hostsAdded := by
        rw [hconserves.added, mem_filter]
        exact ⟨mem_map_of_mem hpair,
          decide_eq_true fun hmem => hold (mem_map.mp hmem)⟩
      have hmem := hconserves.perm.mem_iff.mp (mem_append_right s.hosts hadded)
      have hfinal : new.host ∈ (s.listUpdate news).finalHosts := by
        refine (mem_append.mp hmem).resolve_right fun hremoved => hold ?_
        rw [hconserves.removed] at hremoved
        exact ⟨new.host, (mem_filter.mp hremoved).1, rfl⟩
      exact ⟨new.host, hhosts.mem_iff.mpr hfinal, rfl, hconserves.addedWeight _ hpair hadded⟩
  · have hmem := hconserves.perm.mem_iff.mpr
      (mem_append_left _ (hhosts.mem_iff.mp hhost))
    refine (mem_append.mp hmem).imp_right fun hadded => ?_
    rw [hconserves.added] at hadded
    obtain ⟨hadded, hnot⟩ := mem_filter.mp hadded
    obtain ⟨pair, hpair, rfl⟩ := mem_map.mp hadded
    obtain ⟨new, hnew, rfl⟩ := mem_map.mp (mem_firstByAddress hpair)
    refine ⟨⟨new, hnew, rfl⟩, fun other hother heq => ?_⟩
    exact of_decide_eq_true hnot (mem_map.mpr ⟨other, hother, heq⟩)
  · rw [assignHosts_metadata]
    refine construct_of_ne fun new hnew heq => ?_
    exact absurd (h.tags host hhost) (Nat.not_lt.mpr (heq ▸ (hfresh.tags new hnew).1))
  · rw [assignHosts_metadata]
    exact construct_of_mem hfresh.nodup hnew

end Update

section Runs

variable {s start : EdsClusterImpl Address Locality Metadata}
  {events : List (Event Address Locality Metadata)} {host : HostImpl Address Locality}

theorem onConfigUpdate_cases (s : EdsClusterImpl Address Locality Metadata)
    (resources : List (ClusterLoadAssignment Address Locality Metadata)) :
    s.onConfigUpdate resources = s ∨ ∃ assignment news, resources = [assignment] ∧
      newHosts assignment.lbEndpoints s.nextTag = some news ∧
      s.onConfigUpdate resources = s.assignHosts news := by
  match resources with
  | [] => exact .inl rfl
  | _ :: _ :: _ => exact .inl rfl
  | [assignment] =>
    rw [onConfigUpdate]
    split
    · exact .inl rfl
    · cases hnews : newHosts assignment.lbEndpoints s.nextTag with
      | none => exact .inl rfl
      | some news => exact .inr ⟨assignment, news, rfl, hnews, rfl⟩

theorem onConfigUpdate_of_valid {assignment : ClusterLoadAssignment Address Locality Metadata}
    (h : Valid s.clusterName assignment) : ∃ news,
      newHosts assignment.lbEndpoints s.nextTag = some news ∧
      s.onConfigUpdate [assignment] = s.assignHosts news := by
  obtain ⟨news, hnews⟩ := newHosts_isSome h.resolved s.nextTag
  refine ⟨news, hnews, ?_⟩
  rw [onConfigUpdate, if_neg (not_not.mpr h.clusterName), hnews]

theorem Inv.step (h : Inv s) (event : Event Address Locality Metadata) : Inv (s.step event) := by
  cases event with
  | healthFlags failedActiveHc => exact { h with }
  | onConfigUpdate resources =>
    rcases onConfigUpdate_cases s resources with hsame | ⟨assignment, news, -, hnews, hassign⟩
    · rw [EdsClusterImpl.step, hsame]
      exact h
    · rw [EdsClusterImpl.step, hassign]
      exact h.assignHosts (newHosts_fresh hnews)

omit [DecidableEq Address] in
theorem inv_create (clusterName : String) (localLocality : Option Locality)
    (hasHealthChecker : Bool) (defaultMetadata : Metadata) :
    Inv (create clusterName localLocality hasHealthChecker defaultMetadata :
      EdsClusterImpl Address Locality Metadata) := by
  refine ⟨nodup_nil, nofun, ?_⟩
  cases localLocality with
  | none => rfl
  | some localLocality => simp [create, localityHosts]

theorem run_concat (s : EdsClusterImpl Address Locality Metadata)
    (events : List (Event Address Locality Metadata)) (event : Event Address Locality Metadata) :
    s.run (events ++ [event]) = (s.run events).step event := by
  rw [run, foldl_append]
  rfl

theorem Inv.run (h : Inv s) (events : List (Event Address Locality Metadata)) :
    Inv (s.run events) := by
  induction events generalizing s with
  | nil => exact h
  | cons event events ih => exact ih (h.step event)

variable (s)

theorem step_clusterName (event : Event Address Locality Metadata) : (s.step event).clusterName =
    s.clusterName := by
  cases event with
  | healthFlags failedActiveHc => rfl
  | onConfigUpdate resources =>
    rcases onConfigUpdate_cases s resources with hsame | ⟨assignment, news, -, -, hassign⟩
    · exact congrArg clusterName hsame
    · refine (congrArg clusterName hassign).trans ?_
      rw [assignHosts]
      split
      · rfl
      · rfl

theorem run_clusterName (events : List (Event Address Locality Metadata)) :
    (s.run events).clusterName = s.clusterName := by
  induction events generalizing s with
  | nil => rfl
  | cons event events ih => exact (ih (s.step event)).trans (step_clusterName s event)

variable {s}

variable {event : Event Address Locality Metadata}

theorem step_hosts (h : Inv s) (hhost : host ∈ (s.step event).hosts) :
    (host ∈ s.hosts ∧ (s.step event).metadata host = s.metadata host) ∨
    ∃ assignment endpoint, event = .onConfigUpdate [assignment] ∧
      endpoint ∈ assignment.lbEndpoints ∧ MadeFrom endpoint
        ⟨host, hostWeight endpoint.1.loadBalancingWeight, (s.step event).metadata host⟩ ∧
      ∀ other ∈ s.hosts, other.address ≠ host.address := by
  cases event with
  | healthFlags failedActiveHc => exact .inl ⟨hhost, rfl⟩
  | onConfigUpdate resources =>
    rcases onConfigUpdate_cases s resources with hsame | ⟨assignment, news, rfl, hnews, hassign⟩
    · rw [EdsClusterImpl.step, hsame] at hhost ⊢
      exact .inl ⟨hhost, rfl⟩
    · have hassigned := h.assigned (newHosts_fresh hnews)
      rw [EdsClusterImpl.step, hassign] at hhost ⊢
      rcases hassigned.origin host hhost with hold | ⟨⟨new, hnew, rfl⟩, hnone⟩
      · exact .inl ⟨hold, hassigned.kept host hold⟩
      · obtain ⟨endpoint, hendpoint, hmade⟩ := related_mem (newHosts_made hnews).flip hnew
        refine .inr ⟨assignment, endpoint, rfl, hendpoint, ?_, hnone⟩
        rw [hassigned.made new hnew]
        exact { hmade with weight := rfl }

theorem CameWith.concat {endpoint : LbEndpoint Address Metadata × Locality}
    (h : CameWith start events host endpoint) (hhost : host ∈ (start.run (events ++ [event])).hosts)
    : CameWith start (events ++ [event]) host endpoint := by
  obtain ⟨haddress, before, assignment, after, hendpoint, rfl, hnone, hsince⟩ := h
  refine ⟨haddress, before, assignment, after ++ [event], hendpoint, ?_, hnone, ?_⟩
  · rw [append_assoc, cons_append]
  · intro since hprefix
    rcases prefix_concat_iff.mp hprefix with rfl | hprefix
    · rw [append_assoc, cons_append] at hhost
      exact hhost
    · exact hsince since hprefix

/-- Every host came with an endpoint that had its metadata and its locality. -/
theorem run_cameWith (hstart : Inv start) (hempty : start.hosts = [])
    (events : List (Event Address Locality Metadata)) :
    ∀ host ∈ (start.run events).hosts, ∃ endpoint, CameWith start events host endpoint ∧
      (start.run events).metadata host = endpoint.1.metadata ∧ host.locality = endpoint.2 := by
  induction events using List.reverseRecOn with
  | nil =>
    intro host hhost
    rw [run, foldl_nil, hempty] at hhost
    cases hhost
  | append_singleton events event ih =>
    intro host hhost
    have hstep := hhost
    rw [run_concat] at hstep ⊢
    rcases step_hosts (hstart.run events) hstep with ⟨hold, hmetadata⟩ |
      ⟨assignment, endpoint, rfl, hendpoint, hmade, hnone⟩
    · obtain ⟨endpoint, hcame, hmeta, hlocality⟩ := ih host hold
      exact ⟨endpoint, hcame.concat hhost, hmetadata.trans hmeta, hlocality⟩
    · refine ⟨endpoint, ⟨hmade.address, events, assignment, [], hendpoint, rfl, hnone, ?_⟩,
        hmade.metadata, hmade.locality⟩
      intro since hprefix
      rw [prefix_nil.mp hprefix]
      exact hhost

omit [DecidableEq Address] in
theorem localityHosts_grouped {localLocality : Locality} {hosts : List (HostImpl Address Locality)}
    (hhost : host ∈ hosts) (hlocal : host.locality = localLocality) :
    GroupedBy HostImpl.locality localLocality hosts (localityHosts (some localLocality) hosts) := by
  rw [localityHosts]
  generalize hsorted : ((hosts.map HostImpl.locality).dedup.mergeSort fun a b => a ≤ b) = localities
  have hmem (locality : Locality) :
      locality ∈ localities ↔ locality ∈ hosts.map HostImpl.locality := by
    rw [← hsorted, mem_mergeSort, mem_dedup]
  have hnodup : localities.Nodup := by
    rw [← hsorted, (mergeSort_perm _ _).nodup_iff]
    exact nodup_dedup _
  have hfirst : localLocality ∈ localities :=
    (hmem localLocality).mpr (hlocal ▸ mem_map_of_mem hhost)
  rw [if_pos hfirst]
  refine groupedBy_map (nodup_cons.mpr ⟨fun h => ?_, hnodup.filter _⟩) fun locality => ?_
  · exact of_decide_eq_true (mem_filter.mp h).2 rfl
  · rw [← hmem, mem_cons, mem_filter, decide_eq_true_iff]
    by_cases heq : locality = localLocality
    · simp [heq, hfirst]
    · simp [heq]

omit [DecidableEq Address] in
theorem Inv.localitiesCorrect (h : Inv s) : LocalitiesCorrect s := by
  rw [LocalitiesCorrect, h.perLocality]
  cases s.localLocality with
  | none => exact .inl ⟨rfl, nofun⟩
  | some localLocality =>
    by_cases hlocal : ∃ host ∈ s.hosts, host.locality = localLocality
    · obtain ⟨host, hhost, hlocal⟩ := hlocal
      exact .inr ⟨localLocality, rfl, localityHosts_grouped hhost hlocal⟩
    · refine .inl ⟨?_, ?_⟩
      · rw [localityHosts]
        refine if_neg fun hmem => hlocal ?_
        rw [mem_mergeSort, mem_dedup] at hmem
        exact mem_map.mp hmem
      · intro _ hsome host hhost heq
        exact hlocal ⟨host, hhost, heq.trans (Option.some.inj hsome).symm⟩

end Runs

section Latest

variable {s : EdsClusterImpl Address Locality Metadata}
  {assignment : ClusterLoadAssignment Address Locality Metadata}

/-- The weights are always those of the latest assignment. -/
theorem Inv.latestWeights (h : Inv s) (hvalid : Valid s.clusterName assignment)
    {endpoint : LbEndpoint Address Metadata × Locality} (hmem : endpoint ∈ assignment.lbEndpoints) :
    ∃ host ∈ (s.onConfigUpdate [assignment]).hosts, endpoint.1.address = some host.address ∧
      (s.onConfigUpdate [assignment]).weight host = hostWeight endpoint.1.loadBalancingWeight := by
  obtain ⟨news, hnews, hassign⟩ := onConfigUpdate_of_valid hvalid
  have hmade := newHosts_made hnews
  have hdistinct : (news.map fun new => new.host.address).Nodup :=
    List.Nodup.of_map some (made_addresses hmade ▸ hvalid.distinct)
  obtain ⟨new, hnew, hfrom⟩ := related_mem hmade hmem
  obtain ⟨host, hhost, haddress, hweight⟩ :=
    (h.assigned (newHosts_fresh hnews)).named hdistinct new hnew
  rw [hassign]
  exact ⟨host, hhost, haddress ▸ hfrom.address, hweight.trans hfrom.weight⟩

/-- The metadata and the localities are those of the latest assignment where the hosts that were
there had them already. -/
theorem Inv.mirrors_iff (h : Inv s) (hvalid : Valid s.clusterName assignment) :
    Mirrors (s.onConfigUpdate [assignment]) assignment ↔
      ∀ endpoint ∈ assignment.lbEndpoints, ∀ host ∈ s.hosts,
        endpoint.1.address = some host.address →
          s.metadata host = endpoint.1.metadata ∧ host.locality = endpoint.2 := by
  obtain ⟨news, hnews, hassign⟩ := onConfigUpdate_of_valid hvalid
  have hassigned := h.assigned (newHosts_fresh hnews)
  rw [← hassign] at hassigned
  constructor
  · intro hmirrors endpoint hmem old hold haddress
    obtain ⟨host, hhost, hsame, -, hmetadata, hlocality⟩ := hmirrors endpoint hmem
    have heq : old.address = host.address := Option.some.inj (haddress.symm.trans hsame)
    rcases hassigned.origin host hhost with hcurrent | ⟨-, hnone⟩
    · obtain rfl := inj_on_of_nodup_map h.distinct hold hcurrent heq
      exact ⟨(hassigned.kept old hold).symm.trans hmetadata, hlocality⟩
    · exact absurd heq (hnone old hold)
  · intro hsame endpoint hmem
    obtain ⟨host, hhost, haddress, hweight⟩ := h.latestWeights hvalid hmem
    refine ⟨host, hhost, haddress, hweight, ?_⟩
    rcases hassigned.origin host hhost with hcurrent | ⟨⟨new, hnew, rfl⟩, -⟩
    · rw [hassigned.kept host hcurrent]
      exact hsame endpoint hmem host hcurrent haddress
    · obtain ⟨other, hother, hmade⟩ := related_mem (newHosts_made hnews).flip hnew
      obtain rfl := inj_on_of_nodup_map hvalid.distinct hother hmem
        (hmade.address.trans haddress.symm)
      rw [hassigned.made new hnew]
      exact ⟨hmade.metadata, hmade.locality⟩

end Latest

/-- After each valid update of a run every endpoint is a host with the weight of the assignment, and
with the metadata and the locality of the endpoint that the host came with. -/
theorem run_latest (clusterName : String) (localLocality : Option Locality)
    (hasHealthChecker : Bool) (defaultMetadata : Metadata)
    (events : List (Event Address Locality Metadata))
    (assignment : ClusterLoadAssignment Address Locality Metadata)
    (hvalid : Valid clusterName assignment) :
    let start := create clusterName localLocality hasHealthChecker defaultMetadata
    let events := events ++ [.onConfigUpdate [assignment]]
    let s := start.run events
    (∀ endpoint ∈ assignment.lbEndpoints, ∃ host ∈ s.hosts,
      endpoint.1.address = some host.address ∧
      s.weight host = hostWeight endpoint.1.loadBalancingWeight ∧
      ∃ origin, CameWith start events host origin ∧
        s.metadata host = origin.1.metadata ∧ host.locality = origin.2) ∧
    (s.hosts.map HostImpl.address).Nodup ∧ LocalitiesCorrect s := by
  intro start all s
  have hstart : Inv start := inv_create ..
  have hinv : Inv s := hstart.run all
  refine ⟨fun endpoint hmem => ?_, hinv.distinct, hinv.localitiesCorrect⟩
  have hname : Valid (start.run events).clusterName assignment := by
    rw [run_clusterName]
    exact hvalid
  obtain ⟨host, hhost, haddress, hweight⟩ := (hstart.run events).latestWeights hname hmem
  have hs : s = (start.run events).onConfigUpdate [assignment] := run_concat ..
  rw [← hs] at hhost hweight
  exact ⟨host, hhost, haddress, hweight, run_cameWith hstart rfl all host hhost⟩

def firstAssignment : ClusterLoadAssignment Nat Nat Nat := ⟨"eds", [⟨1, [⟨some 7, 5, 10⟩]⟩]⟩

/-- The endpoint that is there has moved, and a new one has a weight of 0. -/
def secondAssignment : ClusterLoadAssignment Nat Nat Nat :=
  ⟨"eds", [⟨2, [⟨some 7, 6, 20⟩]⟩, ⟨1, [⟨some 8, 9, 0⟩]⟩]⟩

theorem run_latest_kept :
    let start := create "eds" (some 1) false 0
    let events := [.onConfigUpdate [firstAssignment]] ++ [.onConfigUpdate [secondAssignment]]
    let s := start.run events
    s.hosts = [⟨0, 7, 1⟩, ⟨2, 8, 1⟩] ∧ s.metadata ⟨0, 7, 1⟩ = 5 ∧
    (∀ endpoint ∈ secondAssignment.lbEndpoints, ∃ host ∈ s.hosts,
      endpoint.1.address = some host.address ∧
      s.weight host = hostWeight endpoint.1.loadBalancingWeight ∧
      ∃ origin, CameWith start events host origin ∧
        s.metadata host = origin.1.metadata ∧ host.locality = origin.2) ∧
    (s.hosts.map HostImpl.address).Nodup ∧ LocalitiesCorrect s :=
  ⟨by decide, by decide, run_latest "eds" (some 1) false 0 [.onConfigUpdate [firstAssignment]]
    secondAssignment ⟨rfl, by decide, by decide⟩⟩

/-- An endpoint that moves to another locality with other metadata. -/
theorem moved_endpoint :
    let first : ClusterLoadAssignment Nat Nat Nat := ⟨"eds", [⟨1, [⟨some 7, 5, 10⟩]⟩]⟩
    let second : ClusterLoadAssignment Nat Nat Nat := ⟨"eds", [⟨2, [⟨some 7, 6, 20⟩]⟩]⟩
    let s := (create "eds" (some 1) false 0).run
      [.onConfigUpdate [first], .onConfigUpdate [second]]
    Valid "eds" first ∧ Valid "eds" second ∧ ¬ Mirrors s second ∧ s.hosts = [⟨0, 7, 1⟩] ∧
      s.hostsPerLocality = [[⟨0, 7, 1⟩]] ∧ s.weight ⟨0, 7, 1⟩ = 20 ∧ s.metadata ⟨0, 7, 1⟩ = 5 := by
  intro first second s
  have hhosts : s.hosts = [⟨0, 7, 1⟩] := by decide
  refine ⟨⟨rfl, by decide, by decide⟩, ⟨rfl, by decide, by decide⟩, fun h => ?_, hhosts, ?_,
    by decide, by decide⟩
  · obtain ⟨host, hhost, -, -, -, hlocality⟩ := h (⟨some 7, 6, 20⟩, 2) (by decide)
    rw [hhosts] at hhost
    obtain rfl := mem_singleton.mp hhost
    cases hlocality
  · have hinv : Inv s := (inv_create ..).run _
    rw [hinv.perLocality, hhosts]
    show localityHosts (some 1) [⟨0, 7, 1⟩] = _
    simp [localityHosts]

/-- A valid update of a run is mirrored if and only if no endpoint has moved or has other metadata
than the host that is there. A host keeps both from the endpoint that it came with. -/
theorem run_mirrors_iff (clusterName : String) (localLocality : Option Locality)
    (hasHealthChecker : Bool) (defaultMetadata : Metadata)
    (events : List (Event Address Locality Metadata))
    (assignment : ClusterLoadAssignment Address Locality Metadata)
    (hvalid : Valid clusterName assignment) :
    let start := create clusterName localLocality hasHealthChecker defaultMetadata
    let s := start.run events
    let s' := s.onConfigUpdate [assignment]
    (Mirrors s' assignment ↔
      ∀ endpoint ∈ assignment.lbEndpoints, ∀ host ∈ s.hosts,
        endpoint.1.address = some host.address →
          s.metadata host = endpoint.1.metadata ∧ host.locality = endpoint.2) ∧
    ∀ host ∈ s'.hosts, ∃ origin,
      CameWith start (events ++ [.onConfigUpdate [assignment]]) host origin ∧
        s'.metadata host = origin.1.metadata ∧ host.locality = origin.2 := by
  intro start s s'
  have hstart : Inv start := inv_create ..
  refine ⟨(hstart.run events).mirrors_iff (by rw [run_clusterName]; exact hvalid), ?_⟩
  have hcame := run_cameWith hstart rfl (events ++ [.onConfigUpdate [assignment]])
  rw [run_concat] at hcame
  exact hcame

theorem run_mirrors_iff_reweighted :
    let start := create "eds" (some 1) false 0
    let s := start.run [.onConfigUpdate [firstAssignment]]
    let assignment := ⟨"eds", [⟨1, [⟨some 7, 5, 20⟩]⟩]⟩
    Mirrors (s.onConfigUpdate [assignment]) assignment ∧
    ∀ host ∈ (s.onConfigUpdate [assignment]).hosts, ∃ origin,
      CameWith start ([.onConfigUpdate [firstAssignment]] ++ [.onConfigUpdate [assignment]])
        host origin ∧
        (s.onConfigUpdate [assignment]).metadata host = origin.1.metadata ∧
        host.locality = origin.2 := by
  intro start s assignment
  obtain ⟨hmirrors, hcame⟩ := run_mirrors_iff "eds" (some 1) false 0
    [.onConfigUpdate [firstAssignment]] assignment ⟨rfl, by decide, by decide⟩
  exact ⟨hmirrors.mpr (by decide), hcame⟩

end EdsClusterImpl
end Meliproxy.Envoy.Upstream.EdsAssignments
