import Meliproxy.Envoy.Upstream.EdsAssignments

/-!
# Load reports

`LoadStatsReporter` of `upstream/load_stats_reporter.cc`: the requests that completed on the hosts
of the tracked clusters are counted, a report takes the counts of the hosts that
`hostsPerLocality()` lists, and a response those of all hosts.
-/

namespace Meliproxy.Envoy.Upstream.LoadStats

open Lib List Option

inductive Outcome where
  | success
  | error
  deriving DecidableEq

variable {Address Locality : Type}

structure Cluster (Address Locality : Type) where
  eds : Bool
  hosts : List (HostImpl Address Locality)
  hostsPerLocality : List (List (HostImpl Address Locality))

/-- `totalRequests` are `total_successful_requests` and `total_error_requests`. -/
structure UpstreamLocalityStats (Locality : Type) where
  locality : Option Locality
  totalRequests : Outcome → Nat
  totalRequestsInProgress : Nat

structure ClusterStats (Locality : Type) where
  clusterName : String
  upstreamLocalityStats : List (UpstreamLocalityStats Locality)
  totalDroppedRequests : Nat

def ClusterStats.sum (stats : ClusterStats Locality) (outcome : Outcome) : Nat :=
  (stats.upstreamLocalityStats.map fun entry => entry.totalRequests outcome).sum

/-- `reported` is what a report has for a tracked cluster, with the hosts it had at that time. -/
inductive Happened (Address Locality : Type) where
  | completed (host : HostImpl Address Locality) (outcome : Outcome)
  | reported (clusterName : String) (stats : Option (ClusterStats Locality))
    (hosts : List (HostImpl Address Locality))
  | reset (clusterName : String)

abbrev Pending (Address Locality : Type) := HostImpl Address Locality → Outcome → Nat

/-- `pending` is what the counters hold since `latch` was last called. `created`, `tracked`, which are
the clusters of the last response, and `history`, the newest first, are for the proofs only. -/
structure Reporter (Address Locality : Type) where
  cmClusters : String → Option (Cluster Address Locality)
  pending : Pending Address Locality
  rqActive : HostImpl Address Locality → Nat
  upstreamRqDropped : String → Nat
  clusters : List String
  request : List (ClusterStats Locality)
  stream : Bool
  responseTimer : Bool
  retryTimer : Bool
  created : List (HostImpl Address Locality)
  tracked : List String
  history : List (Happened Address Locality)

variable [DecidableEq Address] [LinearOrder Locality]

/-! ## The reporter -/

/-- The sum of what `latch` gives for each host, which is nothing for one that comes again. -/
def latchHosts (pending : Pending Address Locality) (hosts : List (HostImpl Address Locality)) :
    (Outcome → Nat) × Pending Address Locality :=
  (fun outcome => (hosts.dedup.map fun host => pending host outcome).sum,
    fun host outcome => if host ∈ hosts then 0 else pending host outcome)

def localityStats (rqActive : HostImpl Address Locality → Nat)
    (pending : Pending Address Locality) : List (List (HostImpl Address Locality)) →
      List (UpstreamLocalityStats Locality) × Pending Address Locality
  | [] => ([], pending)
  | hosts :: groups =>
    let (total, latched) := latchHosts pending hosts
    let (entries, rest) := localityStats rqActive latched groups
    (⟨hosts.head?.map HostImpl.locality, total, (hosts.map rqActive).sum⟩ :: entries, rest)

namespace Reporter

variable (s : Reporter Address Locality)

def addClusterStats (clusterName : String) : Reporter Address Locality :=
  match s.cmClusters clusterName with
  | none => s
  | some cluster =>
    let (entries, pending) := localityStats s.rqActive s.pending cluster.hostsPerLocality
    { s with
      pending
      upstreamRqDropped := Function.update s.upstreamRqDropped clusterName 0
      request := s.request ++ [⟨clusterName, entries, s.upstreamRqDropped clusterName⟩] }

def sendLoadStatsRequest : Reporter Address Locality :=
  s.clusters.foldl addClusterStats { s with request := [] }

omit [DecidableEq Address] [LinearOrder Locality] in
def handleFailure : Reporter Address Locality :=
  { s with retryTimer := true }

/-- `started` is whether the client gives a stream. -/
def establishNewStream (started : Bool) : Reporter Address Locality :=
  if started then sendLoadStatsRequest { s with stream := true }
  else handleFailure { s with stream := false }

def resetCluster (clusterName : String) : Reporter Address Locality :=
  match s.cmClusters clusterName with
  | none => s
  | some cluster =>
    { s with
      pending := (latchHosts s.pending cluster.hosts).2
      upstreamRqDropped := Function.update s.upstreamRqDropped clusterName 0 }

def onReceiveMessage (clusters : List String) : Reporter Address Locality :=
  { clusters.foldl resetCluster s with clusters, responseTimer := true }

omit [DecidableEq Address] [LinearOrder Locality] in
def onRemoteClose : Reporter Address Locality :=
  handleFailure { s with responseTimer := false, stream := false }

/-- Before any cluster was added. -/
def new (started : Bool) : Reporter Address Locality :=
  establishNewStream ⟨fun _ => none, fun _ _ => 0, fun _ => 0, fun _ => 0, [], [], false, false,
    false, [], [], []⟩ started

end Reporter

/-! ## Runs -/

inductive Event (Address Locality : Type) where
  | completed (host : HostImpl Address Locality) (outcome : Outcome)
  | active (host : HostImpl Address Locality) (rqActive : Nat)
  | dropped (clusterName : String)
  | addCluster (clusterName : String) (eds : Bool)
  | removeCluster (clusterName : String)
  | updateHosts (clusterName : String) (hosts : List (HostImpl Address Locality))
  | onReceiveMessage (clusters : List String)
  | onResponseTimer
  | onRemoteClose
  | onRetryTimer (started : Bool)

/-- The tracked clusters that exist, with their hosts. -/
def Reporter.hostsOf (s : Reporter Address Locality) (clusterNames : List String) :
    List (String × List (HostImpl Address Locality)) :=
  clusterNames.filterMap fun clusterName =>
    (s.cmClusters clusterName).map fun cluster => (clusterName, cluster.hosts)

/-- A report has the clusters in their order. -/
def reports : List (String × List (HostImpl Address Locality)) → List (ClusterStats Locality) →
    List (Happened Address Locality)
  | [], _ => []
  | (clusterName, hosts) :: rest, request =>
    reports rest request.tail ++ [.reported clusterName request.head? hosts]

open Reporter in
/-- A host that an update brings is one of the cluster or a new object. Only EDS clusters list their
hosts by locality. -/
def step (localLocality : Option Locality) (s : Reporter Address Locality) :
    Event Address Locality → Option (Reporter Address Locality)
  | .completed host outcome =>
    if host ∈ s.created then
      some { s with
        pending := fun other outcome' => s.pending other outcome' +
          if host = other ∧ outcome = outcome' then 1 else 0
        history := .completed host outcome :: s.history }
    else none
  | .active host rqActive => some { s with rqActive := Function.update s.rqActive host rqActive }
  | .dropped clusterName =>
    some { s with upstreamRqDropped :=
      Function.update s.upstreamRqDropped clusterName (s.upstreamRqDropped clusterName + 1) }
  | .addCluster clusterName eds =>
    some { s with
      cmClusters := Function.update s.cmClusters clusterName (some ⟨eds, [], []⟩)
      upstreamRqDropped := Function.update s.upstreamRqDropped clusterName 0 }
  | .removeCluster clusterName =>
    some { s with cmClusters := Function.update s.cmClusters clusterName none }
  | .updateHosts clusterName hosts =>
    match s.cmClusters clusterName with
    | none => none
    | some cluster =>
      if hosts.Nodup ∧ ∀ host ∈ hosts, host ∈ cluster.hosts ∨ host ∉ s.created then
        some { s with
          cmClusters := Function.update s.cmClusters clusterName (some ⟨cluster.eds, hosts,
            if cluster.eds then localityHosts localLocality hosts else []⟩)
          created := hosts ++ s.created }
      else none
  | .onReceiveMessage clusters =>
    if s.stream then
      some { s.onReceiveMessage clusters with
        tracked := clusters
        history := (clusters.map .reset).reverse ++ s.history }
    else none
  | .onResponseTimer =>
    if s.responseTimer then
      some { s.sendLoadStatsRequest with
        responseTimer := false
        history := reports (s.hostsOf s.tracked) s.sendLoadStatsRequest.request ++ s.history }
    else none
  | .onRemoteClose => if s.stream then some s.onRemoteClose else none
  | .onRetryTimer started =>
    if s.retryTimer then
      let t := establishNewStream { s with retryTimer := false } started
      some { t with history :=
        if started then reports (s.hostsOf s.tracked) t.request ++ s.history else s.history }
    else none

/-! ## What a report should say -/

/-- The requests that completed on the host since the last report or response for the cluster. -/
def completedSince (clusterName : String) (host : HostImpl Address Locality) (outcome : Outcome) :
    List (Happened Address Locality) → Nat
  | [] => 0
  | .completed host' outcome' :: earlier =>
    completedSince clusterName host outcome earlier +
      if host' = host ∧ outcome' = outcome then 1 else 0
  | .reported clusterName' _ _ :: earlier =>
    if clusterName' = clusterName then 0 else completedSince clusterName host outcome earlier
  | .reset clusterName' :: earlier =>
    if clusterName' = clusterName then 0 else completedSince clusterName host outcome earlier

/-- Every report has each tracked cluster, and what it says is what completed on its hosts. -/
def Exact : List (Happened Address Locality) → Prop
  | [] => True
  | .reported clusterName stats hosts :: earlier =>
    (∃ sent ∈ stats, sent.clusterName = clusterName ∧ ∀ outcome, sent.sum outcome =
      (hosts.map fun host => completedSince clusterName host outcome earlier).sum) ∧
        Exact earlier
  | _ :: earlier => Exact earlier

/-- The cluster lists its hosts by locality, or has nothing to report. -/
def Cluster.Listed (s : Reporter Address Locality) (cluster : Cluster Address Locality) : Prop :=
  cluster.hostsPerLocality ≠ [] ∨ ∀ host ∈ cluster.hosts, ∀ outcome, s.pending host outcome = 0

instance (s : Reporter Address Locality) (cluster : Cluster Address Locality) :
    Decidable (cluster.Listed s) :=
  decidable_of_iff (cluster.hostsPerLocality ≠ [] ∨ ∀ host ∈ cluster.hosts,
    s.pending host .success = 0 ∧ s.pending host .error = 0)
    (or_congr_right (forall₂_congr fun _ _ =>
      ⟨fun h outcome => by cases outcome <;> simp [h], fun h => ⟨h _, h _⟩⟩))

section

variable (s : Reporter Address Locality)

def AllListed (clusterNames : List String) : Prop :=
  ∀ clusterName ∈ clusterNames, ∀ cluster ∈ s.cmClusters clusterName, cluster.Listed s

def Condition : Event Address Locality → Prop
  | .onResponseTimer => AllListed s s.clusters
  | .onRetryTimer started => started = true → AllListed s s.clusters
  | _ => True

instance (clusterNames : List String) : Decidable (AllListed s clusterNames) :=
  inferInstanceAs (Decidable (∀ clusterName ∈ clusterNames, ∀ cluster ∈ s.cmClusters clusterName,
    cluster.Listed s))

instance : (event : Event Address Locality) → Decidable (Condition s event) := by
  intro e
  cases e <;> dsimp only [Condition] <;> infer_instance

end

/-! ## Latching -/

section Latch

variable {pending : Pending Address Locality} {rqActive : HostImpl Address Locality → Nat}
  {host : HostImpl Address Locality} {hosts : List (HostImpl Address Locality)}
  {groups : List (List (HostImpl Address Locality))} {outcome : Outcome}

theorem localityStats_pending : (localityStats rqActive pending groups).2 host outcome =
      if host ∈ groups.flatten then 0 else pending host outcome := by
  induction groups generalizing pending with
  | nil => rfl
  | cons hosts groups ih =>
    rw [localityStats]
    simp only [ih, latchHosts, flatten_cons, mem_append]
    by_cases hrest : host ∈ groups.flatten
    · simp [hrest]
    · simp [hrest]

theorem localityStats_sum (h : groups.flatten.Nodup) :
    ((localityStats rqActive pending groups).1.map fun entry => entry.totalRequests outcome).sum =
      (groups.flatten.map fun host => pending host outcome).sum := by
  induction groups generalizing pending with
  | nil => rfl
  | cons hosts groups ih =>
    obtain ⟨hhosts, hgroups, hapart⟩ := List.nodup_append.mp h
    have hkept : (groups.flatten.map fun host => (latchHosts pending hosts).2 host outcome) =
        groups.flatten.map fun host => pending host outcome := by
      exact map_congr_left fun host hhost =>
        if_neg fun hmem => hapart host hmem host hhost rfl
    rw [localityStats]
    simp only [map_cons, sum_cons, ih hgroups, hkept, flatten_cons, map_append, sum_append]
    simp only [latchHosts, hhosts.dedup]

end Latch

/-! ## The invariant -/

structure Cluster.Sound (s : Reporter Address Locality) (history : List (Happened Address Locality))
    (clusterName : String) (cluster : Cluster Address Locality) : Prop where
  grouped : cluster.hostsPerLocality = [] ∨ cluster.hostsPerLocality.flatten.Perm cluster.hosts
  nodup : cluster.hosts.Nodup
  created : ∀ host ∈ cluster.hosts, host ∈ s.created
  counts : ∀ host ∈ cluster.hosts, ∀ outcome,
    s.pending host outcome = completedSince clusterName host outcome history

/-- In the middle of a report or of a response `history` is ahead of the state. -/
structure Inv (s : Reporter Address Locality) (history : List (Happened Address Locality)) :
    Prop where
  sound : ∀ clusterName cluster, s.cmClusters clusterName = some cluster →
    cluster.Sound s history clusterName
  apart : ∀ name name' cluster cluster', s.cmClusters name = some cluster →
    s.cmClusters name' = some cluster' → ∀ host ∈ cluster.hosts, host ∈ cluster'.hosts →
      name = name'
  fresh : ∀ host ∉ s.created, ∀ outcome, s.pending host outcome = 0 ∧
    ∀ clusterName, completedSince clusterName host outcome history = 0
  exact : Exact history
  tracked : s.clusters = s.tracked

variable {s : Reporter Address Locality} {history : List (Happened Address Locality)}
  {clusterName : String} {cluster : Cluster Address Locality} {host : HostImpl Address Locality}
  {outcome : Outcome}

variable {upstreamRqDropped : String → Nat}

/-- The counters of the hosts of a cluster are zero after they were latched, and so is what
completed since. -/
theorem Inv.latched (h : Inv s history) {pending : Pending Address Locality}
    {request : List (ClusterStats Locality)}
    {entry : Happened Address Locality}
    (hlatched : ∀ cluster ∈ s.cmClusters clusterName, ∀ host ∈ cluster.hosts,
      ∀ outcome, pending host outcome = 0)
    (hkept : ∀ host, (∀ cluster ∈ s.cmClusters clusterName, host ∉ cluster.hosts) →
      pending host = s.pending host)
    (hentry : ∀ name host outcome, completedSince name host outcome (entry :: history) =
      if clusterName = name then 0 else completedSince name host outcome history)
    (hexact : Exact (entry :: history)) :
    Inv { s with pending, upstreamRqDropped, request } (entry :: history) where
  sound := by
    intro name other hother
    have hsound := h.sound name other hother
    refine { hsound with counts := fun host hhost outcome => ?_ }
    rw [hentry]
    by_cases hname : clusterName = name
    · subst hname
      rw [if_pos rfl]
      exact hlatched other hother host hhost outcome
    · rw [if_neg hname]
      refine (congrFun (hkept host fun cluster hcluster hmem => ?_) outcome).trans
        (hsound.counts host hhost outcome)
      exact hname (h.apart clusterName name cluster other hcluster hother host hmem hhost)
  apart := h.apart
  fresh := by
    intro host hhost outcome
    obtain ⟨hpending, hnone⟩ := h.fresh host hhost outcome
    refine ⟨(congrFun (hkept host fun cluster hcluster hmem => ?_) outcome).trans hpending,
      fun name => ?_⟩
    · exact hhost ((h.sound _ _ hcluster).created host hmem)
    · rw [hentry, hnone, ite_self]
  exact := hexact
  tracked := h.tracked

theorem Inv.resetCluster (h : Inv s history) (clusterName : String) :
    Inv (s.resetCluster clusterName) (.reset clusterName :: history) := by
  rw [Reporter.resetCluster]
  cases hcluster : s.cmClusters clusterName with
  | none => exact h.latched (by rw [hcluster]; nofun) (fun _ _ => rfl) (fun _ _ _ => rfl) h.exact
  | some cluster =>
    refine h.latched (fun other hother host hhost outcome => ?_) (fun host hhost => ?_)
      (fun _ _ _ => rfl) h.exact
    · cases hother.symm.trans hcluster
      exact if_pos hhost
    · exact funext fun outcome => if_neg (hhost cluster hcluster)

theorem Inv.addClusterStats (h : Inv s history) (hcluster : s.cmClusters clusterName = some cluster)
    (hlisted : cluster.Listed s) : ∃ stats,
      (s.addClusterStats clusterName).request = s.request ++ [stats] ∧
      Inv (s.addClusterStats clusterName)
        (.reported clusterName (some stats) cluster.hosts :: history) := by
  have hsound := h.sound clusterName cluster hcluster
  have hcounts (outcome : Outcome) : (cluster.hosts.map fun host => s.pending host outcome) =
      cluster.hosts.map fun host => completedSince clusterName host outcome history :=
    map_congr_left fun host hhost => hsound.counts host hhost outcome
  rw [Reporter.addClusterStats, hcluster]
  refine ⟨_, rfl, ?_⟩
  by_cases hempty : cluster.hostsPerLocality = []
  · have hzero := hlisted.resolve_left (not_not.mpr hempty)
    refine h.latched ?_ (fun host _ => ?_) (fun _ _ _ => rfl)
      ⟨⟨_, rfl, rfl, fun outcome => ?_⟩, h.exact⟩
    · rw [hempty]
      intro other hother
      cases hother.symm.trans hcluster
      exact hzero
    · rw [hempty]
      rfl
    · rw [ClusterStats.sum, ← hcounts]
      rw [hempty]
      refine (List.sum_eq_zero_iff_forall_eq_nat.mpr fun count hcount => ?_).symm
      obtain ⟨host, hhost, rfl⟩ := List.mem_map.mp hcount
      exact hzero host hhost outcome
  · have hperm := hsound.grouped.resolve_left hempty
    refine h.latched (fun other hother host hhost outcome => ?_) (fun host hhost => ?_)
      (fun _ _ _ => rfl) ⟨⟨_, rfl, rfl, fun outcome => ?_⟩, h.exact⟩
    · cases hother.symm.trans hcluster
      rw [localityStats_pending, if_pos (hperm.mem_iff.mpr hhost)]
    · funext outcome
      rw [localityStats_pending, if_neg fun hmem => hhost cluster hcluster (hperm.mem_iff.mp hmem)]
    · rw [ClusterStats.sum, ← hcounts]
      rw [localityStats_sum (hperm.nodup_iff.mpr hsound.nodup)]
      exact (hperm.map _).sum_eq

theorem Inv.of_eq {s' : Reporter Address Locality} (h : Inv s history)
    (hclusters : s'.cmClusters = s.cmClusters) (hpending : s'.pending = s.pending)
    (hcreated : s'.created = s.created) (htracked : s'.clusters = s'.tracked) : Inv s' history := by
  cases s
  cases s'
  cases hclusters
  cases hpending
  cases hcreated
  exact { h with
    sound := fun name cluster hcluster => { h.sound name cluster hcluster with }
    tracked := htracked }

theorem addClusterStats_cmClusters (s : Reporter Address Locality) (clusterName : String) :
    (s.addClusterStats clusterName).cmClusters = s.cmClusters := by
  rw [Reporter.addClusterStats]
  split <;> rfl

theorem addClusterStats_pending (h : s.pending host outcome = 0) :
    (s.addClusterStats clusterName).pending host outcome = 0 := by
  rw [Reporter.addClusterStats]
  split
  · exact h
  · dsimp only
    rw [localityStats_pending, h, ite_self]

theorem AllListed.addClusterStats {clusterNames : List String} (h : AllListed s clusterNames) :
    AllListed (s.addClusterStats clusterName) clusterNames := by
  intro name hname cluster hcluster
  rw [addClusterStats_cmClusters] at hcluster
  exact (h name hname cluster hcluster).imp_right fun hzero host hhost outcome =>
    addClusterStats_pending (hzero host hhost outcome)

theorem Inv.foldl_addClusterStats {clusterNames : List String} (h : Inv s history)
    (hlisted : AllListed s clusterNames) : ∃ sent,
      (clusterNames.foldl Reporter.addClusterStats s).request = s.request ++ sent ∧
      Inv (clusterNames.foldl Reporter.addClusterStats s)
        (reports (s.hostsOf clusterNames) sent ++ history) := by
  induction clusterNames generalizing s history with
  | nil => exact ⟨[], (append_nil _).symm, h⟩
  | cons clusterName clusterNames ih =>
    have hrest : AllListed s clusterNames := fun name hname =>
      hlisted name (mem_cons_of_mem clusterName hname)
    cases hcluster : s.cmClusters clusterName with
    | none =>
      rw [foldl_cons, show s.addClusterStats clusterName = s by
        rw [Reporter.addClusterStats, hcluster]]
      rw [Reporter.hostsOf, filterMap_cons_none (by rw [hcluster]; rfl)]
      exact ih h hrest
    | some cluster =>
      obtain ⟨stats, hrequest, hinv⟩ :=
        h.addClusterStats hcluster (hlisted clusterName mem_cons_self cluster hcluster)
      obtain ⟨sent, hsent, hinv'⟩ := ih hinv hrest.addClusterStats
      refine ⟨stats :: sent, by rw [foldl_cons, hsent, hrequest, append_assoc]; rfl, ?_⟩
      rw [Reporter.hostsOf, addClusterStats_cmClusters] at hinv'
      rw [Reporter.hostsOf, filterMap_cons_some (by rw [hcluster]; rfl), reports, append_assoc]
      exact hinv'

section

variable (h : Inv s history)
include h

theorem Inv.sendLoadStatsRequest (hlisted : AllListed s s.clusters) :
    Inv s.sendLoadStatsRequest
      (reports (s.hostsOf s.clusters) s.sendLoadStatsRequest.request ++ history) := by
  have hcleared : Inv { s with request := [] } history := h.of_eq rfl rfl rfl h.tracked
  obtain ⟨sent, hsent, hinv⟩ := hcleared.foldl_addClusterStats hlisted
  rw [Reporter.sendLoadStatsRequest, hsent]
  exact hinv

theorem Inv.onReceiveMessage (clusters : List String) :
    Inv { s.onReceiveMessage clusters with tracked := clusters }
      ((clusters.map .reset).reverse ++ history) := by
  have hfold : Inv (clusters.foldl Reporter.resetCluster s)
      ((clusters.map .reset).reverse ++ history) := by
    induction clusters generalizing s history with
    | nil => exact h
    | cons clusterName clusters ih =>
      rw [map_cons, reverse_cons, append_assoc]
      exact ih (h.resetCluster clusterName)
  exact hfold.of_eq rfl rfl rfl rfl

theorem Inv.completed (hhost : host ∈ s.created) : Inv { s with
      pending := fun other outcome' => s.pending other outcome' +
        if host = other ∧ outcome = outcome' then 1 else 0 }
      (.completed host outcome :: history) := by
  refine ⟨fun name cluster hcluster => ?_, h.apart, fun other hother outcome' => ?_, h.exact,
    h.tracked⟩
  · have hsound := h.sound name cluster hcluster
    refine { hsound with counts := fun other hother outcome' => ?_ }
    rw [completedSince, ← hsound.counts other hother]
  · have hne : ¬(host = other ∧ outcome = outcome') := fun hsame => hother (hsame.1 ▸ hhost)
    obtain ⟨hpending, hnone⟩ := h.fresh other hother outcome'
    simp [hpending, completedSince, hnone, if_neg hne]

theorem Inv.setCluster {created : List (HostImpl Address Locality)}
    (hcreated : ∀ host ∈ s.created, host ∈ created) {value : Option (Cluster Address Locality)}
    (hvalue : ∀ cluster ∈ value, (cluster.hostsPerLocality = [] ∨
      cluster.hostsPerLocality.flatten.Perm cluster.hosts) ∧ cluster.hosts.Nodup ∧
      ∀ host ∈ cluster.hosts, host ∈ created ∧
        (host ∉ s.created ∨ ∃ old ∈ s.cmClusters clusterName, host ∈ old.hosts)) : Inv { s with
      cmClusters := Function.update s.cmClusters clusterName value
      upstreamRqDropped, created } history := by
  have hother {name : String} {cluster : Cluster Address Locality}
      (hcluster : Function.update s.cmClusters clusterName value name = some cluster) :
      name = clusterName ∧ value = some cluster ∨
        name ≠ clusterName ∧ s.cmClusters name = some cluster := by
    by_cases hname : name = clusterName
    · rw [hname, Function.update_self] at hcluster
      exact .inl ⟨hname, hcluster⟩
    · rw [Function.update_of_ne hname] at hcluster
      exact .inr ⟨hname, hcluster⟩
  -- a new host of the cluster is no host of another one
  have hsame {name : String} {cluster old : Cluster Address Locality}
      (hcluster : value = some cluster) (hold : s.cmClusters name = some old)
      {host} (hhost : host ∈ cluster.hosts) (hmem : host ∈ old.hosts) :
      clusterName = name := by
    obtain ⟨-, -, hhosts⟩ := hvalue cluster hcluster
    rcases (hhosts host hhost).2 with hfresh | ⟨before, hbefore, hin⟩
    · exact absurd ((h.sound _ _ hold).created host hmem) hfresh
    · exact h.apart _ _ _ _ hbefore hold host hin hmem
  constructor
  · intro name cluster hcluster
    rcases hother hcluster with ⟨rfl, hset⟩ | ⟨-, hold⟩
    · obtain ⟨hgrouped, hnodup, hhosts⟩ := hvalue cluster hset
      refine ⟨hgrouped, hnodup, fun host hhost => (hhosts host hhost).1, ?_⟩
      intro host hhost outcome
      rcases (hhosts host hhost).2 with hfresh | ⟨old, hold, hmem⟩
      · obtain ⟨hpending, hnone⟩ := h.fresh host hfresh outcome
        exact hpending.trans (hnone name).symm
      · exact (h.sound _ _ hold).counts host hmem outcome
    · have hsound := h.sound name cluster hold
      exact { hsound with created := fun host hhost => hcreated host (hsound.created host hhost) }
  · intro name name' cluster cluster' hcluster hcluster' host hhost hhost'
    rcases hother hcluster with ⟨rfl, hset⟩ | ⟨-, hold⟩
    · rcases hother hcluster' with ⟨rfl, -⟩ | ⟨-, hold'⟩
      · rfl
      · exact hsame hset hold' hhost hhost'
    · rcases hother hcluster' with ⟨rfl, hset'⟩ | ⟨-, hold'⟩
      · exact (hsame hset' hold hhost' hhost).symm
      · exact h.apart _ _ _ _ hold hold' host hhost hhost'
  · exact fun host hhost => h.fresh host fun hmem => hhost (hcreated host hmem)
  · exact h.exact
  · exact h.tracked

end

omit [DecidableEq Address] in
theorem localityHosts_perm (localLocality : Option Locality)
    (hosts : List (HostImpl Address Locality)) : localityHosts localLocality hosts = [] ∨
      (localityHosts localLocality hosts).flatten.Perm hosts := by
  cases localLocality with
  | none => exact .inl rfl
  | some localLocality =>
    by_cases hlocal : localLocality ∈ hosts.map HostImpl.locality
    · obtain ⟨host, hhost, hlocality⟩ := List.mem_map.mp hlocal
      exact .inr (EdsAssignments.EdsClusterImpl.localityHosts_grouped hhost hlocality).perm
    · refine .inl (if_neg ?_)
      rw [mem_mergeSort, mem_dedup]
      exact hlocal

variable {localLocality : Option Locality}

theorem inv_step (s : Reporter Address Locality)
    (event : Event Address Locality) (s' : Reporter Address Locality) (h : Inv s s.history)
    (hcondition : Condition s event) (hstep : step localLocality s event = some s') :
    Inv s' s'.history := by
  cases event with
  | completed host outcome =>
    obtain ⟨hhost, rfl⟩ := ite_some_none_eq_some.mp hstep
    exact (h.completed hhost).of_eq rfl rfl rfl h.tracked
  | active | dropped => exact Option.some.inj hstep ▸ h.of_eq rfl rfl rfl h.tracked
  | addCluster clusterName eds =>
    refine Option.some.inj hstep ▸ h.setCluster (fun _ hhost => hhost) ?_
    intro cluster hcluster
    cases hcluster
    exact ⟨.inl rfl, nodup_nil, nofun⟩
  | removeCluster clusterName =>
    exact Option.some.inj hstep ▸ h.setCluster (fun _ hhost => hhost) nofun
  | updateHosts clusterName hosts =>
    rw [step] at hstep
    split at hstep
    · cases hstep
    · rename_i old hold
      obtain ⟨⟨hnodup, hhosts⟩, rfl⟩ := ite_some_none_eq_some.mp hstep
      refine h.setCluster (fun _ => mem_append_right _) fun cluster hcluster => ?_
      cases hcluster
      refine ⟨?_, hnodup, fun host hhost => ⟨mem_append_left _ hhost, ?_⟩⟩
      · dsimp only
        split
        · exact localityHosts_perm localLocality hosts
        · exact .inl rfl
      · exact (hhosts host hhost).symm.imp_right fun hmem => ⟨old, hold, hmem⟩
  | onReceiveMessage clusters =>
    obtain ⟨-, rfl⟩ := ite_some_none_eq_some.mp hstep
    exact (h.onReceiveMessage clusters).of_eq rfl rfl rfl rfl
  | onResponseTimer =>
    obtain ⟨-, rfl⟩ := ite_some_none_eq_some.mp hstep
    have hinv := h.sendLoadStatsRequest hcondition
    rw [h.tracked] at hinv
    exact hinv.of_eq rfl rfl rfl hinv.tracked
  | onRemoteClose =>
    obtain ⟨-, rfl⟩ := ite_some_none_eq_some.mp hstep
    exact h.of_eq rfl rfl rfl h.tracked
  | onRetryTimer started =>
    obtain ⟨-, rfl⟩ := ite_some_none_eq_some.mp hstep
    cases started with
    | false => exact h.of_eq rfl rfl rfl h.tracked
    | true =>
      let s₁ : Reporter Address Locality := { s with retryTimer := false, stream := true }
      have hstream : Inv s₁ s.history := h.of_eq rfl rfl rfl h.tracked
      have hinv := hstream.sendLoadStatsRequest (hcondition rfl)
      rw [hstream.tracked] at hinv
      exact hinv.of_eq rfl rfl rfl hinv.tracked

theorem inv_new (started : Bool) :
    Inv (.new started : Reporter Address Locality) (Reporter.new started).history := by
  cases started <;> exact ⟨nofun, nofun, fun _ _ _ => ⟨rfl, fun _ => rfl⟩, trivial, rfl⟩

theorem reports_exact {started : Bool}
    {events : List (Event Address Locality)} {s : Reporter Address Locality}
    (hmeet : AllMeet (step localLocality) Condition (.new started) events)
    (hrun : run (step localLocality) (.new started) events = some s) : Exact s.history :=
  (run_invariant inv_step hmeet (inv_new started) hrun).exact

/-- One request completes, and then the report comes. -/
def oneRequest : List (Event Nat Nat) :=
  [.addCluster "cluster" true, .updateHosts "cluster" [⟨0, 10, 1⟩], .onReceiveMessage ["cluster"],
    .completed ⟨0, 10, 1⟩ .success, .onResponseTimer]

theorem reports_exact_own_locality :
    ∃ s, run (step (some 1)) (.new true) oneRequest = some s ∧ Exact s.history := by
  have hmeet : AllMeet (step (some 1)) Condition (.new true) oneRequest := by decide +kernel
  exact ⟨_, rfl, reports_exact hmeet rfl⟩

theorem report_loses_request : ¬ ∀ (events : List (Event Nat Nat)) (s : Reporter Nat Nat),
      run (step none) (.new true) events = some s → Exact s.history := by
  intro h
  have hexact := h oneRequest _ rfl
  obtain ⟨⟨_, ⟨⟩, -, hsum⟩, -⟩ := hexact
  cases hsum .success

end Meliproxy.Envoy.Upstream.LoadStats
