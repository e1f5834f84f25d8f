import Meliproxy.Lib.KeyedLog
import Meliproxy.Lib.Sort
import Meliproxy.Lib.Text
import Meliproxy.Envoy.Upstream.HostSet
import Meliproxy.Envoy.Upstream.InitHelper
import Mathlib.Data.List.AList

/-!
# The cluster manager and the views of the threads

The main thread keeps the primary clusters; every thread has its own map of them, which is
written by closures that the main thread posts. What happens to the init helper meanwhile is left
to `ClusterUpdate`.
A step answers `none` where an `ASSERT` fails or `at` throws on a thread that does not catch it;
an event that finds nothing to do leaves the state alone.
-/

namespace Meliproxy.Envoy.Upstream

open Lib

/-- `originalDst` says that the load balancer type is `OriginalDst`, which goes with the cluster
type and without subsets. -/
structure ClusterInfo where
  id : Nat
  name : Bytes
  originalDst : Bool

section Members

variable {Host : Type}

/-- The host set of a cluster: without hosts it has no localities either. -/
structure Members (Host : Type) where
  hostSet : HostSet Host
  of_nil : hostSet.hosts = [] → hostSet = HostSet.empty

namespace Members

def empty : Members Host := ⟨HostSet.empty, fun _ => rfl⟩

/-- The lists of a cluster that hands over `empty_host_lists_`. -/
def ofHosts (healthy : Host → Bool) (hosts : List Host) : Members Host :=
  ⟨HostSet.ofHosts healthy hosts [], fun (h : hosts = []) => by rw [h]; rfl⟩

end Members

end Members

abbrev ClusterMap (α : Type) := AList fun _ : Bytes => α

/-- What the cluster manager reads of a cluster's configuration. -/
structure ClusterConfig where
  name : Bytes
  hash : Nat

/-- A cluster that was made from a configuration, with the hosts it has when it is loaded. -/
structure Loaded (Host : Type) where
  id : Nat
  originalDst : Bool
  initializePhase : InitializePhase
  members : Members Host

structure PrimaryClusterData (Host : Type) where
  configHash : Nat
  addedViaApi : Bool
  info : ClusterInfo
  initializePhase : InitializePhase
  members : Members Host

/-- `ThreadLocalClusterManagerImpl::ClusterEntry`. -/
structure ClusterEntry (Host : Type) where
  info : ClusterInfo
  hostSet : HostSet Host

/-- The closures that are posted to the threads. -/
inductive Post (Host : Type) where
  | set
  | add (info : ClusterInfo)
  | membership (name : Bytes) (hostSet : HostSet Host)
  | remove (name : Bytes)

/-- A worker has no thread local object until the closure of `set` was delivered. -/
structure Worker (Host : Type) where
  clusters : Option (ClusterMap (ClusterEntry Host))
  posts : List (Post Host)

structure ClusterManager (Host : Type) where
  localClusterName : Option Bytes
  primary : ClusterMap (PrimaryClusterData Host)
  main : ClusterMap (ClusterEntry Host)
  workers : List (Worker Host)

variable {Host : Type}

def PrimaryClusterData.entry (data : PrimaryClusterData Host) : ClusterEntry Host :=
  ⟨data.info, data.members.hostSet⟩

def ClusterEntry.fresh (info : ClusterInfo) : ClusterEntry Host := ⟨info, HostSet.empty⟩

variable (localClusterName : Option Bytes) (primary : ClusterMap (PrimaryClusterData Host))

def localCluster : Option (ClusterMap (ClusterEntry Host)) :=
  match localClusterName with
  | none => some ∅
  | some name => (primary.lookup name).map fun data =>
    AList.singleton name (ClusterEntry.fresh data.info)

def addInitialCluster (clusters : ClusterMap (ClusterEntry Host))
    (cluster : (_ : Bytes) × PrimaryClusterData Host) : Option (ClusterMap (ClusterEntry Host)) :=
  if localClusterName = some cluster.1 then some clusters
  else if cluster.1 ∈ clusters then none
  else some (clusters.insert cluster.1 (ClusterEntry.fresh cluster.2.info))

/-- `ThreadLocalClusterManagerImpl`. The load balancer of an `OriginalDst` cluster is made while
the primary clusters are read, so `at` finds the cluster. -/
def threadLocalClusters : Option (ClusterMap (ClusterEntry Host)) :=
  (localCluster localClusterName primary).bind fun clusters =>
    primary.entries.foldlM (addInitialCluster localClusterName) clusters

/-- The constructor of `ClusterEntry` takes the primary cluster of an `OriginalDst` cluster with
`at`, on the thread that makes the entry. -/
def Post.addCluster (info : ClusterInfo)
    (clusters : ClusterMap (ClusterEntry Host)) : Option (ClusterMap (ClusterEntry Host)) :=
  if info.originalDst ∧ info.name ∉ primary then none
  else some (clusters.insert info.name (ClusterEntry.fresh info))

def Post.updateClusterMembership (name : Bytes) (hostSet : HostSet Host)
    (clusters : ClusterMap (ClusterEntry Host)) : Option (ClusterMap (ClusterEntry Host)) :=
  (clusters.lookup name).map fun entry => clusters.insert name { entry with hostSet := hostSet }

def Post.removeCluster (name : Bytes) (clusters : ClusterMap (ClusterEntry Host)) :
    Option (ClusterMap (ClusterEntry Host)) :=
  if name ∈ clusters then some (clusters.erase name) else none

def Post.run (clusters : Option (ClusterMap (ClusterEntry Host))) :
    Post Host → Option (ClusterMap (ClusterEntry Host))
  | set => threadLocalClusters localClusterName primary
  | add info => clusters.bind (addCluster primary info)
  | membership name hostSet => clusters.bind (updateClusterMembership name hostSet)
  | remove name => clusters.bind (removeCluster name)

namespace ClusterManager

variable (m : ClusterManager Host)

def runOnAllThreads (post : Post Host) : Option (ClusterManager Host) :=
  let workers := m.workers.map fun worker => { worker with posts := worker.posts ++ [post] }
  (post.run m.localClusterName m.primary (some m.main)).map fun clusters =>
    { m with workers := workers, main := clusters }

def postThreadLocalClusterUpdate (name : Bytes)
    (data : PrimaryClusterData Host) : Option (ClusterManager Host) :=
  m.runOnAllThreads (.membership name data.members.hostSet)

def postInitializeCluster (name : Bytes)
    (data : PrimaryClusterData Host) : Option (ClusterManager Host) :=
  if data.members.hostSet.hosts = [] then some m else m.postThreadLocalClusterUpdate name data

variable (config : ClusterConfig)

/-- The entry of a cluster that was loaded; an older one of the name is erased first. -/
def loadedData (addedViaApi : Bool) (loaded : Loaded Host) : PrimaryClusterData Host :=
  ⟨config.hash, addedViaApi, ⟨loaded.id, config.name, loaded.originalDst⟩, loaded.initializePhase,
    loaded.members⟩

def loadCluster (addedViaApi : Bool) (loaded : Loaded Host) : ClusterManager Host :=
  { m with
    primary := (m.primary.erase config.name).insert config.name
      (loadedData config addedViaApi loaded) }

def keepsExisting : Bool :=
  (m.primary.lookup config.name).any fun existing =>
    !existing.addedViaApi || existing.configHash = config.hash

/-- `loaded` is `none` when `loadCluster` throws. -/
def addOrUpdatePrimaryCluster (loaded : Option (Loaded Host)) : Option (ClusterManager Host) :=
  if m.keepsExisting config then some m
  else match loaded with
    | none => some m
    | some loaded => do
      let m := m.loadCluster config true loaded
      let data ← m.primary.lookup config.name
      let m ← m.runOnAllThreads (.add data.info)
      m.postInitializeCluster config.name data

def removePrimaryCluster (name : Bytes) : Option (ClusterManager Host) :=
  match m.primary.lookup name with
  | none => some m
  | some existing =>
    if existing.addedViaApi then
      { m with primary := m.primary.erase name }.runOnAllThreads (.remove name)
    else some m

def updateHosts (name : Bytes) (members : Members Host) : Option (ClusterManager Host) :=
  match m.primary.lookup name with
  | none => some m
  | some existing =>
    let data := { existing with members := members }
    { m with primary := m.primary.insert name data }.postThreadLocalClusterUpdate name data

/-- The clusters of the bootstrap are loaded one after the other, without duplicates. -/
def loadStatic (statics : List (ClusterConfig × Loaded Host)) :
    Option (ClusterMap (PrimaryClusterData Host)) :=
  statics.foldlM (fun primary ⟨config, loaded⟩ =>
    if config.name ∈ primary then none
    else some (primary.insert config.name (loadedData config false loaded))) ∅

/-- `ClusterManagerImpl`, with threads that were registered before. It throws for a duplicate or
when the local cluster is missing. -/
def construct (threads : Nat) (localClusterName : Option Bytes)
    (statics : List (ClusterConfig × Loaded Host)) : Option (ClusterManager Host) := do
  let primary ← loadStatic statics
  let clusters ← threadLocalClusters localClusterName primary
  primary.entries.foldlM (fun m ⟨name, data⟩ => m.postInitializeCluster name data)
    ⟨localClusterName, primary, clusters, List.replicate threads ⟨none, [.set]⟩⟩

def deliver (i : Nat) : Option (ClusterManager Host) :=
  match m.workers[i]? with
  | some ⟨clusters, post :: posts⟩ =>
    (post.run m.localClusterName m.primary clusters).map fun clusters =>
      { m with workers := m.workers.set i ⟨some clusters, posts⟩ }
  | _ => some m

inductive Event (Host : Type) where
  | addOrUpdate (config : ClusterConfig) (loaded : Option (Loaded Host))
  | remove (name : Bytes)
  | updateHosts (name : Bytes) (members : Members Host)
  | deliver (worker : Nat)

def step : Event Host → Option (ClusterManager Host)
  | .addOrUpdate config loaded => m.addOrUpdatePrimaryCluster config loaded
  | .remove name => m.removePrimaryCluster name
  | .updateHosts name members => m.updateHosts name members
  | .deliver worker => m.deliver worker

end ClusterManager

end Meliproxy.Envoy.Upstream
