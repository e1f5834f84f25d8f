import Meliproxy.Lib.Runs

/-!
# The order in which clusters are initialized

`ClusterManagerInitHelper`. The helper calls clusters, the CDS API and the initialized callback,
and these call it back before they return, so the calls that have not returned are kept on a
stack. A cluster calls back about itself only; CDS, and whoever runs when nothing is on the stack,
may do anything. A step answers `none` where an `ASSERT` fails or an iterator dangles, and for what
cannot happen.
-/

namespace Meliproxy.Envoy.Upstream

open Lib

inductive InitializePhase where
  | primary
  | secondary
  deriving DecidableEq

/-- A cluster as the helper knows it: an address and `initializePhase()`. -/
structure InitCluster where
  id : Nat
  initializePhase : InitializePhase
  deriving DecidableEq

inductive InitState where
  | loading
  | waitingForStaticInitialize
  | waitingForCdsInitialize
  | cdsInitialized
  | allClustersInitialized
  deriving DecidableEq

structure InitHelper where
  cds : Bool
  state : InitState
  primaryInitClusters : List InitCluster
  secondaryInitClusters : List InitCluster
  startedSecondaryInitialize : Bool
  initializedCallback : Option Nat

/-- A call that has not returned: `initialize()` from `addCluster`, with the callback to set
afterwards or not; `setInitializedCb` of a cluster; `initialize()` from the loop, with the iterator;
`initialize()` of CDS; the initialized callback. -/
inductive Frame where
  | adding (cluster : InitCluster)
  | added (cluster : InitCluster)
  | registering (cluster : InitCluster)
  | looping (cluster : InitCluster) (iter : Option InitCluster)
  | cds
  | callback
  deriving DecidableEq

def Frame.iter : Frame → Option InitCluster
  | looping _ iter => iter
  | _ => none

def Frame.cluster : Frame → Option InitCluster
  | adding cluster | added cluster | registering cluster | looping cluster _ => some cluster
  | cds | callback => none

/-- The helper, the stack and what has happened. Clusters of the static phase are `statics`,
`tracked` are those that were added before all clusters were initialized, `late` the others.
`initialized` are the clusters whose `initialize()` was called, `registered` those that know the
helper's callback. Callbacks have numbers. -/
structure InitRun extends InitHelper where
  stack : List Frame
  statics : List InitCluster
  tracked : List InitCluster
  late : List InitCluster
  initialized : List InitCluster
  registered : List InitCluster
  finished : List InitCluster
  removed : List InitCluster
  cdsStarts : Nat
  callbacks : List Nat
  ran : List Nat

namespace InitRun

def start (cds : Bool) : InitRun :=
  { cds, state := .loading, primaryInitClusters := [], secondaryInitClusters := [],
    startedSecondaryInitialize := false, initializedCallback := none, stack := [], statics := [],
    tracked := [], late := [], initialized := [], registered := [], finished := [], removed := [],
    cdsStarts := 0, callbacks := [], ran := [] }

variable (r : InitRun) (cluster : InitCluster)

def callInitialize (frame : Frame) : InitRun :=
  { r with initialized := r.initialized ++ [cluster], stack := frame :: r.stack }

def callSetInitializedCb : InitRun :=
  { r with registered := cluster :: r.registered, stack := .registering cluster :: r.stack }

def runCallback : InitRun :=
  match r.initializedCallback with
  | none => r
  | some callback => { r with ran := r.ran ++ [callback], stack := .callback :: r.stack }

def finishPhase : InitRun :=
  if r.state = .waitingForStaticInitialize ∧ r.cds then
    { r with
      state := .waitingForCdsInitialize, cdsStarts := r.cdsStarts + 1, stack := .cds :: r.stack }
  else runCallback { r with state := .allClustersInitialized }

/-- `maybeFinishInitialize` where the helper waits for clusters. -/
def finishClusters : InitRun :=
  if r.primaryInitClusters ≠ [] then r
  else match r.secondaryInitClusters with
    | cluster :: rest =>
      if r.startedSecondaryInitialize then r
      else { r with startedSecondaryInitialize := true }.callInitialize cluster
        (.looping cluster rest.head?)
    | [] => { r with startedSecondaryInitialize := false }.finishPhase

def maybeFinishInitialize : Option InitRun :=
  match r.state with
  | .loading | .waitingForCdsInitialize => some r
  | .allClustersInitialized => none
  | .waitingForStaticInitialize | .cdsInitialized => some r.finishClusters

def enlist : InitRun :=
  { r with
    primaryInitClusters := match cluster.initializePhase with
      | .primary => r.primaryInitClusters ++ [cluster]
      | .secondary => r.primaryInitClusters
    secondaryInitClusters := match cluster.initializePhase with
      | .primary => r.secondaryInitClusters
      | .secondary => r.secondaryInitClusters ++ [cluster] }

def unlist : InitRun :=
  { r with
    primaryInitClusters := match cluster.initializePhase with
      | .primary => r.primaryInitClusters.filter (· ≠ cluster)
      | .secondary => r.primaryInitClusters
    secondaryInitClusters := match cluster.initializePhase with
      | .primary => r.secondaryInitClusters
      | .secondary => r.secondaryInitClusters.filter (· ≠ cluster) }

def addCluster : InitRun :=
  if r.state = .allClustersInitialized then r.callInitialize cluster (.added cluster)
  else
    let r := r.enlist cluster
    match cluster.initializePhase with
    | .primary => r.callInitialize cluster (.adding cluster)
    | .secondary =>
      if r.startedSecondaryInitialize then r.callInitialize cluster (.adding cluster)
      else r.callSetInitializedCb cluster

def removeCluster : Option InitRun :=
  if r.state = .allClustersInitialized then some r
  else (r.unlist cluster).maybeFinishInitialize

def onStaticLoadComplete : Option InitRun :=
  if r.state = .loading then { r with state := .waitingForStaticInitialize }.maybeFinishInitialize
  else none

def cdsInitialized (r : InitRun) : Option InitRun :=
  if r.state = .waitingForCdsInitialize then
    { r with state := .cdsInitialized }.maybeFinishInitialize
  else none

def setInitializedCb (callback : Nat) : InitRun :=
  if r.state = .allClustersInitialized then
    { r with ran := r.ran ++ [callback], stack := .callback :: r.stack }
  else { r with initializedCallback := some callback }

inductive Event where
  | addCluster (cluster : InitCluster)
  | removeCluster (cluster : InitCluster)
  | clusterInitialized (cluster : InitCluster)
  | onStaticLoadComplete
  | cdsInitialized
  | setInitializedCb (callback : Nat)
  | returned
  deriving DecidableEq

def allowed (event : Event) : Prop :=
  match r.stack.head? with
  | none => event ≠ .returned
  | some frame => ∀ cluster ∈ frame.cluster,
    event = .clusterInitialized cluster ∨ event = .removeCluster cluster ∨ event = .returned

instance (r : InitRun) (event : Event) : Decidable (r.allowed event) := by
  unfold allowed
  split <;> infer_instance

def recordAdded : InitRun :=
  match r.state with
  | .loading => { r with statics := cluster :: r.statics, tracked := cluster :: r.tracked }
  | .allClustersInitialized => { r with late := cluster :: r.late }
  | _ => { r with tracked := cluster :: r.tracked }

/-- `std::list` keeps the iterator when another element goes, so it stands at the same cluster. -/
def afterIter (iter : InitCluster) (clusters : List InitCluster) : Option InitCluster :=
  (clusters.dropWhile (· ≠ iter)).tail.head?

def returned : Option InitRun :=
  match r.stack with
  | [] => none
  | frame :: stack =>
    let r := { r with stack := stack }
    match frame with
    | .adding cluster => some (r.callSetInitializedCb cluster)
    | .looping _ (some cluster) =>
      if cluster ∈ r.secondaryInitClusters then
        some (r.callInitialize cluster
          (.looping cluster (afterIter cluster r.secondaryInitClusters)))
      else none
    | _ => some r

def step (event : Event) : Option InitRun :=
  if ¬ r.allowed event then none
  else match event with
    | .addCluster cluster =>
      if cluster ∈ r.tracked ++ r.late then none
      else some ((r.recordAdded cluster).addCluster cluster)
    | .removeCluster cluster =>
      if cluster ∈ r.tracked ++ r.late then
        { r with removed := cluster :: r.removed }.removeCluster cluster
      else none
    | .clusterInitialized cluster =>
      if cluster ∈ r.registered ∧ cluster ∉ r.finished ∧ r.state ≠ .allClustersInitialized then
        { r with finished := cluster :: r.finished }.removeCluster cluster
      else none
    | .onStaticLoadComplete => r.onStaticLoadComplete
    | .cdsInitialized => r.cdsInitialized
    | .setInitializedCb callback =>
      if callback ∈ r.callbacks then none
      else some ({ r with callbacks := r.callbacks ++ [callback] }.setInitializedCb callback)
    | .returned => r.returned

end InitRun

end Meliproxy.Envoy.Upstream
