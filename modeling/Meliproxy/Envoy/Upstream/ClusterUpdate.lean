import Meliproxy.Envoy.Upstream.ClusterManager
import Meliproxy.Envoy.Upstream.InitHelperWaits

/-!
# An update of a cluster that fails

`addOrUpdatePrimaryCluster` takes the existing cluster out of the init helper before `loadCluster`
may throw. An existing cluster that is still waited for is then forgotten, and the helper may go on
to the next phase.
-/

namespace Meliproxy.Envoy.Upstream

open Lib

variable {Host : Type}

structure ClusterManagerImpl (Host : Type) where
  clusters : ClusterManager Host
  initHelper : InitRun

/-- Where `loadCluster` throws: `clusterFromProto`, or `initialize()` of the new cluster, which
`addCluster` of the init helper calls. -/
inductive LoadFailure where
  | clusterFromProto
  | clusterInitialize (cluster : InitCluster)

def PrimaryClusterData.initCluster (data : PrimaryClusterData Host) : InitCluster :=
  ⟨data.info.id, data.initializePhase⟩

namespace InitRun

/-- `addCluster` up to the call of `initialize()`, which throws; `none` when it is not called. -/
def addClusterThrows (r : InitRun) (cluster : InitCluster) : Option InitRun :=
  if r.state = .allClustersInitialized then some r
  else
    let r := r.enlist cluster
    match cluster.initializePhase with
    | .primary => some r
    | .secondary => if r.startedSecondaryInitialize then some r else none

/-- The calls above `base` return, whatever happens before they do. -/
inductive Returns (base : List Frame) : InitRun → InitRun → Prop
  | done {r : InitRun} (h : r.stack = base) : Returns base r r
  | step {r r' r'' : InitRun} {event : Event} (h : r.stack ≠ base)
      (hstep : r.step event = some r') (hrest : Returns base r' r'') : Returns base r r''

end InitRun

namespace ClusterManagerImpl

/-- The init helper when `removeCluster` comes to its first call or returns, and when `loadCluster`
is called. -/
inductive Removed (m : ClusterManagerImpl Host) (config : ClusterConfig) :
    InitRun → InitRun → Prop
  | new (hlookup : m.clusters.primary.lookup config.name = none) :
      Removed m config m.initHelper m.initHelper
  | existing {existing : PrimaryClusterData Host} {r₁ r : InitRun}
      (hlookup : m.clusters.primary.lookup config.name = some existing)
      (hremove : m.initHelper.step (.removeCluster existing.initCluster) = some r₁)
      (hreturns : InitRun.Returns m.initHelper.stack r₁ r) : Removed m config r₁ r

/-- `loadCluster` throws; `r'` is the init helper afterwards. -/
def Throws (r : InitRun) : LoadFailure → InitRun → Prop
  | .clusterFromProto, r' => r' = r
  | .clusterInitialize cluster, r' =>
    cluster ∉ r.tracked ++ r.late ∧ r.addClusterThrows cluster = some r'

/-- A call of `addOrUpdatePrimaryCluster` in which `loadCluster` throws. Clusters that the init
helper calls meanwhile may have new hosts. -/
def FailedUpdate (m : ClusterManagerImpl Host) (config : ClusterConfig) (failure : LoadFailure)
    (m' : ClusterManagerImpl Host) : Prop :=
  m.clusters.keepsExisting config = false ∧
    ∃ (r₁ r : InitRun) (hosts : List (Bytes × Members Host)),
      m.Removed config r₁ r ∧ Throws r failure m'.initHelper ∧
        hosts.foldlM (fun c update => c.updateHosts update.1 update.2) m.clusters =
          some m'.clusters ∧ (r₁.stack = m.initHelper.stack → hosts = [])

/-- The primary clusters, the views of the threads, the init helper and the callback. -/
structure Unchanged (m m' : ClusterManagerImpl Host) : Prop where
  clusters : m'.clusters = m.clusters
  initHelper : m'.initHelper.toInitHelper = m.initHelper.toInitHelper
  ran : m'.initHelper.ran = m.initHelper.ran

/-- Nobody waits for the existing cluster, and a new cluster whose `initialize()` throws was not
listed before. -/
structure Harmless (m : ClusterManagerImpl Host) (config : ClusterConfig) (failure : LoadFailure) :
    Prop where
  existing : ∀ existing ∈ m.clusters.primary.lookup config.name,
    ¬ m.initHelper.Listed existing.initCluster
  new : ∀ cluster, failure = .clusterInitialize cluster →
    m.initHelper.state = .allClustersInitialized

end ClusterManagerImpl

namespace InitRun

variable {r r' : InitRun} {cluster c : InitCluster} {base : List Frame}

theorem Returns.unlisted (h : Returns base r r') (hc : c ∈ r.tracked) (hnot : ¬ r.Listed c) :
    c ∈ r'.tracked ∧ ¬ r'.Listed c := by
  induction h with
  | done => exact ⟨hc, hnot⟩
  | step _ hstep _ ih =>
    refine ih (tracked_step hstep hc) fun hlisted => ?_
    rcases listed_step hstep hlisted with hl | ⟨-, hnew⟩
    · exact hnot hl
    · exact hnew hc

theorem Returns.eq_of_stack (h : Returns base r r') (hstack : r.stack = base) : r' = r := by
  cases h with
  | done => rfl
  | step hne => exact absurd hstack hne

theorem addClusterThrows_listed (hall : r.state ≠ .allClustersInitialized)
    (h : r.addClusterThrows cluster = some r') :
    r'.toInitHelper = (r.enlist cluster).toInitHelper := by
  unfold addClusterThrows at h
  rw [if_neg hall] at h
  dsimp only at h
  split at h
  · cases h
    rfl
  · split at h
    · cases h
      rfl
    · cases h

end InitRun

namespace ClusterManagerImpl

variable {m m' : ClusterManagerImpl Host} {config : ClusterConfig} {failure : LoadFailure}
  {r₁ r : InitRun}

theorem Removed.same (h : m.Removed config r₁ r) (hwaits : m.initHelper.Waits)
    (hnot : ∀ existing ∈ m.clusters.primary.lookup config.name,
      ¬ m.initHelper.Listed existing.initCluster) :
    r₁.stack = m.initHelper.stack ∧ r.toInitHelper = m.initHelper.toInitHelper ∧
      r.ran = m.initHelper.ran ∧ r.tracked = m.initHelper.tracked := by
  cases h with
  | new => exact ⟨rfl, rfl, rfl, rfl⟩
  | @existing existing _ _ hlookup hremove hreturns =>
    cases InitRun.steps_of_step hremove with
    | removeCluster _ _ hstep =>
      have hsame : InitRun.Waits { m.initHelper with
          removed := existing.initCluster :: m.initHelper.removed } :=
        hwaits.of_eq rfl fun _ hc => hc
      obtain rfl := hsame.removeCluster_eq (hnot existing hlookup) hstep
      obtain rfl := hreturns.eq_of_stack rfl
      exact ⟨rfl, rfl, rfl, rfl⟩

theorem Removed.unlisted (h : m.Removed config r₁ r) (hwaits : m.initHelper.Waits)
    (hlists : m.initHelper.Lists) {existing : PrimaryClusterData Host}
    (hlookup : m.clusters.primary.lookup config.name = some existing)
    (hlisted : m.initHelper.Listed existing.initCluster) :
    existing.initCluster ∈ r.tracked ∧ ¬ r.Listed existing.initCluster := by
  have htracked := hwaits.tracked_of_listed hlists hlisted
  cases h with
  | new hnone => cases hlookup.symm.trans hnone
  | @existing existing' _ _ hlookup' hremove hreturns =>
    cases hlookup.symm.trans hlookup'
    refine hreturns.unlisted (InitRun.tracked_step hremove htracked) fun hl => ?_
    cases InitRun.steps_of_step hremove with
    | removeCluster _ _ hstep =>
      unfold InitRun.removeCluster at hstep
      split at hstep
      · rename_i hall
        exact InitRun.not_listed_of_all hwaits hall hlisted
      · exact (InitRun.listed_unlist (InitRun.listed_maybeFinishInitialize hstep hl)).2 rfl

/-- A failed update changes nothing exactly if nobody waits for the existing cluster, and
`loadCluster` does not throw with the new cluster in a list. -/
theorem failedUpdate_unchanged_iff {cds : Bool} {events : List InitRun.Event}
    (hreached : run InitRun.step (InitRun.start cds) events = some m.initHelper)
    (h : m.FailedUpdate config failure m') : m.Unchanged m' ↔ m.Harmless config failure := by
  have hinv : m.initHelper.Inv :=
    run_keeps (fun _ _ _ h hstep => InitRun.Inv.step h hstep) (InitRun.inv_start cds) hreached
  have hwaits : m.initHelper.Waits :=
    run_keeps (fun _ _ _ h hstep => InitRun.Waits.step h hstep) (InitRun.waits_start cds) hreached
  obtain ⟨-, r₁, r, hosts, hremoved, hthrows, hclusters, hnil⟩ := h
  constructor
  · intro hunchanged
    have hexisting : ∀ existing ∈ m.clusters.primary.lookup config.name,
        ¬ m.initHelper.Listed existing.initCluster := by
      intro existing hlookup hlisted
      obtain ⟨htracked, hnot⟩ := hremoved.unlisted hwaits hinv.lists hlookup hlisted
      have hlisted' := InitRun.listed_of_toInitHelper hunchanged.initHelper.symm hlisted
      cases failure with
      | clusterFromProto =>
        rw [show m'.initHelper = r from hthrows] at hlisted'
        exact hnot hlisted'
      | clusterInitialize cluster =>
        obtain ⟨hnew, hadd⟩ := hthrows
        cases Decidable.em (r.state = .allClustersInitialized) with
        | inl hall =>
          unfold InitRun.addClusterThrows at hadd
          rw [if_pos hall] at hadd
          cases hadd
          exact hnot hlisted'
        | inr hall =>
          have henlist := InitRun.listed_of_toInitHelper
            (InitRun.addClusterThrows_listed hall hadd) hlisted'
          rcases InitRun.listed_enlist henlist with hl | heq
          · exact hnot hl
          · exact hnew (List.mem_append_left _ (heq ▸ htracked))
    refine ⟨hexisting, fun cluster hfailure => ?_⟩
    obtain ⟨-, hhelper, -, htracked⟩ := hremoved.same hwaits hexisting
    subst hfailure
    obtain ⟨hnew, hadd⟩ := hthrows
    refine Decidable.byContradiction fun hall => ?_
    have hall' : r.state ≠ .allClustersInitialized := by
      rw [hhelper]
      exact hall
    have hlisted := InitRun.listed_of_toInitHelper
      ((InitRun.addClusterThrows_listed hall' hadd).symm.trans hunchanged.initHelper)
      (InitRun.enlist_listed r cluster)
    have hknown := hwaits.tracked_of_listed hinv.lists hlisted
    exact hnew (List.mem_append_left _ (htracked ▸ hknown))
  · intro hharmless
    obtain ⟨hstack, hhelper, hran, -⟩ := hremoved.same hwaits hharmless.existing
    have hsame : m'.clusters = m.clusters := by
      rw [hnil hstack] at hclusters
      exact (Option.some.inj hclusters).symm
    have hr : m'.initHelper = r := by
      cases failure with
      | clusterFromProto => exact hthrows
      | clusterInitialize cluster =>
        have hall : r.state = .allClustersInitialized := by
          rw [hhelper]
          exact hharmless.new cluster rfl
        obtain ⟨-, hadd⟩ := hthrows
        unfold InitRun.addClusterThrows at hadd
        rw [if_pos hall] at hadd
        exact (Option.some.inj hadd).symm
    exact ⟨hsame, hr ▸ hhelper, hr ▸ hran⟩

def dynamicData : PrimaryClusterData Nat :=
  ⟨1, true, ⟨5, ascii "dynamic", false⟩, .secondary, .empty⟩

def dynamicClusters : ClusterManager Nat :=
  ⟨none, AList.singleton (ascii "dynamic") dynamicData,
    AList.singleton (ascii "dynamic") dynamicData.entry, []⟩

def waitingEvents : List InitRun.Event :=
  [.setInitializedCb 0, .onStaticLoadComplete, .addCluster dynamicData.initCluster, .returned,
    .cdsInitialized, .returned, .returned]

theorem dynamic_loads : dynamicClusters.keepsExisting ⟨ascii "dynamic", 2⟩ = false := by
  decide +kernel

theorem finishedUpdate_unchanged : ∃ m m' : ClusterManagerImpl Nat,
      run InitRun.step (InitRun.start true)
        (waitingEvents ++ [.clusterInitialized dynamicData.initCluster, .returned]) =
          some m.initHelper ∧
      m.FailedUpdate ⟨ascii "dynamic", 2⟩ .clusterFromProto m' ∧ m.Unchanged m' := by
  obtain ⟨r, r₁, hr, hlisted, hremove, hstack⟩ : ∃ r r₁, run InitRun.step (InitRun.start true)
      (waitingEvents ++ [.clusterInitialized dynamicData.initCluster, .returned]) = some r ∧
        ¬ r.Listed dynamicData.initCluster ∧
        r.step (.removeCluster dynamicData.initCluster) = some r₁ ∧ r₁.stack = r.stack :=
    ⟨_, _, rfl, by decide +kernel, rfl, by decide +kernel⟩
  have hfailed : FailedUpdate ⟨dynamicClusters, r⟩ ⟨ascii "dynamic", 2⟩ .clusterFromProto
      ⟨dynamicClusters, r₁⟩ :=
    ⟨dynamic_loads, r₁, r₁, [], .existing rfl hremove (.done hstack), rfl, rfl, fun _ => rfl⟩
  refine ⟨⟨dynamicClusters, r⟩, ⟨dynamicClusters, r₁⟩, hr, hfailed,
    (failedUpdate_unchanged_iff hr hfailed).mpr ⟨fun existing he => ?_, nofun⟩⟩
  cases show some dynamicData = some existing from he
  exact hlisted

/-- The helper forgets the cluster, and the callback runs. -/
theorem waitingUpdate_not_unchanged :
    ¬ ∀ (m m' : ClusterManagerImpl Nat) (config : ClusterConfig) (failure : LoadFailure)
        (cds : Bool) (events : List InitRun.Event),
      run InitRun.step (InitRun.start cds) events = some m.initHelper →
        m.FailedUpdate config failure m' → m.Unchanged m' := by
  intro h
  obtain ⟨r, r₁, r', hr, hremove, hstack, hreturn, hstack', hran⟩ : ∃ r r₁ r',
      run InitRun.step (InitRun.start true) waitingEvents = some r ∧
        r.step (.removeCluster dynamicData.initCluster) = some r₁ ∧ r₁.stack ≠ r.stack ∧
        r₁.step .returned = some r' ∧ r'.stack = r.stack ∧ r'.ran ≠ r.ran :=
    ⟨_, _, _, rfl, rfl, by decide +kernel, rfl, rfl, by decide +kernel⟩
  have hfailed : FailedUpdate ⟨dynamicClusters, r⟩ ⟨ascii "dynamic", 2⟩ .clusterFromProto
      ⟨dynamicClusters, r'⟩ := by
    refine ⟨dynamic_loads, r₁, r', [], .existing rfl hremove ?_, rfl, rfl, fun _ => rfl⟩
    exact .step hstack hreturn (.done hstack')
  exact hran (h _ _ _ _ _ _ hr hfailed).ran

end ClusterManagerImpl

end Meliproxy.Envoy.Upstream
