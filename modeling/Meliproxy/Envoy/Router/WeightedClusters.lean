import Meliproxy.Lib.Buckets
import Meliproxy.Lib.Runs
import Meliproxy.Envoy.Http.HeaderMapOps
import Mathlib.Data.UInt

/-!
# Weighted clusters

The constructor of `RouteEntryImplBase` as far as it reads `weighted_clusters`, and `clusterEntry`.
`getInteger` of the runtime snapshot is a parameter: one snapshot is there when the route is made,
and others when it is used.
-/

namespace Meliproxy.Envoy.Router

open Lib List Http

/-- An entry of the field `clusters`, whose weight may be missing. -/
structure ClusterWeight where
  name : Bytes
  weight : Option UInt32

structure WeightedClusterEntry where
  runtimeKey : Bytes
  clusterName : Bytes
  weight : UInt64

abbrev GetInteger := Bytes → UInt64 → UInt64

namespace WeightedClusterEntry

def maxClusterWeight : UInt64 := 100

def clusterWeight (cluster : WeightedClusterEntry) (getInteger : GetInteger) : UInt64 :=
  getInteger cluster.runtimeKey cluster.weight

end WeightedClusterEntry

inductive WeightedClustersError where
  | missingWeight (clusterName : Bytes)
  | sumOfWeights

/-- The text of the first is `MissingFieldException` with the message printed. -/
def WeightedClustersError.message : WeightedClustersError → Bytes
  | .missingWeight _ => ascii "Field 'weight' is missing in: "
  | .sumOfWeights => ascii "Sum of weights in the weighted_cluster should add up to 100"

/-- The loop over `clusters`, with the entries and the total weight so far. -/
def addWeightedClusters (getInteger : GetInteger) (runtimeKeyPrefix : Bytes) :
    List ClusterWeight → List WeightedClusterEntry → UInt64 →
      Except WeightedClustersError (List WeightedClusterEntry × UInt64)
  | [], weightedClusters, totalWeight => .ok (weightedClusters, totalWeight)
  | cluster :: clusters, weightedClusters, totalWeight =>
    match cluster.weight with
    | none => .error (.missingWeight cluster.name)
    | some weight =>
      let entry : WeightedClusterEntry :=
        ⟨runtimeKeyPrefix ++ 46 :: cluster.name, cluster.name, weight.toUInt64⟩
      addWeightedClusters getInteger runtimeKeyPrefix clusters (weightedClusters ++ [entry])
        (totalWeight + entry.clusterWeight getInteger)

def loadWeightedClusters (getInteger : GetInteger) (runtimeKeyPrefix : Bytes)
    (clusters : List ClusterWeight) : Except WeightedClustersError (List WeightedClusterEntry) := do
  let (weightedClusters, totalWeight) ←
    addWeightedClusters getInteger runtimeKeyPrefix clusters [] 0
  if totalWeight ≠ WeightedClusterEntry.maxClusterWeight then .error .sumOfWeights
  else .ok weightedClusters

structure RouteEntryImplBase where
  clusterName : Bytes
  clusterHeaderName : LowerCaseString
  isRedirect : Bool
  weightedClusters : List WeightedClusterEntry

/-- The route itself, a route for a cluster name, or the weighted cluster at a place. -/
inductive ClusterEntry where
  | self
  | dynamic (clusterName : Bytes)
  | weighted (i : Nat)
  deriving DecidableEq

/-- The loop of `clusterEntry` from `begin` on, with `none` for `NOT_REACHED`. -/
def findCluster (getInteger : GetInteger) (selectedValue : UInt64) :
    UInt64 → List WeightedClusterEntry → Option Nat
  | _, [] => none
  | begin, cluster :: clusters =>
    let finish := begin + cluster.clusterWeight getInteger
    if (begin ≤ selectedValue ∧ selectedValue < finish) ∨
        WeightedClusterEntry.maxClusterWeight ≤ finish then some 0
    else (findCluster getInteger selectedValue finish clusters).map (· + 1)

namespace RouteEntryImplBase

def clusterEntry (route : RouteEntryImplBase) (getInteger : GetInteger) (headers : HeaderMap)
    (randomValue : UInt64) : Option ClusterEntry :=
  if route.weightedClusters.isEmpty then
    if route.clusterName ≠ [] ∨ route.isRedirect then some .self
    else
      let finalClusterName :=
        match headers.get route.clusterHeaderName with
        | some entry => entry.value.cStr
        | none => []
      some (.dynamic finalClusterName)
  else
    (findCluster getInteger (randomValue % WeightedClusterEntry.maxClusterWeight) 0
      route.weightedClusters).map .weighted

end RouteEntryImplBase

def effectiveWeights (getInteger : GetInteger) (clusters : List WeightedClusterEntry) :
    List UInt64 := clusters.map fun cluster => cluster.clusterWeight getInteger

section Search

variable {getInteger : GetInteger} {selectedValue begin : UInt64}
  {cluster : WeightedClusterEntry} {clusters : List WeightedClusterEntry}

theorem findCluster_cons (hbegin : begin ≤ selectedValue)
    (hselected : selectedValue < WeightedClusterEntry.maxClusterWeight) :
    findCluster getInteger selectedValue begin (cluster :: clusters) =
      if selectedValue < begin + cluster.clusterWeight getInteger then some 0
      else (findCluster getInteger selectedValue (begin + cluster.clusterWeight getInteger)
        clusters).map (· + 1) := by
  rw [findCluster]
  apply if_congr _ rfl rfl
  constructor
  · rintro (⟨-, hlt⟩ | hmax)
    · exact hlt
    · exact UInt64.lt_of_lt_of_le hselected hmax
  · intro hlt
    exact .inl ⟨hbegin, hlt⟩

theorem findCluster_isSome_iff (getInteger : GetInteger) (clusters : List WeightedClusterEntry)
    (hbegin : begin ≤ selectedValue)
    (hselected : selectedValue < WeightedClusterEntry.maxClusterWeight) :
    (∃ i < clusters.length, findCluster getInteger selectedValue begin clusters = some i) ↔
      ∃ n ≤ clusters.length,
        selectedValue < begin + ((effectiveWeights getInteger clusters).take n).sum := by
  induction clusters generalizing begin with
  | nil =>
    constructor
    · rintro ⟨i, hi, -⟩
      exact absurd hi (Nat.not_lt_zero i)
    · rintro ⟨n, -, hlt⟩
      rw [effectiveWeights, map_nil, take_nil, sum_nil, UInt64.add_zero] at hlt
      exact absurd hbegin (UInt64.not_le.mpr hlt)
  | cons cluster clusters ih =>
    have htake (n : Nat) :
        begin + ((effectiveWeights getInteger (cluster :: clusters)).take (n + 1)).sum =
          begin + cluster.clusterWeight getInteger +
            ((effectiveWeights getInteger clusters).take n).sum := by
      rw [UInt64.add_assoc]
      rfl
    rw [findCluster_cons hbegin hselected]
    split
    · rename_i hlt
      refine iff_of_true ⟨0, Nat.succ_pos _, rfl⟩ ⟨1, Nat.succ_pos _, ?_⟩
      rw [htake, take_zero, sum_nil, UInt64.add_zero]
      exact hlt
    · rename_i hge
      have hih := ih (UInt64.not_lt.mp hge)
      constructor
      · rintro ⟨i, hi, hfind⟩
        obtain ⟨j, hj, rfl⟩ := Option.map_eq_some_iff.mp hfind
        obtain ⟨n, hn, hlt⟩ := hih.mp ⟨j, Nat.lt_of_succ_lt_succ hi, hj⟩
        exact ⟨n + 1, Nat.succ_le_succ hn, by rw [htake]; exact hlt⟩
      · rintro ⟨n, hn, hlt⟩
        cases n with
        | zero =>
          rw [take_zero, sum_nil, UInt64.add_zero] at hlt
          exact absurd hbegin (UInt64.not_le.mpr hlt)
        | succ n =>
          rw [htake] at hlt
          obtain ⟨j, hj, hfind⟩ := hih.mpr ⟨n, Nat.le_of_succ_le_succ hn, hlt⟩
          exact ⟨j + 1, Nat.succ_lt_succ hj, by rw [hfind]; rfl⟩

def weightSizes (getInteger : GetInteger) (clusters : List WeightedClusterEntry) : List Nat :=
  (effectiveWeights getInteger clusters).map UInt64.toNat

theorem findCluster_eq_bucket (hbegin : begin ≤ selectedValue)
    (hselected : selectedValue < WeightedClusterEntry.maxClusterWeight)
    (hsum : begin.toNat + (weightSizes getInteger clusters).sum = 100) :
    findCluster getInteger selectedValue begin clusters =
      some (bucket (weightSizes getInteger clusters) (selectedValue.toNat - begin.toNat)) := by
  induction clusters generalizing begin with
  | nil =>
    have hbegin' := UInt64.le_iff_toNat_le.mp hbegin
    have hselected' := UInt64.lt_iff_toNat_lt.mp hselected
    have hnil : (weightSizes getInteger []).sum = 0 := rfl
    have hmax : WeightedClusterEntry.maxClusterWeight.toNat = 100 := rfl
    omega
  | cons cluster clusters ih =>
    have hcons : weightSizes getInteger (cluster :: clusters) =
        (cluster.clusterWeight getInteger).toNat :: weightSizes getInteger clusters := rfl
    rw [hcons, sum_cons] at hsum
    have hfinish : (begin + cluster.clusterWeight getInteger).toNat =
        begin.toNat + (cluster.clusterWeight getInteger).toNat := by
      rw [UInt64.toNat_add]
      omega
    have hbegin' := UInt64.le_iff_toNat_le.mp hbegin
    rw [findCluster_cons hbegin hselected, hcons, bucket]
    by_cases hlt : selectedValue < begin + cluster.clusterWeight getInteger
    · have hlt' := UInt64.lt_iff_toNat_lt.mp hlt
      rw [if_pos hlt, if_pos (by omega)]
    · have hge := UInt64.not_lt.mp hlt
      have hge' := UInt64.le_iff_toNat_le.mp hge
      rw [if_neg hlt, if_neg (by omega), ih hge (by omega), hfinish, Nat.sub_sub]
      rfl

end Search

section Accepted

variable {getInteger : GetInteger} {runtimeKeyPrefix : Bytes} {clusters : List ClusterWeight}

theorem addWeightedClusters_ok {entries entries' : List WeightedClusterEntry}
    {totalWeight totalWeight' : UInt64}
    (h : addWeightedClusters getInteger runtimeKeyPrefix clusters entries totalWeight =
      .ok (entries', totalWeight')) : ∃ added, entries' = entries ++ added ∧
      totalWeight' = totalWeight + (effectiveWeights getInteger added).sum := by
  induction clusters generalizing entries totalWeight with
  | nil =>
    cases h
    refine ⟨[], (append_nil _).symm, ?_⟩
    rw [effectiveWeights, map_nil, sum_nil, UInt64.add_zero]
  | cons cluster clusters ih =>
    rw [addWeightedClusters] at h
    split at h
    · cases h
    · obtain ⟨added, rfl, rfl⟩ := ih h
      refine ⟨_ :: added, by rw [append_assoc]; rfl, ?_⟩
      rw [UInt64.add_assoc]
      rfl

variable {entries : List WeightedClusterEntry}

section

variable (h : loadWeightedClusters getInteger runtimeKeyPrefix clusters = .ok entries)
include h

theorem loadWeightedClusters_ok :
    (effectiveWeights getInteger entries).sum = WeightedClusterEntry.maxClusterWeight := by
  obtain ⟨⟨added, totalWeight⟩, hadd, hcheck⟩ := ok_of_bind h
  dsimp only at hcheck
  split at hcheck
  · cases hcheck
  · rename_i htotal
    cases hcheck
    obtain ⟨added, rfl, rfl⟩ := addWeightedClusters_ok hadd
    rw [not_not, UInt64.zero_add] at htotal
    exact htotal

theorem loadWeightedClusters_ne_nil :
    entries ≠ [] := by
  rintro rfl
  have hsum := loadWeightedClusters_ok h
  rw [effectiveWeights, map_nil, sum_nil] at hsum
  cases hsum

end

end Accepted

namespace RouteEntryImplBase

variable {route : RouteEntryImplBase} {loaded : GetInteger} {runtimeKeyPrefix : Bytes}
  {clusters : List ClusterWeight}

variable (route)

def Chooses (getInteger : GetInteger) (headers : HeaderMap)
    (randomValue : UInt64) : Prop :=
  ∃ i < route.weightedClusters.length,
    route.clusterEntry getInteger headers randomValue = some (.weighted i)

/-- Each cluster has as many of the 100 residues as its weight says, if the weights have this
sum. -/
def Exact (getInteger : GetInteger) (headers : HeaderMap) : Prop :=
  (weightSizes getInteger route.weightedClusters).sum = 100 → ∀ i,
    Nat.count (fun residue =>
        route.clusterEntry getInteger headers residue.toUInt64 = some (.weighted i)) 100 =
      (weightSizes getInteger route.weightedClusters).getD i 0

variable {route}

section

variable (hne : route.weightedClusters ≠ [])
include hne

theorem clusterEntry_eq (getInteger : GetInteger)
    (headers : HeaderMap) (randomValue : UInt64) :
    route.clusterEntry getInteger headers randomValue =
      (findCluster getInteger (randomValue % WeightedClusterEntry.maxClusterWeight) 0
        route.weightedClusters).map .weighted :=
  if_neg fun hempty => hne (List.isEmpty_iff.mp hempty)

theorem exact_of_ne_nil (getInteger : GetInteger)
    (headers : HeaderMap) : route.Exact getInteger headers := by
  intro hsum i
  have hcount := count_bucket (weightSizes getInteger route.weightedClusters) i
  rw [hsum] at hcount
  rw [← hcount]
  apply count_congr
  intro residue hresidue
  have hvalue : (residue.toUInt64 % WeightedClusterEntry.maxClusterWeight).toNat = residue := by
    rw [UInt64.toNat_mod, UInt64.toNat_ofNat_of_lt' (Nat.lt_trans hresidue (by decide))]
    exact Nat.mod_eq_of_lt hresidue
  rw [clusterEntry_eq hne, findCluster_eq_bucket UInt64.zero_le
    (UInt64.mod_lt _ (by decide)) (by rw [UInt64.toNat_zero, hsum]), hvalue]
  simp [ClusterEntry.weighted.injEq]

theorem chooses_iff (getInteger : GetInteger)
    (headers : HeaderMap) (randomValue : UInt64) : route.Chooses getInteger headers randomValue ↔
      ∃ n ≤ route.weightedClusters.length, randomValue % WeightedClusterEntry.maxClusterWeight <
          ((effectiveWeights getInteger route.weightedClusters).take n).sum := by
  have hselected : randomValue % WeightedClusterEntry.maxClusterWeight <
      WeightedClusterEntry.maxClusterWeight := UInt64.mod_lt _ (by decide)
  have hfind := findCluster_isSome_iff getInteger route.weightedClusters UInt64.zero_le hselected
  simp only [UInt64.zero_add] at hfind
  rw [← hfind, Chooses]
  simp [clusterEntry_eq hne, ClusterEntry.weighted.injEq]

end

/-- A cluster is chosen if and only if some sum of weights, as it is computed, is past the selected
value. -/
theorem clusterEntry_chooses_iff
    (haccepted : loadWeightedClusters loaded runtimeKeyPrefix clusters = .ok route.weightedClusters)
    (getInteger : GetInteger) (headers : HeaderMap) (randomValue : UInt64) :
    (route.Chooses getInteger headers randomValue ∧ route.Exact getInteger headers) ↔
      ∃ n ≤ route.weightedClusters.length, randomValue % WeightedClusterEntry.maxClusterWeight <
          ((effectiveWeights getInteger route.weightedClusters).take n).sum := by
  have hne := loadWeightedClusters_ne_nil haccepted
  rw [and_iff_left (exact_of_ne_nil hne getInteger headers)]
  exact chooses_iff hne getInteger headers randomValue

section Sample

def sampleClusters : List ClusterWeight := [⟨ascii "a", some 30⟩, ⟨ascii "b", some 70⟩]

def sampleRoute : RouteEntryImplBase where
  clusterName := []
  clusterHeaderName := ⟨[], rfl⟩
  isRedirect := false
  weightedClusters := [⟨ascii "w.a", ascii "a", 30⟩, ⟨ascii "w.b", ascii "b", 70⟩]

theorem sampleRoute_accepted :
    loadWeightedClusters (fun _ default => default) (ascii "w") sampleClusters =
      .ok sampleRoute.weightedClusters := rfl

theorem clusterEntry_chooses_iff_sample :
    (sampleRoute.Chooses (fun _ _ => 60) .new 99 ∧ sampleRoute.Exact (fun _ _ => 60) .new) ↔
      ∃ n ≤ 2, (99 : UInt64) % 100 < (([60, 60] : List UInt64).take n).sum :=
  clusterEntry_chooses_iff sampleRoute_accepted (fun _ _ => 60) .new 99

/-- Weights of 10 each leave no cluster for the values from 20 on. -/
theorem sampleRoute_notReached :
    loadWeightedClusters (fun _ default => default) (ascii "w") sampleClusters =
        .ok sampleRoute.weightedClusters ∧ sampleRoute.clusterEntry (fun _ _ => 10) .new 20 = none ∧
      ¬sampleRoute.Chooses (fun _ _ => 10) .new 20 := by
  have hnone : sampleRoute.clusterEntry (fun _ _ => 10) .new 20 = none := by decide
  refine ⟨rfl, hnone, ?_⟩
  rintro ⟨i, -, hsome⟩
  rw [hnone] at hsome
  cases hsome

end Sample

end RouteEntryImplBase

end Meliproxy.Envoy.Router
