import Meliproxy.Lib.Buckets
import Meliproxy.Envoy.Upstream.LoadBalancerAnswers

/-!
# Shares of the localities

How often the last draw of `tryChooseLocalLocalityHosts` takes each locality, among the draws modulo
the residual capacity. The scan stops where the threshold is at most the accumulated capacity, so it
is one draw ahead of the buckets: the first draw takes the local locality, and the last locality
with capacity loses one.
-/

namespace Meliproxy.Envoy.Upstream

open Lib List

variable {Host : Type}

def leftCapacities (percentages : List (Nat × Nat)) : List Nat :=
  percentages.map fun (upstream, localPercentage) => upstream - localPercentage

theorem residualCapacities_cons (capacity upstream localPercentage : Nat)
    (rest : List (Nat × Nat)) : residualCapacities capacity ((upstream, localPercentage) :: rest) =
      (capacity + (upstream - localPercentage)) ::
        residualCapacities (capacity + (upstream - localPercentage)) rest := by
  have hcapacity : (if localPercentage < upstream then capacity + upstream - localPercentage
      else capacity) = capacity + (upstream - localPercentage) := by
    split <;> omega
  rw [residualCapacities]
  simp only [hcapacity]

theorem findIdx_residualCapacities (capacity draw : Nat) (percentages : List (Nat × Nat)) :
    (residualCapacities capacity percentages).findIdx (fun c => capacity + draw + 1 ≤ c) =
      bucket (leftCapacities percentages) draw := by
  induction percentages generalizing capacity draw with
  | nil => rfl
  | cons percentage rest ih =>
    obtain ⟨upstream, localPercentage⟩ := percentage
    rw [residualCapacities_cons, findIdx_cons]
    change _ = bucket ((upstream - localPercentage) :: leftCapacities rest) draw
    rw [bucket]
    by_cases hlt : draw < upstream - localPercentage
    · rw [if_pos hlt, decide_eq_true (by omega)]
      rfl
    · obtain ⟨left, rfl⟩ : ∃ left, draw = (upstream - localPercentage) + left :=
        ⟨draw - (upstream - localPercentage), by omega⟩
      rw [if_neg hlt, decide_eq_false (by omega), Nat.add_sub_cancel_left,
        ← ih (capacity + (upstream - localPercentage)) left]
      simp only [cond_false, Nat.add_assoc]

theorem residualCapacities_last (capacity : Nat) (percentages : List (Nat × Nat)) :
    (capacity :: residualCapacities capacity percentages).getD percentages.length 0 =
      capacity + (leftCapacities percentages).sum := by
  induction percentages generalizing capacity with
  | nil => rfl
  | cons percentage rest ih =>
    obtain ⟨upstream, localPercentage⟩ := percentage
    rw [length_cons, getD_cons_succ, residualCapacities_cons, ih, Nat.add_assoc]
    rfl

theorem leftCapacities_zip {upstream localPercentage : List Nat}
    (hlength : upstream.length = localPercentage.length) (i : Nat) :
    (leftCapacities (upstream.zip localPercentage)).getD i 0 =
      upstream.getD i 0 - localPercentage.getD i 0 := by
  induction upstream generalizing localPercentage i with
  | nil =>
    rw [getD_nil, Nat.zero_sub]
    rfl
  | cons first upstream ih =>
    rcases localPercentage with _ | ⟨firstLocal, localPercentage⟩
    · cases hlength
    cases i with
    | zero => rfl
    | succ i => exact ih (Nat.succ.inj hlength) i

theorem calculateLocalityPercentage_length (hostsPerLocality : List (List Host)) :
    (calculateLocalityPercentage hostsPerLocality).length = hostsPerLocality.length := by
  rw [calculateLocalityPercentage, length_map]

namespace LoadBalancer

variable (s : LoadBalancer Host)

/-- `residual_capacity_[number_of_localities - 1]`. -/
def totalCapacity : Nat :=
  s.residualCapacity.getD (s.hostSet.healthyHostsPerLocality.length - 1) 0

def draws (call : Call Host) (i : Nat) : Nat :=
  Nat.count (fun draw => s.chooseLocality { call with drawLocality := draw } = i) s.totalCapacity

/-- What the upstream cluster has more of than the local one, in hundredths of a percent. -/
def excess (localHostSet : HostSet Host) (i : Nat) : Nat :=
  (calculateLocalityPercentage s.hostSet.healthyHostsPerLocality).getD i 0 -
    (calculateLocalityPercentage localHostSet.healthyHostsPerLocality).getD i 0

/-- Each locality is drawn for what it has left, and the local one is not drawn. -/
def DrawsShares (localHostSet : HostSet Host) (call : Call Host) : Prop :=
  s.draws call 0 = 0 ∧
    ∀ i, 0 < i → i < s.hostSet.healthyHostsPerLocality.length →
      s.draws call i = s.excess localHostSet i

variable {s : LoadBalancer Host} {localHostSet : HostSet Host} {runtime : RuntimeValues}
  {call : Call Host}

/-- The structures of a balancer that routes by residual capacity. -/
structure Residual (s : LoadBalancer Host) (localHostSet : HostSet Host)
    (percentages : List (Nat × Nat)) : Prop where
  state : s.localityRoutingState = .localityResidual
  capacities : s.residualCapacity = 0 :: residualCapacities 0 percentages
  length : s.hostSet.healthyHostsPerLocality.length = percentages.length + 1
  left : ∀ i, (leftCapacities percentages).getD i 0 = s.excess localHostSet (i + 1)

theorem regenerate_residual (hlocal : s.localHostSet = some localHostSet)
    (hstate : (s.regenerateLocalityRoutingStructures runtime).localityRoutingState =
      .localityResidual) : ∃ percentages,
      (s.regenerateLocalityRoutingStructures runtime).Residual localHostSet percentages := by
  rw [regenerateLocalityRoutingStructures, hlocal] at hstate ⊢
  dsimp only at hstate ⊢
  split at hstate
  · cases hstate
  rename_i hearly
  split at hstate
  · cases hstate
  rename_i hless
  rw [if_neg hearly, if_neg hless]
  have hlengths : 2 ≤ s.hostSet.healthyHostsPerLocality.length ∧
      s.hostSet.healthyHostsPerLocality.length = localHostSet.healthyHostsPerLocality.length := by
    simp only [earlyExitNonLocalityRouting, Bool.or_eq_true, decide_eq_true_eq, bne_iff_ne,
      not_or, not_not] at hearly
    omega
  have hupstream := calculateLocalityPercentage_length s.hostSet.healthyHostsPerLocality
  have hlocals := calculateLocalityPercentage_length localHostSet.healthyHostsPerLocality
  refine ⟨_, rfl, rfl, ?_, ?_⟩
  · rw [length_zip, length_tail, length_tail]
    change s.hostSet.healthyHostsPerLocality.length = _
    omega
  · intro i
    rw [leftCapacities_zip (by rw [length_tail, length_tail]; omega)]
    simp [excess]

variable {percentages : List (Nat × Nat)}

section

variable (h : s.Residual localHostSet percentages)
include h

theorem Residual.total : s.totalCapacity = (leftCapacities percentages).sum := by
  rw [totalCapacity, h.capacities, h.length, Nat.add_sub_cancel, residualCapacities_last,
    Nat.zero_add]

section

variable (hdraw : s.localPercentToRoute ≤ call.drawLocal % 10000)
include hdraw

theorem Residual.chooseLocality {draw : Nat}
    (hlt : draw < s.totalCapacity) : s.chooseLocality { call with drawLocality := draw } =
      if draw = 0 then 0 else bucket (leftCapacities percentages) (draw - 1) + 1 := by
  have hpos : ¬s.totalCapacity = 0 := by omega
  have hmod : draw % s.totalCapacity = draw := Nat.mod_eq_of_lt hlt
  have hscan : s.chooseLocality { call with drawLocality := draw } =
      s.residualCapacity.findIdx fun capacity => draw ≤ capacity := by
    rw [LoadBalancer.chooseLocality, if_neg (by rw [h.state]; decide),
      if_neg (Nat.not_lt.mpr hdraw)]
    change (if s.totalCapacity = 0 then _ else
      s.residualCapacity.findIdx fun capacity => draw % s.totalCapacity ≤ capacity) = _
    rw [if_neg hpos, hmod]
  rw [hscan, h.capacities, findIdx_cons]
  split
  · rename_i hzero
    rw [hzero]
    rfl
  · rename_i hne
    obtain ⟨draw, rfl⟩ : ∃ before, draw = before + 1 := ⟨draw - 1, by omega⟩
    rw [decide_eq_false (by omega), cond_false, Nat.add_sub_cancel,
      ← findIdx_residualCapacities 0 draw percentages]
    simp

theorem Residual.draws_eq {n : Nat} (htotal : s.totalCapacity = n + 1) (i : Nat) :
    s.draws call i = Nat.count (fun draw => bucket (leftCapacities percentages) draw + 1 = i) n +
      if i = 0 then 1 else 0 := by
  have hzero : 0 < s.totalCapacity := by omega
  have hfirst := h.chooseLocality hdraw hzero
  rw [if_pos rfl] at hfirst
  rw [draws, htotal, Nat.count_succ']
  simp only [hfirst, eq_comm (a := 0)]
  congr 1
  apply count_congr
  intro draw hlt
  rw [h.chooseLocality hdraw (by omega), if_neg (Nat.succ_ne_zero draw), Nat.add_sub_cancel]

theorem Residual.chooseLocality_lt {draw : Nat}
    (hlt : draw < s.totalCapacity) : s.chooseLocality { call with drawLocality := draw } <
      s.hostSet.healthyHostsPerLocality.length := by
  rw [h.chooseLocality hdraw hlt, h.length]
  split
  · exact Nat.succ_pos _
  · rename_i hne
    have hbefore : draw - 1 < (leftCapacities percentages).sum := by
      rw [← h.total]
      omega
    have hbucket := bucket_lt_length hbefore
    rw [leftCapacities, length_map] at hbucket
    exact Nat.succ_lt_succ hbucket

end

end

/-- With capacity left, the local locality is drawn once, the last locality with an excess once less
than its excess says, and the others as often as theirs says. -/
structure DrawsAhead (s : LoadBalancer Host) (localHostSet : HostSet Host) (call : Call Host)
    (last : Nat) : Prop where
  pos : 0 < last
  inRange : last < s.hostSet.healthyHostsPerLocality.length
  excess : 0 < s.excess localHostSet last
  excessAfter : ∀ i, last < i → s.excess localHostSet i = 0
  drawsLocal : s.draws call 0 = 1
  drawsLast : s.draws call last + 1 = s.excess localHostSet last
  drawsOther : ∀ i, 0 < i → i ≠ last → s.draws call i = s.excess localHostSet i
  stays : ∀ draw < s.totalCapacity, s.chooseLocality { call with drawLocality := draw } <
    s.hostSet.healthyHostsPerLocality.length

theorem Residual.drawsAhead (h : s.Residual localHostSet percentages)
    (hdraw : s.localPercentToRoute ≤ call.drawLocal % 10000) (hpos : 0 < s.totalCapacity) :
    ∃ last, s.DrawsAhead localHostSet call last := by
  obtain ⟨n, htotal⟩ : ∃ n, s.totalCapacity = n + 1 := ⟨s.totalCapacity - 1, by omega⟩
  have hsum : (leftCapacities percentages).sum = n + 1 := h.total.symm.trans htotal
  have hdraws (i : Nat) : s.draws call (i + 1) = s.excess localHostSet (i + 1) -
      if bucket (leftCapacities percentages) n = i then 1 else 0 := by
    rw [h.draws_eq hdraw htotal, if_neg (Nat.succ_ne_zero i), ← h.left, ← count_bucket_pred hsum]
    simp
  have hn : n < (leftCapacities percentages).sum := by omega
  have hlast := size_bucket_pos hn
  rw [h.left] at hlast
  refine ⟨bucket (leftCapacities percentages) n + 1, Nat.succ_pos _, ?_, hlast, ?_, ?_, ?_, ?_,
    fun draw hlt => h.chooseLocality_lt hdraw hlt⟩
  · have hlt := bucket_lt_length hn
    rw [leftCapacities, length_map] at hlt
    rw [h.length]
    exact Nat.succ_lt_succ hlt
  · intro i hi
    obtain ⟨i, rfl⟩ : ∃ j, i = j + 1 := ⟨i - 1, by omega⟩
    rw [← h.left]
    exact size_after_last hsum (by omega)
  · rw [h.draws_eq hdraw htotal, if_pos rfl]
    have hnone : Nat.count (fun draw => bucket (leftCapacities percentages) draw + 1 = 0) n = 0 :=
      Nat.count_iff_forall_not.mpr fun draw _ => Nat.succ_ne_zero _
    rw [hnone]
  · rw [hdraws, if_pos rfl]
    omega
  · intro i hi hne
    obtain ⟨i, rfl⟩ : ∃ j, i = j + 1 := ⟨i - 1, by omega⟩
    rw [hdraws, if_neg (by omega), Nat.sub_zero]

/-- The shares are missed whenever there is capacity to draw from, by one draw. -/
theorem regenerate_drawsShares (s : LoadBalancer Host) (localHostSet : HostSet Host)
    (runtime : RuntimeValues) (call : Call Host) (hlocal : s.localHostSet = some localHostSet)
    (hstate : (s.regenerateLocalityRoutingStructures runtime).localityRoutingState =
      .localityResidual) (hpos : 0 < (s.regenerateLocalityRoutingStructures runtime).totalCapacity)
    (hdraw : (s.regenerateLocalityRoutingStructures runtime).localPercentToRoute ≤
      call.drawLocal % 10000) :
    ¬(s.regenerateLocalityRoutingStructures runtime).DrawsShares localHostSet call ∧ ∃ last,
        (s.regenerateLocalityRoutingStructures runtime).DrawsAhead localHostSet call last := by
  obtain ⟨percentages, hresidual⟩ := regenerate_residual hlocal hstate
  obtain ⟨last, hahead⟩ := hresidual.drawsAhead hdraw hpos
  refine ⟨?_, last, hahead⟩
  intro hshares
  have hnone := hshares.1
  rw [hahead.drawsLocal] at hnone
  cases hnone

section Sample

def sampleHosts (localities : List (List Nat)) : HostSet Nat :=
  ⟨localities.flatten, localities.flatten, localities, localities⟩

def sampleRuntime : RuntimeValues := ⟨50, 0, true, true⟩

def sampleCall : Call Nat := ⟨sampleRuntime, 9999, 0, 0, 0, 1, fun _ => 1, fun _ => 0⟩

def sampleLocal : HostSet Nat := sampleHosts [[1, 2], [3, 4], [5]]

def sampleBalancer : LoadBalancer Nat :=
  .create (sampleHosts [[1], [2, 3], [4]]) (fun _ => true) (some sampleLocal)

theorem regenerate_drawsShares_sample :
    ¬(sampleBalancer.regenerateLocalityRoutingStructures sampleRuntime).DrawsShares sampleLocal
        sampleCall ∧
      ∃ last, (sampleBalancer.regenerateLocalityRoutingStructures sampleRuntime).DrawsAhead
        sampleLocal sampleCall last :=
  regenerate_drawsShares sampleBalancer sampleLocal sampleRuntime sampleCall rfl (by decide)
    (by decide) (by decide)

/-- The draw 0 modulo 1500 takes the local locality. -/
theorem sample_drawsLocal :
    (sampleBalancer.regenerateLocalityRoutingStructures sampleRuntime).localityRoutingState =
        .localityResidual ∧
      (sampleBalancer.regenerateLocalityRoutingStructures sampleRuntime).totalCapacity = 1500 ∧
      ¬(sampleBalancer.regenerateLocalityRoutingStructures sampleRuntime).DrawsShares sampleLocal
        sampleCall := by
  refine ⟨by decide, by decide, ?_⟩
  intro hshares
  have hnone := Nat.count_iff_forall_not.mp hshares.1 0 (by decide)
  exact hnone (by decide)

end Sample

end LoadBalancer

end Meliproxy.Envoy.Upstream
