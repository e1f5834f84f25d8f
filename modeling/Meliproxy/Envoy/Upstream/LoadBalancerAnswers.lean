import Meliproxy.Envoy.Upstream.LoadBalancer

/-!
# What the load balancers answer

In every reachable state a call of `chooseHost` answers with a host of the set, with a healthy one
outside of a panic, and with none only where there is none to use. `DrawsEmpty` and `Remembers` are
the two cases that the code leaves open.
-/

namespace Meliproxy.Envoy.Upstream

open Lib List

variable {Host : Type} {healthy : Host → Bool}

/-- The healthy lists hold the healthy hosts, and the hosts of the localities are hosts of the
set. -/
structure HostSet.Current (healthy : Host → Bool) (s : HostSet Host) : Prop where
  healthyHosts : s.healthyHosts = s.hosts.filter healthy
  healthyLocalities : s.healthyHostsPerLocality = s.hostsPerLocality.map (List.filter healthy)
  localities : ∀ hosts ∈ s.hostsPerLocality, ∀ host ∈ hosts, host ∈ s.hosts

namespace HostSet.Current

variable {s : HostSet Host} {host : Host}

theorem ofHosts {hosts : List Host} {hostsPerLocality : List (List Host)}
    (h : ∀ locality ∈ hostsPerLocality, ∀ host ∈ locality, host ∈ hosts) :
    (HostSet.ofHosts healthy hosts hostsPerLocality).Current healthy := ⟨rfl, rfl, h⟩

theorem mem_healthyHosts (h : s.Current healthy) (hmem : host ∈ s.healthyHosts) :
    host ∈ s.hosts ∧ healthy host = true := by
  rw [h.healthyHosts] at hmem
  exact mem_filter.mp hmem

theorem mem_locality (h : s.Current healthy) {i : Nat}
    (hmem : host ∈ s.healthyHostsPerLocality.getD i []) : host ∈ s.hosts ∧ healthy host = true := by
  rw [h.healthyLocalities, getD_eq_getElem?_getD, getElem?_map] at hmem
  cases hlocality : s.hostsPerLocality[i]? with
  | none =>
    rw [hlocality] at hmem
    exact absurd hmem not_mem_nil
  | some hosts =>
    rw [hlocality] at hmem
    obtain ⟨hhost, hhealthy⟩ := mem_filter.mp hmem
    exact ⟨h.localities hosts (mem_of_getElem? hlocality) host hhost, hhealthy⟩

end HostSet.Current

/-! A drawn threshold lies in a locality that has more of the upstream hosts than of the local
ones, so it has a healthy host. -/

theorem residualCapacities_length (capacity : Nat) (percentages : List (Nat × Nat)) :
    (residualCapacities capacity percentages).length = percentages.length := by
  induction percentages generalizing capacity with
  | nil => rfl
  | cons percentage rest ih =>
    simp [residualCapacities, ih]

theorem residual_found {capacity threshold : Nat} {percentages : List (Nat × Nat)}
    (habove : capacity < threshold)
    (hbelow : ∃ c ∈ residualCapacities capacity percentages, threshold ≤ c) :
    ∃ upstream localPercentage,
      percentages[(residualCapacities capacity percentages).findIdx (threshold ≤ ·)]? =
        some (upstream, localPercentage) ∧ localPercentage < upstream := by
  induction percentages generalizing capacity with
  | nil =>
    obtain ⟨c, hc, -⟩ := hbelow
    exact absurd hc not_mem_nil
  | cons percentage rest ih =>
    obtain ⟨upstream, localPercentage⟩ := percentage
    rw [residualCapacities] at hbelow ⊢
    by_cases hreached : threshold ≤ if localPercentage < upstream then
        capacity + upstream - localPercentage else capacity
    · refine ⟨upstream, localPercentage, ?_, ?_⟩
      · rw [findIdx_cons, decide_eq_true hreached]
        rfl
      · by_contra hless
        rw [if_neg hless] at hreached
        omega
    · rw [findIdx_cons, decide_eq_false hreached]
      obtain ⟨c, hc, hle⟩ := hbelow
      rcases mem_cons.mp hc with rfl | hc
      · exact absurd hle hreached
      · exact ih (by omega) ⟨c, hc, hle⟩

theorem nonempty_of_percentage {hostsPerLocality : List (List Host)} {i percentage : Nat}
    (h : (calculateLocalityPercentage hostsPerLocality)[i]? = some percentage)
    (hpositive : 0 < percentage) : hostsPerLocality.getD i [] ≠ [] := by
  rw [calculateLocalityPercentage, getElem?_map] at h
  obtain ⟨hosts, hhosts, rfl⟩ := Option.map_eq_some_iff.mp h
  rw [getD_eq_getElem?_getD, hhosts]
  rintro rfl
  simp at hpositive

namespace LoadBalancer

section Draw

variable {hosts : List Host} {draw : Nat}

theorem mem_of_drawHost {host : Host} (h : drawHost hosts draw = some host) : host ∈ hosts :=
  mem_of_getElem? h

theorem drawHost_isSome (draw : Nat) (h : hosts ≠ []) : ∃ host, drawHost hosts draw = some host := by
  have hlt : draw % hosts.length < hosts.length := Nat.mod_lt _ (length_pos_iff.mpr h)
  exact ⟨hosts[draw % hosts.length], getElem?_eq_getElem hlt⟩

end Draw

variable {s s' : LoadBalancer Host} {call : Call Host} {type : LoadBalancerType}

/-- No locality has capacity left, and the one that is drawn has no healthy host. -/
def DrawsEmpty (s : LoadBalancer Host) (call : Call Host) : Prop :=
  s.usesLocality call = true ∧ s.localityRoutingState = .localityResidual ∧
    s.localPercentToRoute ≤ call.drawLocal % 10000 ∧
    s.residualCapacity.getD (s.hostSet.healthyHostsPerLocality.length - 1) 0 = 0 ∧
    s.hostSet.healthyHostsPerLocality.getD
      (call.drawLocality % s.hostSet.healthyHostsPerLocality.length) [] = []

/-- The least request balancer answers with the host that it has chosen before. -/
def Remembers (type : LoadBalancerType) (s : LoadBalancer Host) (call : Call Host) : Prop :=
  type = .leastRequest ∧ call.weighted = true ∧ 0 < s.hitsLeft

/-- What a call of `chooseHost` answers. -/
structure Answers (type : LoadBalancerType) (s : LoadBalancer Host) (call : Call Host) : Prop where
  current : ∀ host, (s.chooseHost type call).1 = some host → host ∈ s.hostSet.hosts
  healthy : isGlobalPanic s.hostSet call.runtime = false → ¬ s.Remembers type call →
    ∀ host, (s.chooseHost type call).1 = some host → s.healthy host = true
  refused : (s.chooseHost type call).1 = none → ¬ s.DrawsEmpty call →
    s.hostSet.hosts = [] ∨
      (isGlobalPanic s.hostSet call.runtime = false ∧
        ∀ host ∈ s.hostSet.hosts, s.healthy host = false)

structure Routes (s : LoadBalancer Host) : Prop where
  direct : s.localityRoutingState ≠ .noLocalityRouting →
    s.hostSet.healthyHostsPerLocality.getD 0 [] ≠ []
  residual : s.localityRoutingState = .localityResidual → ∃ localPercentage : List Nat,
    s.hostSet.healthyHostsPerLocality.length = localPercentage.length + 1 ∧
      s.residualCapacity = 0 :: residualCapacities 0
        ((calculateLocalityPercentage s.hostSet.healthyHostsPerLocality).tail.zip localPercentage)

structure Current (s : LoadBalancer Host) : Prop where
  hostSet : s.hostSet.Current s.healthy
  routes : s.Routes
  remembered : 0 < s.hitsLeft → ∃ host ∈ s.hostSet.hosts, s.lastHost = some host

theorem routes_of_none (h : s.localityRoutingState = .noLocalityRouting) : s.Routes :=
  ⟨fun hroutes => absurd h hroutes, fun hresidual => by rw [h] at hresidual; cases hresidual⟩

theorem routes_regenerate (runtime : RuntimeValues)
    (h : s.localHostSet = none → s.localityRoutingState = .noLocalityRouting) :
    (s.regenerateLocalityRoutingStructures runtime).Routes := by
  rw [regenerateLocalityRoutingStructures]
  split
  next hlocal => exact routes_of_none (h hlocal)
  next localHostSet hlocal =>
    split
    · exact routes_of_none rfl
    · rename_i hstays
      simp only [earlyExitNonLocalityRouting, Bool.or_eq_true, decide_eq_true_eq, bne_iff_ne,
        not_or, List.isEmpty_iff, ne_eq, not_not] at hstays
      obtain ⟨⟨⟨hnumber, hhead⟩, hsame⟩, -⟩ := hstays
      have hdirect : s.hostSet.healthyHostsPerLocality.getD 0 [] ≠ [] := by
        intro hempty
        apply hhead
        rw [headD_eq_head?_getD, head?_eq_getElem?, ← getD_eq_getElem?_getD, hempty]
      dsimp only
      split
      · exact ⟨fun _ => hdirect, fun hresidual => by cases hresidual⟩
      · refine ⟨fun _ => hdirect, fun _ => ⟨_, ?_, rfl⟩⟩
        simp only [calculateLocalityPercentage, length_tail, length_map]
        omega

theorem findIdx_capacities {percentages : List (Nat × Nat)} {draw : Nat}
    (hlast : 0 < (0 :: residualCapacities 0 percentages).getD percentages.length 0) :
    let capacities := 0 :: residualCapacities 0 percentages
    let threshold := draw % capacities.getD percentages.length 0
    capacities.findIdx (threshold ≤ ·) = 0 ∨ ∃ i upstream localPercentage,
      capacities.findIdx (threshold ≤ ·) = i + 1 ∧
        percentages[i]? = some (upstream, localPercentage) ∧ localPercentage < upstream := by
  intro capacities threshold
  by_cases hzero : threshold = 0
  · refine .inl ?_
    rw [findIdx_cons, hzero]
    rfl
  · have hlt : threshold < capacities.getD percentages.length 0 := Nat.mod_lt _ hlast
    have hlast' : ∃ c ∈ residualCapacities 0 percentages, threshold ≤ c := by
      cases percentages with
      | nil =>
        exact absurd hlast (Nat.lt_irrefl 0)
      | cons percentage rest =>
        have hlength : rest.length < (residualCapacities 0 (percentage :: rest)).length := by
          rw [residualCapacities_length]
          exact Nat.lt_succ_self _
        refine ⟨_, getElem_mem hlength, ?_⟩
        rw [length_cons, getD_cons_succ, getD_eq_getElem?_getD, getElem?_eq_getElem hlength] at hlt
        exact Nat.le_of_lt hlt
    obtain ⟨upstream, localPercentage, hfound, hless⟩ :=
      residual_found (Nat.pos_of_ne_zero hzero) hlast'
    refine .inr ⟨_, upstream, localPercentage, ?_, hfound, hless⟩
    rw [findIdx_cons, decide_eq_false (by omega)]
    rfl

theorem localityHosts_ne (hroutes : s.Routes) (hlocality : s.usesLocality call = true)
    (hdraws : ¬ s.DrawsEmpty call) : s.tryChooseLocalLocalityHosts call ≠ [] := by
  have hstate : s.localityRoutingState ≠ .noLocalityRouting := by
    simp only [usesLocality, Bool.and_eq_true, bne_iff_ne] at hlocality
    exact hlocality.1.1.2
  rw [tryChooseLocalLocalityHosts, chooseLocality]
  split
  · exact hroutes.direct hstate
  · rename_i hdirect
    have hresidual : s.localityRoutingState = .localityResidual := by
      cases hs : s.localityRoutingState with
      | noLocalityRouting => exact absurd hs hstate
      | localityDirect => exact absurd hs hdirect
      | localityResidual => rfl
    split
    · exact hroutes.direct hstate
    · rename_i hnot
      dsimp only
      split
      · rename_i hcapacity
        exact fun hempty => hdraws ⟨hlocality, hresidual, by omega, hcapacity, hempty⟩
      · rename_i hcapacity
        obtain ⟨localPercentage, hlength, hcapacities⟩ := hroutes.residual hresidual
        have hnumber : s.hostSet.healthyHostsPerLocality.length - 1 =
            ((calculateLocalityPercentage s.hostSet.healthyHostsPerLocality).tail.zip
              localPercentage).length := by
          simp only [calculateLocalityPercentage, length_zip, length_tail, length_map]
          omega
        rw [hnumber, hcapacities] at hcapacity ⊢
        rcases findIdx_capacities (Nat.pos_of_ne_zero hcapacity) with
          hfirst | ⟨i, upstream, percentage, hindex, hfound, hless⟩
        · rw [hfirst]
          exact hroutes.direct hstate
        · rw [hindex]
          have hupstream := (getElem?_zip_eq_some.mp hfound).1
          rw [getElem?_tail] at hupstream
          exact nonempty_of_percentage hupstream (by omega)

theorem healthy_hostsToUse (h : s.Current) (hpanic : isGlobalPanic s.hostSet call.runtime = false)
    {host : Host} (hmem : host ∈ s.hostsToUse call) :
    host ∈ s.hostSet.hosts ∧ s.healthy host = true := by
  rw [hostsToUse, hpanic, if_neg Bool.false_ne_true] at hmem
  split at hmem
  · exact h.hostSet.mem_locality hmem
  · exact h.hostSet.mem_healthyHosts hmem

theorem mem_hostsToUse (h : s.Current) {host : Host} (hmem : host ∈ s.hostsToUse call) :
    host ∈ s.hostSet.hosts := by
  cases hpanic : isGlobalPanic s.hostSet call.runtime with
  | false => exact (healthy_hostsToUse h hpanic hmem).1
  | true =>
    rw [hostsToUse, if_pos hpanic] at hmem
    exact hmem

theorem refused_hostsToUse (h : s.Current) (hempty : s.hostsToUse call = [])
    (hdraws : ¬ s.DrawsEmpty call) :
    s.hostSet.hosts = [] ∨ (isGlobalPanic s.hostSet call.runtime = false ∧
      ∀ host ∈ s.hostSet.hosts, s.healthy host = false) := by
  rw [hostsToUse] at hempty
  cases hpanic : isGlobalPanic s.hostSet call.runtime with
  | true =>
    rw [if_pos hpanic] at hempty
    exact .inl hempty
  | false =>
    rw [hpanic, if_neg Bool.false_ne_true] at hempty
    split at hempty
    · rename_i hlocality
      exact absurd hempty (localityHosts_ne h.routes hlocality hdraws)
    · rw [h.hostSet.healthyHosts] at hempty
      refine .inr ⟨rfl, fun host hmem => Bool.eq_false_iff.mpr fun hhealthy => ?_⟩
      exact filter_eq_nil_iff.mp hempty host hmem hhealthy

theorem weighted_of_not_remembers (h : ¬ s.Remembers .leastRequest call) :
    ¬ (call.weighted && decide (0 < s.hitsLeft)) = true := by
  intro hhits
  rw [Bool.and_eq_true, decide_eq_true_eq] at hhits
  exact h ⟨rfl, hhits⟩

theorem chooseHost_empty (hempty : s.hostsToUse call = []) (hremembers : ¬ s.Remembers type call) :
    (s.chooseHost type call).1 = none := by
  cases type with
  | roundRobin => rw [chooseHost, roundRobinChooseHost, hempty]; rfl
  | leastRequest =>
    rw [chooseHost, leastRequestChooseHost, if_neg (weighted_of_not_remembers hremembers)]
    change (if (s.hostsToUse call).isEmpty then _ else _ : Option Host × LoadBalancer Host).1 = _
    rw [hempty]
    rfl
  | random => rw [chooseHost, randomChooseHost, hempty]; rfl

theorem chooseHost_nonempty (hne : s.hostsToUse call ≠ []) (hremembers : ¬ s.Remembers type call) :
    ∃ host ∈ s.hostsToUse call, (s.chooseHost type call).1 = some host := by
  have hne' : ¬ (s.hostsToUse call).isEmpty = true := fun h => hne (List.isEmpty_iff.mp h)
  obtain ⟨host₁, h₁⟩ := drawHost_isSome call.drawFirst hne
  obtain ⟨host₂, h₂⟩ := drawHost_isSome call.drawSecond hne
  cases type with
  | roundRobin =>
    obtain ⟨host, hhost⟩ := drawHost_isSome s.rrIndex hne
    refine ⟨host, mem_of_drawHost hhost, ?_⟩
    rw [chooseHost, roundRobinChooseHost, if_neg hne', hhost]
  | leastRequest =>
    rw [chooseHost, leastRequestChooseHost, if_neg (weighted_of_not_remembers hremembers)]
    change ∃ host ∈ _, (if (s.hostsToUse call).isEmpty then _ else _ :
      Option Host × LoadBalancer Host).1 = some host
    rw [if_neg hne']
    split
    · exact ⟨host₁, mem_of_drawHost h₁, h₁⟩
    · let reset : LoadBalancer Host := { s with hitsLeft := 0, lastHost := none }
      rw [show drawHost (reset.hostsToUse call) call.drawFirst = _ from h₁,
        show drawHost (reset.hostsToUse call) call.drawSecond = _ from h₂]
      refine ⟨_, ?_, rfl⟩
      split
      · exact mem_of_drawHost h₁
      · exact mem_of_drawHost h₂
  | random =>
    refine ⟨host₁, mem_of_drawHost h₁, ?_⟩
    rw [chooseHost, randomChooseHost, if_neg hne', h₁]

theorem chooseHost_cases (type : LoadBalancerType) (s : LoadBalancer Host) (call : Call Host) :
    (s.Remembers type call ∧ (s.chooseHost type call).1 = s.lastHost) ∨
      (s.hostsToUse call = [] ∧ (s.chooseHost type call).1 = none) ∨
        ∃ host ∈ s.hostsToUse call, (s.chooseHost type call).1 = some host := by
  by_cases hremembers : s.Remembers type call
  · refine .inl ⟨hremembers, ?_⟩
    obtain ⟨rfl, hweighted, hhits⟩ := hremembers
    rw [chooseHost, leastRequestChooseHost, if_pos (by simp [hweighted, hhits])]
  refine .inr ?_
  by_cases hempty : s.hostsToUse call = []
  · exact .inl ⟨hempty, chooseHost_empty hempty hremembers⟩
  · exact .inr (chooseHost_nonempty hempty hremembers)

theorem Current.answers (h : s.Current) (type : LoadBalancerType) (call : Call Host) :
    s.Answers type call := by
  have hcases := chooseHost_cases type s call
  refine ⟨fun host hhost => ?_, fun hpanic hremembers host hhost => ?_, fun hnone hdraws => ?_⟩
  · rcases hcases with ⟨⟨-, -, hhits⟩, hlast⟩ | ⟨-, hnone⟩ | ⟨host', hmem, hsome⟩
    · obtain ⟨host', hmem, hlast'⟩ := h.remembered hhits
      rw [hlast, hlast'] at hhost
      exact Option.some.inj hhost ▸ hmem
    · rw [hnone] at hhost
      cases hhost
    · rw [hsome] at hhost
      exact Option.some.inj hhost ▸ mem_hostsToUse h hmem
  · rcases hcases with ⟨hremembers', -⟩ | ⟨-, hnone⟩ | ⟨host', hmem, hsome⟩
    · exact absurd hremembers' hremembers
    · rw [hnone] at hhost
      cases hhost
    · rw [hsome] at hhost
      exact Option.some.inj hhost ▸ (healthy_hostsToUse h hpanic hmem).2
  · rcases hcases with ⟨⟨-, -, hhits⟩, hlast⟩ | ⟨hempty, -⟩ | ⟨host', -, hsome⟩
    · obtain ⟨host', -, hlast'⟩ := h.remembered hhits
      rw [hlast, hlast'] at hnone
      cases hnone
    · exact refused_hostsToUse h hempty hdraws
    · rw [hsome] at hnone
      cases hnone

theorem Routes.congr (h : s.Routes) (hhosts : s'.hostSet = s.hostSet)
    (hstate : s'.localityRoutingState = s.localityRoutingState)
    (hcapacity : s'.residualCapacity = s.residualCapacity) : s'.Routes := by
  refine ⟨?_, ?_⟩
  · rw [hhosts, hstate]
    exact h.direct
  · rw [hhosts, hstate, hcapacity]
    exact h.residual

theorem chooseHost_state (type : LoadBalancerType) (s : LoadBalancer Host) (call : Call Host) :
    ∃ rrIndex lastHost hitsLeft, (s.chooseHost type call).2 =
        { s with rrIndex := rrIndex, lastHost := lastHost, hitsLeft := hitsLeft } ∧
      (0 < hitsLeft → (0 < s.hitsLeft ∧ lastHost = s.lastHost) ∨
        ∃ host ∈ s.hostsToUse call, lastHost = some host) := by
  cases type with
  | roundRobin =>
    rw [chooseHost, roundRobinChooseHost]
    split
    · exact ⟨_, _, _, rfl, fun hhits => .inl ⟨hhits, rfl⟩⟩
    · exact ⟨_, _, _, rfl, fun hhits => .inl ⟨hhits, rfl⟩⟩
  | leastRequest =>
    rw [chooseHost, leastRequestChooseHost]
    split
    · rename_i hremembers
      rw [Bool.and_eq_true, decide_eq_true_eq] at hremembers
      exact ⟨_, _, _, rfl, fun _ => .inl ⟨hremembers.2, rfl⟩⟩
    · dsimp only
      split
      · exact ⟨_, _, _, rfl, fun hhits => absurd hhits (Nat.lt_irrefl 0)⟩
      · rename_i hne
        split
        · refine ⟨_, _, _, rfl, fun _ => .inr ?_⟩
          have hne' : s.hostsToUse call ≠ [] := fun h => hne (List.isEmpty_iff.mpr h)
          obtain ⟨host, hhost⟩ := drawHost_isSome call.drawFirst hne'
          exact ⟨host, mem_of_drawHost hhost, hhost⟩
        · split
          · exact ⟨_, _, _, rfl, fun hhits => absurd hhits (Nat.lt_irrefl 0)⟩
          · exact ⟨_, _, _, rfl, fun hhits => absurd hhits (Nat.lt_irrefl 0)⟩
  | random =>
    rw [chooseHost, randomChooseHost]
    split
    · exact ⟨_, _, _, rfl, fun hhits => .inl ⟨hhits, rfl⟩⟩
    · exact ⟨_, _, _, rfl, fun hhits => .inl ⟨hhits, rfl⟩⟩

theorem Current.chooseHost (h : s.Current) (type : LoadBalancerType) (call : Call Host) :
    (s.chooseHost type call).2.Current := by
  obtain ⟨rrIndex, lastHost, hitsLeft, heq, hremembered⟩ := chooseHost_state type s call
  rw [heq]
  refine ⟨h.hostSet, h.routes.congr rfl rfl rfl, fun hhits => ?_⟩
  rcases hremembered hhits with ⟨hhits', hlast⟩ | ⟨host, hmem, hlast⟩
  · obtain ⟨host, hmem, hlast'⟩ := h.remembered hhits'
    exact ⟨host, hmem, hlast.trans hlast'⟩
  · exact ⟨host, mem_hostsToUse h hmem, hlast⟩

end LoadBalancer

end Meliproxy.Envoy.Upstream
