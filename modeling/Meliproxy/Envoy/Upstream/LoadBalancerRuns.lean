import Meliproxy.Envoy.Upstream.LoadBalancerAnswers

/-!
# Runs of the load balancers

Updates make the structures for locality routing anew and forget the removed host, so that the
state stays current and every call is answered as `Answers` says.
-/

namespace Meliproxy.Envoy.Upstream

open Lib

namespace LoadBalancer

variable {Host : Type} {s s' : LoadBalancer Host} {healthy : Host → Bool} {type : LoadBalancerType}

variable (s)

/-- Hosts of localities are hosts of the set, and the hosts that leave it are said to be removed. -/
def Consistent : Event Host → Prop
  | .updateHosts hosts hostsPerLocality _ hostsRemoved _ =>
    (∀ locality ∈ hostsPerLocality, ∀ host ∈ locality, host ∈ hosts) ∧
      ∀ host ∈ s.hostSet.hosts, host ∈ hosts ∨ host ∈ hostsRemoved
  | _ => True

/-- Without a local host set there are no structures for locality routing. -/
structure Inv : Prop where
  current : s.Current
  unrouted : s.localHostSet = none → s.localityRoutingState = .noLocalityRouting

theorem regenerate_frame (runtime : RuntimeValues) :
    ∃ state percent capacity, s.regenerateLocalityRoutingStructures runtime = { s with
        localityRoutingState := state
        localPercentToRoute := percent
        residualCapacity := capacity } ∧ (s.localHostSet = none → state = s.localityRoutingState) := by
  rw [regenerateLocalityRoutingStructures]
  split
  next => exact ⟨_, _, _, rfl, fun _ => rfl⟩
  next localHostSet hlocal =>
    have hnot (state : LocalityRoutingState) :
        s.localHostSet = none → state = s.localityRoutingState := by
      rw [hlocal]
      intro hnone
      cases hnone
    split
    · exact ⟨_, _, _, rfl, hnot _⟩
    · dsimp only
      split
      · exact ⟨_, _, _, rfl, hnot _⟩
      · exact ⟨_, _, _, rfl, hnot _⟩

variable {s}

variable {hostSet : HostSet Host}

variable {localHostSet : Option (HostSet Host)}

theorem Inv.create (h : hostSet.Current healthy) : (create hostSet healthy localHostSet).Inv :=
  ⟨⟨h, routes_of_none rfl, fun hhits => absurd hhits (Nat.lt_irrefl 0)⟩, fun _ => rfl⟩

theorem Inv.updateLocal (h : s.Inv) (localHostSet : HostSet Host) (runtime : RuntimeValues) :
    (({ s with localHostSet := some localHostSet } :
      LoadBalancer Host).regenerateLocalityRoutingStructures runtime).Inv := by
  have hroutes := routes_regenerate (s := { s with localHostSet := some localHostSet }) runtime
    fun hnone => by cases hnone
  obtain ⟨state, percent, capacity, heq, -⟩ :=
    regenerate_frame { s with localHostSet := some localHostSet } runtime
  rw [heq] at hroutes ⊢
  exact ⟨⟨h.current.hostSet, hroutes, h.current.remembered⟩, fun hnone => by cases hnone⟩

variable [DecidableEq Host]

theorem forgetHost_cases (s : LoadBalancer Host) (hostsRemoved : List Host) :
    (s.forgetHost hostsRemoved = { s with hitsLeft := 0, lastHost := none }) ∨
      (s.forgetHost hostsRemoved = s ∧ ∀ host, s.lastHost = some host → host ∉ hostsRemoved) := by
  rw [forgetHost]
  split
  next hlast =>
    refine .inr ⟨rfl, fun host hhost => ?_⟩
    rw [hlast] at hhost
    cases hhost
  next lastHost hlast =>
    split
    · exact .inl rfl
    · rename_i hkept
      refine .inr ⟨rfl, fun host hhost => ?_⟩
      rw [hlast] at hhost
      exact Option.some.inj hhost ▸ hkept

theorem Inv.updateHostSet (h : s.Inv) {hostsRemoved : List Host}
    (runtime : RuntimeValues) (hcurrent : hostSet.Current healthy)
    (hkept : ∀ host ∈ s.hostSet.hosts, host ∈ hostSet.hosts ∨ host ∈ hostsRemoved) :
    (s.updateHostSet hostSet healthy hostsRemoved runtime).Inv := by
  rw [LoadBalancer.updateHostSet]
  have hroutes := routes_regenerate (s := { s with hostSet := hostSet, healthy := healthy }) runtime
    h.unrouted
  obtain ⟨state, percent, capacity, heq, hstate⟩ :=
    regenerate_frame { s with hostSet := hostSet, healthy := healthy } runtime
  rw [heq] at hroutes ⊢
  have hunrouted (hnone : s.localHostSet = none) : state = .noLocalityRouting :=
    (hstate hnone).trans (h.unrouted hnone)
  rcases forgetHost_cases { s with
      hostSet := hostSet
      healthy := healthy
      localityRoutingState := state
      localPercentToRoute := percent
      residualCapacity := capacity } hostsRemoved with hforgets | ⟨hremembers, hnot⟩
  · rw [hforgets]
    exact ⟨⟨hcurrent, hroutes.congr rfl rfl rfl, fun hhits => absurd hhits (Nat.lt_irrefl 0)⟩,
      hunrouted⟩
  · rw [hremembers]
    refine ⟨⟨hcurrent, hroutes, fun hhits => ?_⟩, hunrouted⟩
    obtain ⟨host, hmem, hlast⟩ := h.current.remembered hhits
    exact ⟨host, (hkept host hmem).resolve_right (hnot host hlast), hlast⟩

theorem inv_step {event : Event Host} (h : s.Inv) (hconsistent : s.Consistent event)
    (hstep : step type s event = some s') : s'.Inv := by
  cases event with
  | updateHosts hosts hostsPerLocality healthy hostsRemoved runtime =>
    cases hstep
    exact h.updateHostSet runtime (.ofHosts hconsistent.1) hconsistent.2
  | reloadHealthyHosts healthy runtime =>
    cases hstep
    exact h.updateHostSet runtime (.ofHosts h.current.hostSet.localities) fun _ hmem => .inl hmem
  | updateLocalHosts localHostSet runtime =>
    rw [step] at hstep
    split at hstep
    · cases hstep
      exact h.updateLocal localHostSet runtime
    · cases hstep
  | chooseHost call =>
    cases hstep
    refine ⟨h.current.chooseHost type call, ?_⟩
    obtain ⟨rrIndex, lastHost, hitsLeft, heq, -⟩ := chooseHost_state type s call
    rw [heq]
    exact h.unrouted

theorem consistent_answers {events : List (Event Host)} (hcreate : hostSet.Current healthy)
    (hmeet : AllMeet (step type) Consistent (create hostSet healthy localHostSet) events)
    (hrun : run (step type) (create hostSet healthy localHostSet) events = some s)
    (call : Call Host) : s.Answers type call :=
  (run_invariant (fun _ _ _ hinv hmeet hstep => inv_step hinv hmeet hstep) hmeet
    (Inv.create hcreate) hrun).current.answers type call

def weighted : Call Nat where
  runtime := ⟨50, 6, true, true⟩
  drawLocal := 9999
  drawLocality := 2
  drawFirst := 0
  drawSecond := 1
  maxHostWeight := 5
  weight := fun _ => 5
  rqActive := fun _ => 0

def twoHosts : HostSet Nat := .ofHosts (fun _ => true) [0, 1] []

def weightedEvents : List (Event Nat) :=
  [.chooseHost weighted, .reloadHealthyHosts (· != 0) weighted.runtime]

/-- A call that draws. -/
def unweighted : Call Nat := { weighted with maxHostWeight := 1 }

theorem weightedEvents_answers : ∃ s, run (step .leastRequest)
    (create twoHosts (fun _ => true) none) weightedEvents = some s ∧
      isGlobalPanic s.hostSet unweighted.runtime = false ∧
      (s.chooseHost .leastRequest unweighted).1 = some 1 ∧ s.Answers .leastRequest unweighted := by
  have hmeet : AllMeet (step .leastRequest) Consistent (create twoHosts (fun _ => true) none)
      weightedEvents := ⟨trivial, fun _ _ => ⟨trivial, fun _ _ => trivial⟩⟩
  exact ⟨_, rfl, by decide, by decide, consistent_answers (.ofHosts (by simp)) hmeet rfl unweighted⟩

def threeLocalities (number : Nat) : HostSet Nat :=
  .ofHosts (fun _ => true) (List.range number) [[0], (List.range number).tail, []]

/-- An empty set of hosts counts as a panic, a request is sent to a locality that has no hosts, and
the remembered host is used after it has failed a health check. -/
theorem chooseHost_unhealthy : (isGlobalPanic (.empty : HostSet Nat) weighted.runtime = true ∧
      ((create (.empty : HostSet Nat) (fun _ => true) none).chooseHost .random weighted).1 = none) ∧
    (∃ s, run (step .random)
        (create (threeLocalities 101) (fun _ => true) (some (threeLocalities 100)))
        [.updateLocalHosts (threeLocalities 100) weighted.runtime] = some s ∧
      s.hostSet.healthyHosts ≠ [] ∧ (s.chooseHost .random weighted).1 = none) ∧
    ∃ s, run (step .leastRequest) (create twoHosts (fun _ => true) none) weightedEvents = some s ∧
      isGlobalPanic s.hostSet weighted.runtime = false ∧
        (s.chooseHost .leastRequest weighted).1 = some 0 ∧ s.healthy 0 = false := by
  refine ⟨by decide, ⟨_, rfl, ?_, ?_⟩, ⟨_, rfl, by decide, by decide, by decide⟩⟩
  · decide +kernel
  · decide +kernel

end LoadBalancer

end Meliproxy.Envoy.Upstream
