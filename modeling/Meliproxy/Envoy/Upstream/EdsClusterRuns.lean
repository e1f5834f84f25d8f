import Meliproxy.Envoy.Upstream.EdsClusterHosts

/-!
# The initialization of an EDS cluster

While the callback waits, the counter is the number of hosts of the first update that have had no
result. That needs every one of them to stay until it has one, and no other results to come.
-/

namespace Meliproxy.Envoy.Upstream

open Lib List Option Function

namespace EdsClusterImpl

variable {Address Locality : Type} {s s' : EdsClusterImpl Address Locality}
  {host : HostImpl Address Locality} {hosts : List (HostImpl Address Locality)}

def unchecked (s : EdsClusterImpl Address Locality) (hosts : List (HostImpl Address Locality)) :
    Nat := hosts.countP fun host => (s.healthChecker.session host).results.isEmpty

/-- How far the initialization is. -/
inductive Phase (s : EdsClusterImpl Address Locality) : Prop where
  | unset (hset : s.callbackSet = false) (hcallback : s.initializeCallback = false)
      (hpending : s.pendingHealthChecks = 0) (hcbs : s.hostCheckCompleteCbs = 0)
      (hblocked : s.hcUpdatesBlocked = false) (hruns : s.callbackRuns = 0)
  | unanswered (hset : s.callbackSet = true) (hcallback : s.initializeCallback = true)
      (hpending : s.pendingHealthChecks = 0) (hcbs : s.hostCheckCompleteCbs = 0)
      (hblocked : s.hcUpdatesBlocked = false) (hruns : s.callbackRuns = 0)
      (hnone : s.firstAnswer = none)
  | waiting (hosts : List (HostImpl Address Locality)) (hset : s.callbackSet = true)
      (hcallback : s.initializeCallback = true)
      (hpending : s.pendingHealthChecks = s.unchecked hosts) (hpositive : 0 < s.unchecked hosts)
      (hcbs : s.hostCheckCompleteCbs = 1) (hblocked : s.hcUpdatesBlocked = true)
      (hruns : s.callbackRuns = 0) (hfirst : s.firstAnswer = some hosts)
      (hstay : ∀ host ∈ hosts, s.Unchecked host → host ∈ s.hostSet.hosts)
  | done (hosts : List (HostImpl Address Locality)) (hset : s.callbackSet = true)
      (hcallback : s.initializeCallback = false) (hpending : s.pendingHealthChecks = 0)
      (hblocked : s.hcUpdatesBlocked = false) (hruns : s.callbackRuns = 1)
      (hfirst : s.firstAnswer = some hosts) (hchecked : ∀ host ∈ hosts, ¬s.Unchecked host)

variable (s)

/-- What does not depend on the phase. -/
structure Steady : Prop where
  checker : s.healthChecker.Inv
  sessions : ∀ host, host ∈ s.healthChecker.activeSessions ↔ host ∈ s.hostSet.hosts
  nodup : s.hostSet.hosts.Nodup
  tags : ∀ host ∈ s.hostSet.hosts, host.tag < s.nextTag
  first : ∀ hosts, s.firstAnswer = some hosts → hosts.Nodup ∧ ∀ host ∈ hosts, host.tag < s.nextTag
  healthy : s.hcUpdatesBlocked = false →
    s.hostSet.healthyHosts = HostSet.createHealthyHostList s.healthy s.hostSet.hosts
  safe : s.failed = false

structure Inv : Prop where
  steady : Steady s
  empty : s.firstAnswer = none → s.hostSet.hosts = []
  phase : Phase s

variable {s}

theorem unchecked_positive (h : 0 < s.unchecked hosts) : ∃ host ∈ hosts, s.Unchecked host := by
  obtain ⟨host, hmem, hempty⟩ := countP_pos_iff.mp h
  exact ⟨host, hmem, List.isEmpty_iff.mp hempty⟩

theorem checked_of_zero (h : s.unchecked hosts = 0) : ∀ host ∈ hosts, ¬s.Unchecked host :=
  fun host hmem hempty => countP_eq_zero.mp h host hmem (List.isEmpty_iff.mpr hempty)

section

variable (h : s.initializeCallback = false ∨ s.pendingHealthChecks ≠ 0)
include h

theorem runInitializeCallbackIfAny_of_not :
    s.runInitializeCallbackIfAny = s := by
  refine if_neg fun hboth => ?_
  rw [Bool.and_eq_true, decide_eq_true_eq] at hboth
  rcases h with hcallback | hpending
  · cases hboth.1.symm.trans hcallback
  · exact hpending hboth.2

theorem awaitHealthChecks_of_not : s.awaitHealthChecks = s := by
  refine if_neg fun hboth => ?_
  rw [Bool.and_eq_true, decide_eq_true_eq] at hboth
  rcases h with hcallback | hpending
  · cases hboth.1.symm.trans hcallback
  · exact hpending hboth.2

end

theorem answered_of_some (h : s.firstAnswer = some hosts)
    (other : List (HostImpl Address Locality)) : s.answered other = s := by
  rw [answered, h, some_or, ← h]

theorem Steady.answered (h : Steady s) (hnodup : hosts.Nodup)
    (htags : ∀ host ∈ hosts, host.tag < s.nextTag) : Steady (s.answered hosts) := by
  refine { h with first := fun first hfirst => ?_ }
  rw [EdsClusterImpl.answered] at hfirst
  cases hbefore : s.firstAnswer with
  | none =>
    rw [hbefore, none_or] at hfirst
    cases hfirst
    exact ⟨hnodup, htags⟩
  | some before =>
    rw [hbefore, some_or] at hfirst
    obtain rfl := Option.some.inj hfirst
    exact h.first before hbefore

theorem Inv.answer (h : Inv s) (hempty : s.firstAnswer = none → hosts = []) :
    Inv (s.answered hosts).runInitializeCallbackIfAny := by
  have hnone (hnone : s.firstAnswer = none) : Steady (s.answered hosts) := by
    rw [hempty hnone]
    exact h.steady.answered nodup_nil nofun
  cases h.phase with
  | unset hset hcallback hpending hcbs hblocked hruns =>
    have hstays : (s.answered hosts).runInitializeCallbackIfAny = s.answered hosts :=
      runInitializeCallbackIfAny_of_not (.inl hcallback)
    rw [hstays]
    cases hfirst : s.firstAnswer with
    | none =>
      exact ⟨hnone hfirst, fun hlater => by simp [answered, hfirst] at hlater,
        .unset hset hcallback hpending hcbs hblocked hruns⟩
    | some first =>
      rw [answered_of_some hfirst]
      exact h
  | unanswered hset hcallback hpending hcbs hblocked hruns hfirst =>
    have hsteady := hnone hfirst
    have hrun : (s.answered hosts).runInitializeCallbackIfAny =
        { s.answered hosts with callbackRuns := s.callbackRuns + 1, initializeCallback := false } := by
      have hboth : (s.initializeCallback && decide (s.pendingHealthChecks = 0)) = true := by
        rw [hcallback, hpending]
        rfl
      exact (if_pos hboth).trans (if_pos hcallback)
    have hsome : (s.answered hosts).firstAnswer = some [] := by
      rw [answered, hfirst, hempty hfirst]
      rfl
    rw [hrun]
    refine ⟨{ hsteady with }, fun hlater => ?_, .done [] hset rfl hpending hblocked ?_ hsome
      nofun⟩
    · cases hsome.symm.trans hlater
    · exact congrArg (· + 1) hruns
  | waiting first hset hcallback hpending hpositive hcbs hblocked hruns hfirst hstay =>
    rw [answered_of_some hfirst, runInitializeCallbackIfAny_of_not (.inr (by omega))]
    exact h
  | done first hset hcallback hpending hblocked hruns hfirst hchecked =>
    rw [answered_of_some hfirst, runInitializeCallbackIfAny_of_not (.inl hcallback)]
    exact h

theorem healthy_congr (hflags : s'.healthChecker.failedActiveHc = s.healthChecker.failedActiveHc)
    (houtlier : s'.failedOutlierCheck = s.failedOutlierCheck) : s'.healthy = s.healthy := by
  funext host
  rw [healthy, healthy, hflags, houtlier]

theorem onHostCheckComplete_of_zero (h : s.pendingHealthChecks = 0) : s.onHostCheckComplete = s :=
  if_neg (by omega)

theorem blockHcUpdates_true (h : s.hcUpdatesBlocked = false) :
    s.blockHcUpdates true = { s with hcUpdatesBlocked := true } := by
  simp [blockHcUpdates, h]

theorem blockHcUpdates_false (h : s.hcUpdatesBlocked = true) : s.blockHcUpdates false = { s with
        hcUpdatesBlocked := false
        hostSet := s.hostSet.reloadHealthyHosts s.healthy } := by
  simp only [blockHcUpdates, h, Bool.not_false, if_true, Bool.false_eq_true, if_false]
  rfl

variable [DecidableEq Address] [LinearOrder Locality]

theorem mem_awaited : host ∈ s.awaited ↔ s.initializeCallback = true ∧ ∃ hosts,
    s.firstAnswer = some hosts ∧ host ∈ hosts ∧ host ∈ s.hostSet.hosts ∧ s.Unchecked host := by
  rw [awaited]
  split
  · rename_i hcallback
    cases s.firstAnswer with
    | none => simp
    | some hosts => simp [hcallback]
  · rename_i hnone
    simp [hnone]

theorem mem_of_awaited (h : host ∈ s.awaited) : host ∈ s.hostSet.hosts := by
  obtain ⟨-, -, -, -, hmem, -⟩ := mem_awaited.mp h
  exact hmem

theorem Phase.keep (h : Phase s) (hset : s'.callbackSet = s.callbackSet)
    (hcallback : s'.initializeCallback = s.initializeCallback)
    (hpending : s'.pendingHealthChecks = s.pendingHealthChecks)
    (hcbs : s'.hostCheckCompleteCbs = s.hostCheckCompleteCbs)
    (hblocked : s'.hcUpdatesBlocked = s.hcUpdatesBlocked)
    (hruns : s'.callbackRuns = s.callbackRuns) (hfirst : s'.firstAnswer = s.firstAnswer)
    (hsession : ∀ hosts, s.firstAnswer = some hosts → ∀ host ∈ hosts,
      s'.healthChecker.session host = s.healthChecker.session host)
    (hstay : ∀ host ∈ s.awaited, host ∈ s'.hostSet.hosts) : Phase s' := by
  cases h with
  | unset hset' hcallback' hpending' hcbs' hblocked' hruns' =>
    exact .unset (hset.trans hset') (hcallback.trans hcallback') (hpending.trans hpending')
      (hcbs.trans hcbs') (hblocked.trans hblocked') (hruns.trans hruns')
  | unanswered hset' hcallback' hpending' hcbs' hblocked' hruns' hnone =>
    exact .unanswered (hset.trans hset') (hcallback.trans hcallback') (hpending.trans hpending')
      (hcbs.trans hcbs') (hblocked.trans hblocked') (hruns.trans hruns') (hfirst.trans hnone)
  | waiting hosts hset' hcallback' hpending' hpositive hcbs' hblocked' hruns' hfirst' hstay' =>
    have hcount : s'.unchecked hosts = s.unchecked hosts := by
      refine countP_congr fun host hmem => ?_
      rw [hsession hosts hfirst' host hmem]
    refine .waiting hosts (hset.trans hset') (hcallback.trans hcallback')
      ((hpending.trans hpending').trans hcount.symm) (hcount.symm ▸ hpositive) (hcbs.trans hcbs')
      (hblocked.trans hblocked') (hruns.trans hruns') (hfirst.trans hfirst') fun host hmem hfresh => ?_
    rw [Unchecked, hsession hosts hfirst' host hmem] at hfresh
    exact hstay host (mem_awaited.mpr ⟨hcallback', hosts, hfirst', hmem, hstay' host hmem hfresh,
      hfresh⟩)
  | done hosts hset' hcallback' hpending' hblocked' hruns' hfirst' hchecked =>
    refine .done hosts (hset.trans hset') (hcallback.trans hcallback') (hpending.trans hpending')
      (hblocked.trans hblocked') (hruns.trans hruns') (hfirst.trans hfirst') fun host hmem hfresh => ?_
    rw [Unchecked, hsession hosts hfirst' host hmem] at hfresh
    exact hchecked host hmem hfresh

theorem Phase.reload (h : Phase s) : Phase s.reloadHealthyHosts :=
  h.keep rfl rfl rfl rfl rfl rfl rfl (fun _ _ _ _ => rfl) fun _ => mem_of_awaited

omit [DecidableEq Address] [LinearOrder Locality] in
theorem Steady.complete (h : Steady s) (hset : s.callbackSet = true)
    (hcallback : s.initializeCallback = true) (hpending : s.pendingHealthChecks = 1)
    (hblocked : s.hcUpdatesBlocked = true) (hruns : s.callbackRuns = 0)
    (hfirst : s.firstAnswer = some hosts) (hchecked : ∀ host ∈ hosts, ¬s.Unchecked host) :
    Steady s.onHostCheckComplete ∧ Phase s.onHostCheckComplete ∧
      s.onHostCheckComplete.firstAnswer = s.firstAnswer ∧
      s.onHostCheckComplete.hostSet.hosts = s.hostSet.hosts := by
  have heq : s.onHostCheckComplete = { s with
      pendingHealthChecks := 0
      hcUpdatesBlocked := false
      hostSet := s.hostSet.reloadHealthyHosts s.healthy
      callbackRuns := s.callbackRuns + 1
      initializeCallback := false } := by
    have hzero : s.pendingHealthChecks - 1 = 0 := by omega
    rw [onHostCheckComplete, if_pos (by omega)]
    rw [if_pos hzero, blockHcUpdates_false, hzero]
    · exact if_pos hcallback
    · exact hblocked
  rw [heq]
  refine ⟨{ h with healthy := fun _ => rfl },
    .done hosts hset rfl rfl rfl ?_ hfirst hchecked, rfl, rfl⟩
  rw [hruns]

def setChecker (s : EdsClusterImpl Address Locality)
    (checker : HealthChecker (HostImpl Address Locality)) : EdsClusterImpl Address Locality :=
  { s with healthChecker := checker }

variable {checker : HealthChecker (HostImpl Address Locality)} {result : CheckResult}

theorem Inv.passed (h : Inv s) {b : Bool}
    (hsteady : Steady (if b then (s.setChecker checker).reloadHealthyHosts else s.setChecker checker))
    (hphase : Phase (s.setChecker checker)) (hpending : s.pendingHealthChecks = 0) (n : Nat) :
    Inv (Nat.iterate onHostCheckComplete n
      (if b then (s.setChecker checker).reloadHealthyHosts else s.setChecker checker)) := by
  cases b with
  | false =>
    have hfixed : (s.setChecker checker).onHostCheckComplete = s.setChecker checker :=
      onHostCheckComplete_of_zero hpending
    rw [if_neg Bool.false_ne_true] at hsteady ⊢
    rw [iterate_fixed hfixed]
    exact ⟨hsteady, h.empty, hphase⟩
  | true =>
    have hfixed : (s.setChecker checker).reloadHealthyHosts.onHostCheckComplete =
        (s.setChecker checker).reloadHealthyHosts := onHostCheckComplete_of_zero hpending
    rw [if_pos rfl] at hsteady ⊢
    rw [iterate_fixed hfixed]
    exact ⟨hsteady, h.empty, hphase.reload⟩

section Hosts

theorem unchecked_handled (hhandled : s.healthChecker.Handled host result checker)
    (hnodup : hosts.Nodup) (hmem : host ∈ hosts) (hfresh : s.Unchecked host) :
    (s.setChecker checker).unchecked hosts + 1 = s.unchecked hosts := by
  have hupdate (other : HostImpl Address Locality) : (checker.session other).results.isEmpty =
      Function.update (fun other => (s.healthChecker.session other).results.isEmpty) host false
        other := by
    rw [update_apply]
    split
    · rename_i heq
      rw [heq, hhandled.results]
      simp
    · rename_i hne
      rw [(hhandled.others other hne).2]
  have hbefore := countP_erase (fun other => (s.healthChecker.session other).results.isEmpty) hmem
  have hafter := countP_update (fun other => (s.healthChecker.session other).results.isEmpty) hnodup
    hmem false
  rw [unchecked, unchecked, setChecker]
  rw [countP_congr fun other _ => by rw [hupdate other], hafter, hbefore,
    if_pos (List.isEmpty_iff.mpr hfresh)]
  rfl

theorem Steady.handled (h : Steady s) (hchecker : checker.Inv)
    (hsessions : checker.activeSessions = s.healthChecker.activeSessions)
    (hhandled : s.healthChecker.Handled host result checker) :
    Steady (if !(s.setChecker checker).hcUpdatesBlocked &&
        (checker.failedActiveHc host != s.healthChecker.failedActiveHc host) then
      (s.setChecker checker).reloadHealthyHosts else s.setChecker checker) := by
  have hsame : ∀ other, other ∈ checker.activeSessions ↔ other ∈ s.hostSet.hosts :=
    hsessions ▸ h.sessions
  split
  · have hreload : Steady (s.setChecker checker).reloadHealthyHosts :=
      ⟨hchecker, hsame, h.nodup, h.tags, h.first, fun _ => rfl, h.safe⟩
    exact hreload
  · rename_i hstays
    refine ⟨hchecker, hsame, h.nodup, h.tags, h.first, fun hblocked => ?_, h.safe⟩
    rw [hblocked, Bool.not_false, Bool.true_and, Bool.not_eq_true] at hstays
    have hflags : checker.failedActiveHc = s.healthChecker.failedActiveHc := by
      funext other
      by_cases heq : other = host
      · rw [heq]
        simpa using hstays
      · exact (hhandled.others other heq).1
    have hhealthy : (s.setChecker checker).healthy = s.healthy := healthy_congr hflags rfl
    rw [hhealthy]
    exact h.healthy hblocked

theorem Inv.onResult (h : Inv s) (hactive : host ∈ s.healthChecker.activeSessions)
    (hregular : s.awaited = [] ∨ host ∈ s.awaited) : Inv (s.onResult host result) := by
  obtain ⟨checker, heq, hhandled, hchecker⟩ := h.steady.checker.handle hactive result
  have hsteady := h.steady.handled hchecker (HealthChecker.handle_sessions heq) hhandled
  have hlast : checker.reports.getLast?.any Prod.snd =
      (checker.failedActiveHc host != s.healthChecker.failedActiveHc host) := by
    rw [hhandled.reported, getLast?_concat]
    rfl
  -- no result is lost
  have hchecked (other : HostImpl Address Locality) (hbefore : ¬s.Unchecked other) :
      ¬(s.setChecker checker).Unchecked other := by
    intro hempty
    have hresults : (checker.session other).results = [] := hempty
    by_cases hother : other = host
    · rw [hother, hhandled.results] at hresults
      simp at hresults
    · rw [(hhandled.others other hother).2] at hresults
      exact hbefore hresults
  rw [EdsClusterImpl.onResult, heq]
  change Inv ((s.setChecker checker).runHealthCallbacks _)
  rw [runHealthCallbacks, hlast]
  cases h.phase with
  | unset hset hcallback hpending hcbs hblocked hruns =>
    exact h.passed hsteady (.unset hset hcallback hpending hcbs hblocked hruns) hpending _
  | unanswered hset hcallback hpending hcbs hblocked hruns hnone =>
    have hmem := (h.steady.sessions host).mp hactive
    rw [h.empty hnone] at hmem
    cases hmem
  | waiting hosts hset hcallback hpending hpositive hcbs hblocked hruns hfirst hstay =>
    -- the host is one that the callback waits for
    obtain ⟨other, hother, hfresh⟩ := unchecked_positive hpositive
    have hawaited := mem_awaited.mpr ⟨hcallback, hosts, hfirst, hother, hstay other hother hfresh,
      hfresh⟩
    obtain ⟨-, hosts', hfirst', hmem, -, hunchecked⟩ :=
      mem_awaited.mp (hregular.resolve_left (ne_nil_of_mem hawaited))
    cases hfirst.symm.trans hfirst'
    have hcount := unchecked_handled hhandled (h.steady.first hosts hfirst).1 hmem hunchecked
    have hblocked' : (s.setChecker checker).hcUpdatesBlocked = true := hblocked
    have hcbs' : (s.setChecker checker).hostCheckCompleteCbs = 1 := hcbs
    rw [hblocked', Bool.not_true, Bool.false_and, if_neg Bool.false_ne_true] at hsteady ⊢
    rw [hcbs']
    change Inv (s.setChecker checker).onHostCheckComplete
    rcases Nat.eq_zero_or_pos ((s.setChecker checker).unchecked hosts) with hzero | hmore
    · have hone : (s.setChecker checker).pendingHealthChecks = 1 := by
        change s.pendingHealthChecks = 1
        omega
      obtain ⟨hdone, hphase, hsame, -⟩ := hsteady.complete hset hcallback hone hblocked' hruns hfirst
        (checked_of_zero hzero)
      refine ⟨hdone, fun hnone => ?_, hphase⟩
      cases hfirst.symm.trans (hsame.symm.trans hnone)
    · have hless : (s.setChecker checker).onHostCheckComplete =
          { s.setChecker checker with pendingHealthChecks := s.pendingHealthChecks - 1 } := by
        have hpositive' : 0 < (s.setChecker checker).pendingHealthChecks := by
          change 0 < s.pendingHealthChecks
          omega
        have hmore' : ¬s.pendingHealthChecks - 1 = 0 := by omega
        rw [onHostCheckComplete, if_pos hpositive']
        exact if_neg hmore'
      rw [hless]
      refine ⟨{ hsteady with }, h.empty, .waiting hosts hset hcallback ?_ hmore hcbs
        hblocked hruns hfirst fun other hother hfresh => ?_⟩
      · change s.pendingHealthChecks - 1 = (s.setChecker checker).unchecked hosts
        omega
      · exact hstay other hother (Classical.byContradiction fun hnot => hchecked other hnot hfresh)
  | done hosts hset hcallback hpending hblocked hruns hfirst hall =>
    exact h.passed hsteady (.done hosts hset hcallback hpending hblocked hruns hfirst
      fun other hother => hchecked other (hall other hother)) hpending _

variable (s)

def flagged (u : HostListUpdate Address Locality)
    (count : Nat) : EdsClusterImpl Address Locality :=
  { s with
    healthChecker := s.healthChecker.setFlags u.failedActiveHc
    weight := u.weight
    maxHostWeight := u.maxHostWeight
    nextTag := s.nextTag + count }

def placed (u : HostListUpdate Address Locality) (count : Nat)
    (checker : HealthChecker (HostImpl Address Locality)) : EdsClusterImpl Address Locality :=
  { s with
    healthChecker := checker
    hostSet := .ofHosts (fun host => !(u.failedActiveHc host || s.failedOutlierCheck host))
      u.finalHosts (localityHosts s.localLocality u.finalHosts)
    weight := u.weight
    maxHostWeight := u.maxHostWeight
    nextTag := s.nextTag + count }

variable {s}

variable {newHosts : List (HostImpl Address Locality × Nat)} {u : HostListUpdate Address Locality}

theorem Steady.update (h : Steady s) (htags : ∀ host ∈ newHosts.map Prod.fst,
      s.nextTag ≤ host.tag ∧ host.tag < s.nextTag + newHosts.length)
    (hu : u.Follows s.hostSet.hosts s.healthChecker.failedActiveHc newHosts)
    (hparts : u.Parts s.hostSet.hosts) :
    ∃ checker, (s.flagged u newHosts.length).updateHosts u.finalHosts u.hostsAdded u.currentHosts =
        s.placed u newHosts.length checker ∧ Steady (s.placed u newHosts.length checker) ∧
      (∀ host ∈ u.hostsAdded, checker.session host = .new) ∧
      ∀ host, host ∉ u.hostsAdded → checker.session host = s.healthChecker.session host := by
  have hflags : (s.healthChecker.setFlags u.failedActiveHc).Inv := by
    refine h.checker.setFlags fun host hmem => ?_
    have hnot : host ∉ u.hostsAdded := fun hadded =>
      hparts.fresh host hadded ((h.sessions host).mp hmem)
    rw [hu.failed, decide_eq_false hnot, Bool.or_false]
  obtain ⟨middle, hadd, hmiddle, hmoves, hsessions⟩ := hflags.addHosts hparts.added
    fun host hmem hactive => hparts.fresh host hmem ((h.sessions host).mp hactive)
  obtain ⟨checker, hremove, hchecker, hmoves', hsessions'⟩ := hmiddle.removeHosts hparts.removed.1
    fun host hmem => (hsessions host).mpr (.inl ((h.sessions host).mpr (hparts.removed.2 host hmem)))
  have hfailed : checker.failedActiveHc = u.failedActiveHc := hmoves'.failed.trans hmoves.failed
  have hhealthy : (s.placed u newHosts.length checker).healthy =
      fun host => !(u.failedActiveHc host || s.failedOutlierCheck host) := by
    funext host
    rw [EdsClusterImpl.healthy, placed]
    dsimp only
    rw [hfailed]
  refine ⟨checker, ?_, ⟨hchecker, fun host => ?_, hparts.final, fun host hmem => ?_,
    fun hosts hfirst => ?_, fun _ => ?_, h.safe⟩, fun host hmem => ?_, fun host hnot => ?_⟩
  · have hboth : (do
        let checker ← u.hostsAdded.foldlM HealthChecker.addHost
          (s.healthChecker.setFlags u.failedActiveHc)
        u.currentHosts.foldlM HealthChecker.removeHost checker) = some checker := by
      rw [hadd]
      exact hremove
    rw [updateHosts, onClusterMemberUpdate, flagged]
    dsimp only
    rw [hboth]
    rfl
  · refine (hsessions' host).trans ?_
    rw [hsessions]
    change (host ∈ s.healthChecker.activeSessions ∨ host ∈ u.hostsAdded) ∧ _ ↔ host ∈ u.finalHosts
    rw [h.sessions, hparts.mem]
  · rcases ((hparts.mem host).mp hmem).1 with hcurrent | hadded
    · exact Nat.lt_add_right _ (h.tags host hcurrent)
    · exact (htags host (hu.added.subset hadded)).2
  · obtain ⟨hnodup, hold⟩ := h.first hosts hfirst
    exact ⟨hnodup, fun host hmem => Nat.lt_add_right _ (hold host hmem)⟩
  · rw [hhealthy]
    rfl
  · rw [hmoves'.others host not_mem_nil]
    exact hmoves.started host hmem
  · rw [hmoves'.others host not_mem_nil]
    exact hmoves.others host hnot

omit [DecidableEq Address] [LinearOrder Locality] in
theorem Steady.await (h : Steady s) (hset : s.callbackSet = true)
    (hcallback : s.initializeCallback = true) (hpending : s.pendingHealthChecks = 0)
    (hcbs : s.hostCheckCompleteCbs = 0) (hblocked : s.hcUpdatesBlocked = false)
    (hruns : s.callbackRuns = 0) (hnone : s.firstAnswer = none) (hhosts : s.hostSet.hosts ≠ [])
    (hfresh : ∀ host ∈ s.hostSet.hosts, s.Unchecked host) : Inv (s.awaitHealthChecks.answered
      s.awaitHealthChecks.hostSet.hosts).runInitializeCallbackIfAny := by
  have hpositive : 0 < s.hostSet.hosts.length := length_pos_iff.mpr hhosts
  have hawait : s.awaitHealthChecks = { s with
      pendingHealthChecks := s.hostSet.hosts.length
      hcUpdatesBlocked := true
      hostCheckCompleteCbs := s.hostCheckCompleteCbs + 1 } := by
    have hboth : (s.initializeCallback && decide (s.pendingHealthChecks = 0)) = true := by
      rw [hcallback, hpending]
      rfl
    rw [awaitHealthChecks, if_pos hboth]
    dsimp only
    rw [if_pos hpositive, blockHcUpdates_true]
    exact hblocked
  have hcount : s.unchecked s.hostSet.hosts = s.hostSet.hosts.length :=
    countP_eq_length.mpr fun host hmem => List.isEmpty_iff.mpr (hfresh host hmem)
  have hanswered : (s.awaitHealthChecks.answered s.awaitHealthChecks.hostSet.hosts) = { s with
      pendingHealthChecks := s.hostSet.hosts.length
      hcUpdatesBlocked := true
      hostCheckCompleteCbs := s.hostCheckCompleteCbs + 1
      firstAnswer := some s.hostSet.hosts } := by
    rw [hawait, EdsClusterImpl.answered, hnone]
    rfl
  rw [hanswered, runInitializeCallbackIfAny_of_not (.inr (Nat.ne_of_gt hpositive))]
  refine ⟨{ h with first := fun first hfirst => ?_, healthy := nofun }, nofun,
    .waiting s.hostSet.hosts hset hcallback hcount.symm ?_ ?_ rfl hruns rfl fun host hmem _ => hmem⟩
  · cases hfirst
    exact ⟨h.nodup, h.tags⟩
  · exact Nat.lt_of_lt_of_eq hpositive hcount.symm
  · dsimp only
    rw [hcbs]

omit [DecidableEq Address] [LinearOrder Locality] in
theorem Steady.pass (h : Steady s) (hphase : Phase s)
    (hnot : s.initializeCallback = false ∨ s.pendingHealthChecks ≠ 0) :
    Inv (s.awaitHealthChecks.answered
      s.awaitHealthChecks.hostSet.hosts).runInitializeCallbackIfAny := by
  have hrun : (s.answered s.hostSet.hosts).runInitializeCallbackIfAny =
      s.answered s.hostSet.hosts := runInitializeCallbackIfAny_of_not hnot
  rw [awaitHealthChecks_of_not hnot, hrun]
  have hsome : (s.answered s.hostSet.hosts).firstAnswer ≠ none := by
    rw [EdsClusterImpl.answered]
    cases s.firstAnswer <;> nofun
  refine ⟨h.answered h.nodup h.tags, fun hnone => absurd hnone hsome, ?_⟩
  cases hphase with
  | unset hset hcallback hpending hcbs hblocked hruns =>
    exact .unset hset hcallback hpending hcbs hblocked hruns
  | unanswered hset hcallback hpending hcbs hblocked hruns hnone =>
    rcases hnot with hempty | hpositive
    · cases hempty.symm.trans hcallback
    · exact absurd hpending hpositive
  | waiting hosts hset hcallback hpending hpositive hcbs hblocked hruns hfirst hstay =>
    rw [answered_of_some hfirst]
    exact .waiting hosts hset hcallback hpending hpositive hcbs hblocked hruns hfirst hstay
  | done hosts hset hcallback hpending hblocked hruns hfirst hchecked =>
    rw [answered_of_some hfirst]
    exact .done hosts hset hcallback hpending hblocked hruns hfirst hchecked

section

variable (hu : updateDynamicHostList newHosts s.hostSet.hosts s.healthChecker.failedActiveHc
  s.weight true = u)
include hu

theorem assignHosts_changed (hchanged : (u.hostsAdded ≠ [] || u.currentHosts ≠ []) = true)
    {next : EdsClusterImpl Address Locality}
    (hnext : (s.flagged u newHosts.length).updateHosts u.finalHosts u.hostsAdded u.currentHosts =
      next) : s.assignHosts newHosts = (next.awaitHealthChecks.answered
      next.awaitHealthChecks.hostSet.hosts).runInitializeCallbackIfAny := by
  subst hnext hu
  rw [assignHosts]
  rw [if_pos hchanged]
  rfl

theorem assignHosts_same (hsame : ¬(u.hostsAdded ≠ [] || u.currentHosts ≠ []) = true) :
    s.assignHosts newHosts =
      ((s.flagged u newHosts.length).answered s.hostSet.hosts).runInitializeCallbackIfAny := by
  subst hu
  rw [assignHosts]
  rw [if_neg hsame]
  rfl

end

theorem Inv.assignHosts (h : Inv s) (hnodup : (newHosts.map Prod.fst).Nodup)
    (htags : ∀ host ∈ newHosts.map Prod.fst,
      s.nextTag ≤ host.tag ∧ host.tag < s.nextTag + newHosts.length)
    (hnamed : ∀ host ∈ s.awaited, ∃ new ∈ newHosts, new.1.address = host.address) :
    Inv (s.assignHosts newHosts) := by
  have hfollows := updateDynamicHostList_follows newHosts s.hostSet.hosts
    s.healthChecker.failedActiveHc s.weight
  generalize hu : updateDynamicHostList newHosts s.hostSet.hosts s.healthChecker.failedActiveHc
    s.weight true = u at hfollows
  have hparts := hfollows.parts h.steady.nodup hnodup fun host hnew hcurrent =>
    absurd (h.steady.tags host hcurrent) (Nat.not_lt.mpr (htags host hnew).1)
  by_cases hchanged : (u.hostsAdded ≠ [] || u.currentHosts ≠ []) = true
  · obtain ⟨checker, hnext, hsteady, hstarted, hothers⟩ := h.steady.update htags hfollows hparts
    rw [assignHosts_changed hu hchanged hnext]
    have hold (hosts : List (HostImpl Address Locality)) (hfirst : s.firstAnswer = some hosts)
        (host : HostImpl Address Locality) (hmem : host ∈ hosts) :
        checker.session host = s.healthChecker.session host :=
      hothers host fun hadded => absurd ((h.steady.first hosts hfirst).2 host hmem)
        (Nat.not_lt.mpr (htags host (hfollows.added.subset hadded)).1)
    -- a host that the update names stays
    have hstay (host : HostImpl Address Locality) (hawaits : host ∈ s.awaited) :
        host ∈ u.finalHosts := by
      refine (hparts.mem host).mpr ⟨.inl (mem_of_awaited hawaits), fun hremoved => ?_⟩
      exact hfollows.left host hremoved ((hfollows.addresses _).mpr (hnamed host hawaits))
    have hphase : Phase (s.placed u newHosts.length checker) :=
      h.phase.keep rfl rfl rfl rfl rfl rfl rfl hold hstay
    cases h.phase with
    | unset hset hcallback hpending hcbs hblocked hruns =>
      exact hsteady.pass hphase (.inl hcallback)
    | unanswered hset hcallback hpending hcbs hblocked hruns hnone =>
      have hempty := h.empty hnone
      have hmem (host : HostImpl Address Locality) : host ∈ u.finalHosts ↔ host ∈ u.hostsAdded := by
        have hnot : host ∉ u.currentHosts := fun hremoved => by
          have hcurrent := hparts.removed.2 host hremoved
          rw [hempty] at hcurrent
          cases hcurrent
        rw [hparts.mem, hempty]
        simp [hnot]
      refine hsteady.await hset hcallback hpending hcbs hblocked hruns hnone (fun hnil => ?_)
        fun host hin => congrArg ActiveHealthCheckSession.results (hstarted host ((hmem host).mp hin))
      have hadded : u.hostsAdded = [] := eq_nil_iff_forall_not_mem.mpr fun host hadded => by
        have hin := (hmem host).mpr hadded
        rw [show u.finalHosts = [] from hnil] at hin
        cases hin
      have hremoved : u.currentHosts = [] := eq_nil_of_subset_nil (hempty ▸ hparts.removed.2)
      rw [hadded, hremoved] at hchanged
      cases hchanged
    | waiting hosts hset hcallback hpending hpositive hcbs hblocked hruns hfirst _ =>
      have hnot : s.pendingHealthChecks ≠ 0 := by omega
      exact hsteady.pass hphase (.inr hnot)
    | done hosts hset hcallback hpending hblocked hruns hfirst _ =>
      exact hsteady.pass hphase (.inl hcallback)
  · rw [assignHosts_same hu hchanged]
    have hnone : u.hostsAdded = [] ∧ u.currentHosts = [] := by simpa using hchanged
    have hflags : u.failedActiveHc = s.healthChecker.failedActiveHc := by
      funext host
      rw [hfollows.failed, hnone.1]
      simp
    have hinv : Inv (s.flagged u newHosts.length) := by
      refine ⟨⟨h.steady.checker.setFlags fun host _ => by rw [hflags], h.steady.sessions,
        h.steady.nodup, fun host hmem => Nat.lt_add_right _ (h.steady.tags host hmem),
        fun hosts hfirst => ?_, fun hblocked => ?_, h.steady.safe⟩, h.empty,
        h.phase.keep rfl rfl rfl rfl rfl rfl rfl (fun _ _ _ _ => rfl) fun host =>
          mem_of_awaited⟩
      · obtain ⟨hdistinct, hold⟩ := h.steady.first hosts hfirst
        exact ⟨hdistinct, fun host hmem => Nat.lt_add_right _ (hold host hmem)⟩
      · have hhealthy : (s.flagged u newHosts.length).healthy = s.healthy :=
          healthy_congr hflags rfl
        rw [hhealthy]
        exact h.steady.healthy hblocked
    exact hinv.answer h.empty

theorem Inv.onConfigUpdate (h : Inv s) {resources : List (ClusterLoadAssignment Address Locality)}
    (hregular : s.Regular (.onConfigUpdate resources)) : Inv (s.onConfigUpdate resources) := by
  have hfailed : Inv s.onConfigUpdateFailed := h.answer fun _ => rfl
  match resources with
  | [] => exact h.answer fun _ => rfl
  | [assignment] =>
    rw [EdsClusterImpl.onConfigUpdate]
    split
    · exact hfailed
    · rename_i hname
      split
      · rename_i newHosts hnew
        obtain ⟨hnodup, htags⟩ := newHosts_tags hnew
        exact h.assignHosts hnodup htags (hregular (not_not.mp hname) newHosts hnew)
      · exact hfailed
  | _ :: _ :: _ => exact hfailed

theorem Inv.step (h : Inv s) {event : Event Address Locality} (hregular : s.Regular event)
    (hstep : s.step event = some s') : Inv s' := by
  cases event with
  | setInitializedCb =>
    rw [EdsClusterImpl.step] at hstep
    split at hstep
    · cases hstep
    · rename_i hunset
      cases hstep
      have hnone : s.firstAnswer = none := hregular
      refine ⟨{ h.steady with }, h.empty, ?_⟩
      cases h.phase with
      | unset _ _ hpending hcbs hblocked hruns =>
        exact .unanswered rfl rfl hpending hcbs hblocked hruns hnone
      | unanswered hset => exact absurd hset hunset
      | waiting _ hset => exact absurd hset hunset
      | done _ hset => exact absurd hset hunset
  | onConfigUpdate resources =>
    cases hstep
    exact h.onConfigUpdate hregular
  | onConfigUpdateFailed =>
    cases hstep
    exact h.answer fun _ => rfl
  | result host result =>
    rw [EdsClusterImpl.step] at hstep
    split at hstep
    · rename_i hactive
      cases hstep
      exact h.onResult hactive (hregular ((h.steady.sessions host).mp hactive))
    · cases hstep
  | setUnhealthyCrossThread host =>
    cases hstep
    split
    · rename_i hactive
      exact h.onResult hactive (hregular ((h.steady.sessions host).mp hactive))
    · exact h
  | outlierChangedState host failed =>
    cases hstep
    have hphase : Phase ({ s with
        failedOutlierCheck := Function.update s.failedOutlierCheck host failed } :
        EdsClusterImpl Address Locality) :=
      h.phase.keep rfl rfl rfl rfl rfl rfl rfl (fun _ _ _ _ => rfl) fun host =>
        mem_of_awaited
    exact ⟨{ h.steady with healthy := fun _ => rfl }, h.empty, hphase.reload⟩

omit [DecidableEq Address] [LinearOrder Locality] in
theorem Inv.create (clusterName : String) (localLocality : Option Locality)
    {unhealthyThreshold healthyThreshold : Nat} (hunhealthy : 0 < unhealthyThreshold)
    (hhealthy : 0 < healthyThreshold) :
    Inv (create clusterName localLocality unhealthyThreshold healthyThreshold :
      EdsClusterImpl Address Locality) :=
  ⟨⟨⟨⟨hunhealthy, hhealthy⟩, rfl, nodup_nil, nofun⟩, fun _ => Iff.rfl, nodup_nil, nofun,
    nofun, fun _ => rfl, rfl⟩, fun _ => rfl, .unset rfl rfl rfl rfl rfl rfl⟩

omit [DecidableEq Address] [LinearOrder Locality] in
theorem Inv.initializes (h : Inv s) : Initializes s := by
  have hpending (hnone : s.callbackRuns = 0) (hnot : ¬s.IsReady) :
      s.callbackRuns = 1 ↔ s.IsReady := by
    rw [hnone]
    exact ⟨nofun, fun hready => absurd hready hnot⟩
  have hbefore (hset : s.callbackSet = true) (hruns : s.callbackRuns = 0)
      (hdone : s.callbackSet = true → s.callbackRuns = 1) : False := by
    have hone := hdone hset
    omega
  cases h.phase with
  | unset hset _ _ _ hblocked hruns =>
    exact ⟨h.steady.safe, by omega, fun hset' => absurd (hset.symm.trans hset') nofun,
      fun _ => h.steady.healthy hblocked⟩
  | unanswered hset _ _ _ _ hruns hnone =>
    refine ⟨h.steady.safe, by omega, fun _ => hpending hruns ?_, fun hdone =>
      (hbefore hset hruns hdone).elim⟩
    rintro ⟨hosts, hfirst, -⟩
    cases hnone.symm.trans hfirst
  | waiting hosts hset _ _ hpositive _ _ hruns hfirst hstay =>
    refine ⟨h.steady.safe, by omega, fun _ => hpending hruns ?_, fun hdone =>
      (hbefore hset hruns hdone).elim⟩
    rintro ⟨hosts', hfirst', hready⟩
    cases hfirst.symm.trans hfirst'
    obtain ⟨host, hmem, hfresh⟩ := unchecked_positive hpositive
    exact hready host hmem (hstay host hmem hfresh) hfresh
  | done hosts hset _ _ hblocked hruns hfirst hchecked =>
    exact ⟨h.steady.safe, by omega, fun _ => ⟨fun _ => ⟨hosts, hfirst, fun host hmem _ =>
      hchecked host hmem⟩, fun _ => hruns⟩, fun _ => h.steady.healthy hblocked⟩

/-- In a run whose steps are regular the callback runs once, as soon as the hosts of the first
update that are left have had a result, and from then on the healthy hosts follow the flags. -/
theorem run_initializes (clusterName : String) (localLocality : Option Locality)
    {unhealthyThreshold healthyThreshold : Nat} (hunhealthy : 0 < unhealthyThreshold)
    (hhealthy : 0 < healthyThreshold) (events : List (Event Address Locality))
    (hregular : AllMeet EdsClusterImpl.step Regular
      (create clusterName localLocality unhealthyThreshold healthyThreshold) events)
    (hrun : run EdsClusterImpl.step
      (create clusterName localLocality unhealthyThreshold healthyThreshold) events = some s) :
    Initializes s :=
  (run_invariant (fun _ _ _ h hregular hstep => Inv.step h hregular hstep) hregular
    (Inv.create clusterName localLocality hunhealthy hhealthy) hrun).initializes

instance (s : EdsClusterImpl Address Locality) (event : Event Address Locality) :
    Decidable (s.Regular event) := by
  unfold Regular
  split <;> infer_instance

def sampleAssignment (addresses : List Nat) : ClusterLoadAssignment Nat Nat :=
  ⟨"c", [⟨0, addresses.map fun address => ⟨some address, 1⟩⟩]⟩

def sampleEvents : List (Event Nat Nat) :=
  [.setInitializedCb, .onConfigUpdate [sampleAssignment [10, 11]],
    .onConfigUpdate [sampleAssignment [10, 11, 12]], .result ⟨0, 10, 0⟩ .success,
    .outlierChangedState ⟨1, 11, 0⟩ true, .result ⟨1, 11, 0⟩ (.failure .network),
    .result ⟨4, 12, 0⟩ .success]

theorem run_initializes_sample : ∃ s : EdsClusterImpl Nat Nat,
    run EdsClusterImpl.step (create "c" none 1 1) sampleEvents = some s ∧ Initializes s := by
  obtain ⟨s, hrun⟩ := isSome_iff_exists.mp
    (show (run EdsClusterImpl.step (create "c" none 1 1) sampleEvents).isSome = true from
      by decide +kernel)
  exact ⟨s, hrun, run_initializes "c" none (by decide) (by decide) sampleEvents
    (by decide +kernel) hrun⟩

/-- One host has two results, the other none. -/
def repeatedEvents : List (Event Nat Nat) :=
  [.setInitializedCb, .onConfigUpdate [sampleAssignment [10, 11]], .result ⟨0, 10, 0⟩ .success,
    .result ⟨0, 10, 0⟩ .success]

set_option synthInstance.maxSize 512 in
/-- The second result counts for the other host. -/
theorem run_initializes_repeated : ∃ s : EdsClusterImpl Nat Nat,
    run EdsClusterImpl.step (create "c" none 1 1) repeatedEvents = some s ∧ ¬Initializes s := by
  have hview : (run EdsClusterImpl.step (create "c" none 1 1) repeatedEvents).map
      (fun s : EdsClusterImpl Nat Nat => (s.callbackSet, s.callbackRuns, s.firstAnswer,
        s.hostSet.hosts, decide (s.Unchecked ⟨1, 11, 0⟩))) =
      some (true, 1, some [⟨0, 10, 0⟩, ⟨1, 11, 0⟩], [⟨0, 10, 0⟩, ⟨1, 11, 0⟩], true) := by
    decide +kernel
  obtain ⟨s, hrun, hs⟩ := map_eq_some_iff.mp hview
  simp only [Prod.mk.injEq] at hs
  obtain ⟨hset, hruns, hfirst, hhosts, hfresh⟩ := hs
  refine ⟨s, hrun, fun h => ?_⟩
  obtain ⟨hosts, hfirst', hready⟩ := (h.whenReady hset).mp hruns
  cases hfirst.symm.trans hfirst'
  exact hready ⟨1, 11, 0⟩ (by simp) (by rw [hhosts]; simp) (of_decide_eq_true hfresh)

end Hosts

end EdsClusterImpl

end Meliproxy.Envoy.Upstream
