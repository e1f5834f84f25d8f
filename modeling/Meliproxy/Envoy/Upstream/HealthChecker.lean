import Meliproxy.Lib.Runs
import Meliproxy.Lib.Count

/-!
# Active health checking

The sessions of `HealthCheckerImplBase` in `upstream/health_checker_impl.cc`. Timers are left out:
a result of a check comes at any time, and so does a passive failure that a worker posts. A step that
would fail an `ASSERT` answers `none`.
-/

namespace Meliproxy.Envoy.Upstream

open Lib List Option Function

variable {Host : Type} [DecidableEq Host]

inductive FailureType where
  | active
  | passive
  | network
  deriving DecidableEq

inductive CheckResult where
  | success
  | failure (type : FailureType)
  deriving DecidableEq

/-- `results` are those that the session has had. -/
structure ActiveHealthCheckSession where
  numUnhealthy : Nat
  numHealthy : Nat
  firstCheck : Bool
  results : List CheckResult

namespace ActiveHealthCheckSession

def new : ActiveHealthCheckSession := ⟨0, 0, true, []⟩

variable (session : ActiveHealthCheckSession)

def onSuccess (failed : Bool) (healthyThreshold : Nat) :
    ActiveHealthCheckSession × Bool :=
  let firstCheck := session.firstCheck
  let session := { session with
    numUnhealthy := 0
    firstCheck := false
    results := session.results ++ [CheckResult.success] }
  if failed then
    if firstCheck then (session, true)
    else
      let session := { session with numHealthy := session.numHealthy + 1 }
      (session, session.numHealthy = healthyThreshold)
  else (session, false)

def onFailure (failed : Bool) (unhealthyThreshold : Nat)
    (type : FailureType) : ActiveHealthCheckSession × Bool :=
  let session := { session with
    numHealthy := 0
    firstCheck := false
    results := session.results ++ [CheckResult.failure type] }
  if failed then (session, false)
  else if type ≠ .network then (session, true)
  else
    let session := { session with numUnhealthy := session.numUnhealthy + 1 }
    (session, session.numUnhealthy = unhealthyThreshold)

end ActiveHealthCheckSession

structure HealthCheckerStats where
  success : Nat
  failure : Nat
  networkFailure : Nat
  passiveFailure : Nat
  healthy : Nat

structure HealthChecker (Host : Type) where
  unhealthyThreshold : Nat
  healthyThreshold : Nat
  /-- The flag `FAILED_ACTIVE_HC` of the hosts. -/
  failedActiveHc : Host → Bool
  activeSessions : List Host
  session : Host → ActiveHealthCheckSession
  localProcessHealthy : Nat
  stats : HealthCheckerStats
  /-- The calls of the callbacks with `changed_state`. -/
  reports : List (Host × Bool)

namespace HealthChecker

def create (unhealthyThreshold healthyThreshold : Nat) (failedActiveHc : Host → Bool) :
    HealthChecker Host where
  unhealthyThreshold := unhealthyThreshold
  healthyThreshold := healthyThreshold
  failedActiveHc := failedActiveHc
  activeSessions := []
  session := fun _ => .new
  localProcessHealthy := 0
  stats := ⟨0, 0, 0, 0, 0⟩
  reports := []

variable (s : HealthChecker Host)

def refreshHealthyStat : HealthChecker Host :=
  { s with stats := { s.stats with healthy := s.localProcessHealthy } }

def decHealthy : Option (HealthChecker Host) :=
  if 0 < s.localProcessHealthy then
    some ({ s with localProcessHealthy := s.localProcessHealthy - 1 } :
      HealthChecker Host).refreshHealthyStat
  else none

def incHealthy : HealthChecker Host :=
  ({ s with localProcessHealthy := s.localProcessHealthy + 1 } :
    HealthChecker Host).refreshHealthyStat

variable (host : Host)

def setSession (session : ActiveHealthCheckSession) :
    HealthChecker Host := { s with session := Function.update s.session host session }

def setFailed (failed : Bool) : HealthChecker Host :=
  { s with failedActiveHc := Function.update s.failedActiveHc host failed }

def runCallbacks (changedState : Bool) : HealthChecker Host :=
  let s := s.refreshHealthyStat
  { s with reports := s.reports ++ [(host, changedState)] }

def destroySession : Option (HealthChecker Host) :=
  if s.failedActiveHc host then some s else s.decHealthy

/-- A host of `addHosts`. The new session is there before the one that it takes the place of goes. -/
def addHost : Option (HealthChecker Host) := do
  let s := if s.failedActiveHc host then s else s.incHealthy
  if host ∈ s.activeSessions then
    let s ← s.destroySession host
    return s.setSession host .new
  else
    return ({ s with activeSessions := host :: s.activeSessions } :
      HealthChecker Host).setSession host .new

def removeHost : Option (HealthChecker Host) :=
  if host ∈ s.activeSessions then do
    let s ← s.destroySession host
    return { s with activeSessions := s.activeSessions.erase host }
  else none

def handleSuccess : HealthChecker Host :=
  let (session, changedState) :=
    (s.session host).onSuccess (s.failedActiveHc host) s.healthyThreshold
  let s := if changedState then (s.setFailed host false).incHealthy else s
  let s := { s with stats := { s.stats with success := s.stats.success + 1 } }
  (s.setSession host session).runCallbacks host changedState

def countFailure (type : FailureType) (stats : HealthCheckerStats) : HealthCheckerStats :=
  let stats := { stats with failure := stats.failure + 1 }
  match type with
  | .active => stats
  | .network => { stats with networkFailure := stats.networkFailure + 1 }
  | .passive => { stats with passiveFailure := stats.passiveFailure + 1 }

def setUnhealthy (type : FailureType) : Option (HealthChecker Host) := do
  let (session, changedState) :=
    (s.session host).onFailure (s.failedActiveHc host) s.unhealthyThreshold type
  let s ← if changedState then (s.setFailed host true).decHealthy else some s
  let s := { s with stats := countFailure type s.stats }
  return (s.setSession host session).runCallbacks host changedState

def handle : CheckResult → Option (HealthChecker Host)
  | .success => some (s.handleSuccess host)
  | .failure type => s.setUnhealthy host type

/-- Hosts come and go, results come for the sessions that there are, passive failures also for hosts
that have gone. A cluster that depends on health checks fails a host before it adds it. -/
inductive Event (Host : Type) where
  | failNewHost (host : Host)
  | addHost (host : Host)
  | removeHost (host : Host)
  | result (host : Host) (result : CheckResult)
  | setUnhealthyCrossThread (host : Host)

def step : Event Host → Option (HealthChecker Host)
  | .failNewHost host => some (s.setFailed host true)
  | .addHost host => s.addHost host
  | .removeHost host => s.removeHost host
  | .result host result => s.handle host result
  | .setUnhealthyCrossThread host =>
    if host ∈ s.activeSessions then s.setUnhealthy host .passive else some s

end HealthChecker

/-!
## The counters of a session

`Flips` says from the results of a session alone when the flag of its host changes. The counters of
the code agree with it.
-/

def inARow (result : CheckResult) (results : List CheckResult) : Nat :=
  (results.reverse.takeWhile (· = result)).length

/-- When a result, after others, changes the flag of a host. -/
def Flips (unhealthyThreshold healthyThreshold : Nat) (failed : Bool) (results : List CheckResult) :
    CheckResult → Prop
  | .success => failed = true ∧
    (results = [] ∨ inARow .success (results ++ [.success]) = healthyThreshold)
  | .failure .network => failed = false ∧
    inARow (.failure .network) (results ++ [.failure .network]) = unhealthyThreshold
  | .failure _ => failed = false

theorem flips_failure {unhealthyThreshold healthyThreshold : Nat} {failed : Bool}
    {results : List CheckResult} {type : FailureType}
    (h : Flips unhealthyThreshold healthyThreshold failed results (.failure type)) :
    failed = false := by
  cases type with
  | active | passive => exact h
  | network => exact h.1

section Count

variable {result other : CheckResult} {results : List CheckResult}

theorem inARow_concat : inARow result (results ++ [result]) = inARow result results + 1 := by
  simp [inARow]

theorem inARow_other (hne : other ≠ result) : inARow result (results ++ [other]) = 0 := by
  simp [inARow, hne]

end Count

namespace ActiveHealthCheckSession

variable {unhealthyThreshold healthyThreshold : Nat} {failed : Bool}
  {session : ActiveHealthCheckSession}

/-- The counter that matters for the flag counts the results at the end, and is below its
threshold. -/
structure Counted (unhealthyThreshold healthyThreshold : Nat) (failed : Bool)
    (session : ActiveHealthCheckSession) : Prop where
  firstCheck : session.firstCheck = true ↔ session.results = []
  healthy : failed = false → session.numUnhealthy < unhealthyThreshold ∧
    session.numUnhealthy = inARow (.failure .network) session.results
  failed : failed = true → session.numHealthy < healthyThreshold ∧
    session.numHealthy = inARow .success session.results

/-- What a result does to a session. -/
structure Follows (unhealthyThreshold healthyThreshold : Nat) (failed : Bool)
    (session : ActiveHealthCheckSession) (result : CheckResult)
    (next : ActiveHealthCheckSession × Bool) : Prop where
  flips : next.2 = true ↔
    Flips unhealthyThreshold healthyThreshold failed session.results result
  counted : next.1.Counted unhealthyThreshold healthyThreshold (failed ^^ next.2)
  results : next.1.results = session.results ++ [result]

theorem counted_new (hunhealthy : 0 < unhealthyThreshold) (hhealthy : 0 < healthyThreshold)
    (failed : Bool) : new.Counted unhealthyThreshold healthyThreshold failed :=
  ⟨⟨fun _ => rfl, fun _ => rfl⟩, fun _ => ⟨hunhealthy, rfl⟩, fun _ => ⟨hhealthy, rfl⟩⟩

theorem not_first {results : List CheckResult} {result : CheckResult} :
    false = true ↔ results ++ [result] = [] := by
  simp

theorem follows_onSuccess (hunhealthy : 0 < unhealthyThreshold)
    (h : session.Counted unhealthyThreshold healthyThreshold failed) :
    Follows unhealthyThreshold healthyThreshold failed session .success
      (session.onSuccess failed healthyThreshold) := by
  have hreset : 0 = inARow (.failure .network) (session.results ++ [.success]) :=
    (inARow_other (by decide)).symm
  cases failed with
  | false =>
    refine ⟨⟨nofun, fun hflips => Bool.noConfusion hflips.1⟩, ?_, rfl⟩
    exact ⟨not_first, fun _ => ⟨hunhealthy, hreset⟩, nofun⟩
  | true =>
    obtain ⟨hbelow, hcount⟩ := h.failed rfl
    rw [onSuccess]
    dsimp only
    cases hfirst : session.firstCheck with
    | true =>
      refine ⟨⟨fun _ => ⟨rfl, .inl (h.firstCheck.mp hfirst)⟩, fun _ => rfl⟩, ?_, rfl⟩
      exact ⟨not_first, fun _ => ⟨hunhealthy, hreset⟩, nofun⟩
    | false =>
      have hresults : session.results ≠ [] := fun hnil => by
        rw [h.firstCheck.mpr hnil] at hfirst
        cases hfirst
      have hcount' : session.numHealthy + 1 = inARow .success (session.results ++ [.success]) := by
        rw [inARow_concat, hcount]
      refine ⟨?_, ⟨not_first, fun _ => ⟨hunhealthy, hreset⟩, fun hstays => ?_⟩, rfl⟩
      · rw [if_pos rfl, if_neg Bool.false_ne_true, decide_eq_true_eq, hcount']
        refine ⟨fun heq => ⟨rfl, .inr heq⟩, fun hflips => ?_⟩
        rcases hflips.2 with hnil | heq
        · exact absurd hnil hresults
        · exact heq
      · refine ⟨?_, hcount'⟩
        change (true ^^ decide (session.numHealthy + 1 = healthyThreshold)) = true at hstays
        rw [Bool.true_xor, Bool.not_eq_true', decide_eq_false_iff_not] at hstays
        change session.numHealthy + 1 < healthyThreshold
        omega

theorem follows_onFailure (hhealthy : 0 < healthyThreshold) (type : FailureType)
    (h : session.Counted unhealthyThreshold healthyThreshold failed) :
    Follows unhealthyThreshold healthyThreshold failed session (.failure type)
      (session.onFailure failed unhealthyThreshold type) := by
  have hreset : 0 = inARow .success (session.results ++ [.failure type]) :=
    (inARow_other (by simp)).symm
  cases failed with
  | true =>
    refine ⟨⟨nofun, fun hflips => ?_⟩, ⟨not_first, nofun, fun _ => ⟨hhealthy, hreset⟩⟩, rfl⟩
    cases type with
    | active | passive => cases hflips
    | network => cases hflips.1
  | false =>
    obtain ⟨hbelow, hcount⟩ := h.healthy rfl
    cases type with
    | active => exact ⟨⟨fun _ => rfl, fun _ => rfl⟩, ⟨not_first, nofun, fun _ => ⟨hhealthy, hreset⟩⟩, rfl⟩
    | passive =>
      exact ⟨⟨fun _ => rfl, fun _ => rfl⟩, ⟨not_first, nofun, fun _ => ⟨hhealthy, hreset⟩⟩, rfl⟩
    | network =>
      have hcount' : session.numUnhealthy + 1 =
          inARow (.failure .network) (session.results ++ [.failure .network]) := by
        rw [inARow_concat, hcount]
      refine ⟨?_, ⟨not_first, fun hstays => ?_, fun _ => ⟨hhealthy, hreset⟩⟩, rfl⟩
      · change decide (session.numUnhealthy + 1 = unhealthyThreshold) = true ↔ _
        rw [decide_eq_true_eq, hcount']
        exact ⟨fun heq => ⟨rfl, heq⟩, fun hflips => hflips.2⟩
      · refine ⟨?_, hcount'⟩
        change (false ^^ decide (session.numUnhealthy + 1 = unhealthyThreshold)) = false at hstays
        rw [Bool.false_xor, decide_eq_false_iff_not] at hstays
        change session.numUnhealthy + 1 < unhealthyThreshold
        omega

end ActiveHealthCheckSession

end Meliproxy.Envoy.Upstream

/-!
## Health states follow the results

In every run the flags of the hosts change as `Flips` says, and the number of healthy hosts is that
of the sessions.
-/

namespace Meliproxy.Envoy.Upstream

open Lib

namespace HealthChecker

variable {Host : Type} [DecidableEq Host] {s s' : HealthChecker Host} {host : Host}

variable (s)

def healthyHosts : Nat :=
  s.activeSessions.countP fun host => !s.failedActiveHc host

/-- What a result does to a host: the flag changes as `Flips` says, which is reported, and no other
host changes. -/
structure Handled (host : Host) (result : CheckResult) (s' : HealthChecker Host) : Prop where
  flips : s'.failedActiveHc host ≠ s.failedActiveHc host ↔
    Flips s.unhealthyThreshold s.healthyThreshold (s.failedActiveHc host) (s.session host).results
      result
  reported : s'.reports =
    s.reports ++ [(host, s'.failedActiveHc host != s.failedActiveHc host)]
  results : (s'.session host).results = (s.session host).results ++ [result]
  others : ∀ other, other ≠ host → s'.failedActiveHc other = s.failedActiveHc other ∧
    s'.session other = s.session other

/-- The count is right, and the next result of every session is handled. -/
structure Tracks : Prop where
  healthy : s.localProcessHealthy = s.healthyHosts
  handles : ∀ host ∈ s.activeSessions, ∀ result, ∃ s', s.handle host result = some s' ∧
    s.Handled host result s'

structure Inv : Prop where
  thresholds : 0 < s.unhealthyThreshold ∧ 0 < s.healthyThreshold
  healthy : s.localProcessHealthy = s.healthyHosts
  nodup : s.activeSessions.Nodup
  counted : ∀ host ∈ s.activeSessions, (s.session host).Counted s.unhealthyThreshold
    s.healthyThreshold (s.failedActiveHc host)

theorem not_update (failed : Host → Bool) (host : Host) (b : Bool) :
    (fun other => !Function.update failed host b other) =
      Function.update (fun other => !failed other) host !b := by
  funext other
  by_cases heq : other = host
  · subst heq
    rw [Function.update_self, Function.update_self]
  · rw [Function.update_of_ne heq, Function.update_of_ne heq]

/-- The state after a result: the session is replaced, and the flag changes or not. -/
def replaceSession (host : Host)
    (next : ActiveHealthCheckSession × Bool) (healthy : Nat) (stats : HealthCheckerStats) :
    HealthChecker Host :=
  { s with
    failedActiveHc := Function.update s.failedActiveHc host (s.failedActiveHc host ^^ next.2)
    session := Function.update s.session host next.1
    localProcessHealthy := healthy
    stats := stats
    reports := s.reports ++ [(host, next.2)] }

variable {s}

section Replace

variable {next : ActiveHealthCheckSession × Bool} {healthy : Nat} {stats : HealthCheckerStats}
  {result : CheckResult}

theorem Inv.replaceSession (h : s.Inv) (hmem : host ∈ s.activeSessions)
    (hcounted : next.1.Counted s.unhealthyThreshold s.healthyThreshold
      (s.failedActiveHc host ^^ next.2))
    (hhealthy : healthy + (if s.failedActiveHc host then 0 else 1) =
      s.localProcessHealthy + if s.failedActiveHc host ^^ next.2 then 0 else 1) :
    (s.replaceSession host next healthy stats).Inv := by
  refine ⟨h.thresholds, ?_, h.nodup, fun other hother => ?_⟩
  · have hcount := h.healthy
    rw [healthyHosts, countP_erase _ hmem] at hcount
    rw [healthyHosts, HealthChecker.replaceSession]
    dsimp only
    rw [not_update, countP_update _ h.nodup hmem]
    cases hflag : s.failedActiveHc host <;> cases hchanged : next.2 <;>
      simp [hflag, hchanged] at hcount hhealthy ⊢ <;> omega
  · rw [HealthChecker.replaceSession]
    dsimp only
    by_cases heq : other = host
    · subst heq
      rw [Function.update_self, Function.update_self]
      exact hcounted
    · rw [Function.update_of_ne heq, Function.update_of_ne heq]
      exact h.counted other hother

theorem xor_ne_iff (failed changed : Bool) : (failed ^^ changed) ≠ failed ↔ changed = true := by
  cases failed <;> cases changed <;> decide

theorem handled_replaceSession (hfollows : ActiveHealthCheckSession.Follows s.unhealthyThreshold
    s.healthyThreshold (s.failedActiveHc host) (s.session host) result next) :
    s.Handled host result (s.replaceSession host next healthy stats) := by
  have hflag : (s.replaceSession host next healthy stats).failedActiveHc host =
      (s.failedActiveHc host ^^ next.2) := Function.update_self ..
  refine ⟨?_, ?_, ?_, fun other hne => ⟨Function.update_of_ne hne .., Function.update_of_ne hne ..⟩⟩
  · rw [hflag, xor_ne_iff]
    exact hfollows.flips
  · rw [hflag]
    have hchanged : ((s.failedActiveHc host ^^ next.2) != s.failedActiveHc host) = next.2 := by
      cases s.failedActiveHc host <;> cases next.2 <;> rfl
    rw [hchanged]
    rfl
  · exact (congrArg ActiveHealthCheckSession.results (Function.update_self ..)).trans hfollows.results

end Replace

variable (s)

variable {next : ActiveHealthCheckSession × Bool}

theorem handleSuccess_eq (host : Host)
    (hnext : (s.session host).onSuccess (s.failedActiveHc host) s.healthyThreshold = next)
    (hchanged : next.2 = true → s.failedActiveHc host = true) :
    ∃ stats, s.handleSuccess host = s.replaceSession host next
      (s.localProcessHealthy + if next.2 then 1 else 0) stats := by
  obtain ⟨session, changed⟩ := next
  rw [handleSuccess, hnext]
  unfold replaceSession
  cases changed with
  | true =>
    rw [hchanged rfl]
    exact ⟨_, rfl⟩
  | false =>
    rw [Bool.xor_false, Function.update_eq_self]
    exact ⟨_, rfl⟩

theorem setUnhealthy_eq (host : Host) (type : FailureType)
    (hnext : (s.session host).onFailure (s.failedActiveHc host) s.unhealthyThreshold type = next)
    (hchanged : next.2 = true → s.failedActiveHc host = false ∧ 0 < s.localProcessHealthy) :
    ∃ stats, s.setUnhealthy host type = some (s.replaceSession host next
      (s.localProcessHealthy - if next.2 then 1 else 0) stats) := by
  obtain ⟨session, changed⟩ := next
  rw [setUnhealthy, hnext]
  unfold replaceSession
  cases changed with
  | true =>
    obtain ⟨hflag, hpositive⟩ := hchanged rfl
    rw [hflag]
    exact ⟨_, Option.bind_eq_some_iff.mpr ⟨_, if_pos hpositive, rfl⟩⟩
  | false =>
    rw [Bool.xor_false, Function.update_eq_self]
    exact ⟨_, rfl⟩

variable {s}

section

variable (h : s.Inv)
include h

omit [DecidableEq Host] in
theorem Inv.positive (hmem : host ∈ s.activeSessions)
    (hflag : s.failedActiveHc host = false) : 0 < s.localProcessHealthy := by
  rw [h.healthy]
  exact List.countP_pos_iff.mpr ⟨host, hmem, by rw [hflag]; rfl⟩

theorem Inv.handle (hmem : host ∈ s.activeSessions) (result : CheckResult) :
    ∃ s', s.handle host result = some s' ∧ s.Handled host result s' ∧ s'.Inv := by
  have hcounted := h.counted host hmem
  cases result with
  | success =>
    have hfollows := ActiveHealthCheckSession.follows_onSuccess h.thresholds.1 hcounted
    have hchanged (hnext : _ = true) : s.failedActiveHc host = true := (hfollows.flips.mp hnext).1
    obtain ⟨stats, heq⟩ := handleSuccess_eq s host rfl hchanged
    refine ⟨_, congrArg some heq, handled_replaceSession hfollows,
      h.replaceSession hmem hfollows.counted ?_⟩
    cases hnext : ((s.session host).onSuccess (s.failedActiveHc host) s.healthyThreshold).2 with
    | true =>
      rw [hchanged hnext]
      rfl
    | false =>
      rw [Bool.xor_false]
      rfl
  | failure type =>
    have hfollows := ActiveHealthCheckSession.follows_onFailure h.thresholds.2 type hcounted
    have hchanged (hnext : ((s.session host).onFailure (s.failedActiveHc host)
        s.unhealthyThreshold type).2 = true) :
        s.failedActiveHc host = false ∧ 0 < s.localProcessHealthy := by
      have hflag : s.failedActiveHc host = false := flips_failure (hfollows.flips.mp hnext)
      exact ⟨hflag, h.positive hmem hflag⟩
    obtain ⟨stats, heq⟩ := setUnhealthy_eq s host type rfl hchanged
    refine ⟨_, heq, handled_replaceSession hfollows, h.replaceSession hmem hfollows.counted ?_⟩
    cases hnext :
        ((s.session host).onFailure (s.failedActiveHc host) s.unhealthyThreshold type).2 with
    | true =>
      obtain ⟨hflag, hpositive⟩ := hchanged hnext
      rw [hflag]
      exact Nat.sub_add_cancel hpositive
    | false =>
      rw [Bool.xor_false]
      rfl

omit [DecidableEq Host] in
theorem Inv.setStats (stats : HealthCheckerStats) :
    ({ s with stats := stats } : HealthChecker Host).Inv := { h with }

theorem Inv.restart (host : Host) : (s.setSession host .new).Inv := by
  refine { h with counted := fun other hother => ?_ }
  rw [setSession]
  dsimp only
  by_cases heq : other = host
  · subst heq
    rw [Function.update_self]
    exact ActiveHealthCheckSession.counted_new h.thresholds.1 h.thresholds.2 _
  · rw [Function.update_of_ne heq]
    exact h.counted other hother

theorem Inv.addSession (hnew : host ∉ s.activeSessions) {healthy : Nat}
    (hhealthy : healthy = s.localProcessHealthy + if s.failedActiveHc host then 0 else 1) :
    (({ s with
      localProcessHealthy := healthy
      activeSessions := host :: s.activeSessions } : HealthChecker Host).setSession host .new).Inv := by
  refine ⟨h.thresholds, ?_, List.nodup_cons.mpr ⟨hnew, h.nodup⟩, fun other hother => ?_⟩
  · change healthy = (host :: s.activeSessions).countP fun other => !s.failedActiveHc other
    rw [List.countP_cons, hhealthy, h.healthy, healthyHosts]
    cases s.failedActiveHc host with
    | true | false => rfl
  · rw [setSession]
    dsimp only
    by_cases heq : other = host
    · subst heq
      rw [Function.update_self]
      exact ActiveHealthCheckSession.counted_new h.thresholds.1 h.thresholds.2 _
    · rw [Function.update_of_ne heq]
      exact h.counted other ((List.mem_cons.mp hother).resolve_left heq)

theorem Inv.addHost (host : Host) : ∃ s', s.addHost host = some s' ∧ s'.Inv := by
  rw [HealthChecker.addHost]
  cases hflag : s.failedActiveHc host with
  | true =>
    rw [if_pos rfl]
    split
    · exact ⟨_, Option.bind_eq_some_iff.mpr ⟨s, if_pos hflag, rfl⟩, h.restart host⟩
    · rename_i hnew
      exact ⟨_, rfl, h.addSession hnew (by rw [hflag]; rfl)⟩
  | false =>
    rw [if_neg Bool.false_ne_true]
    split
    · refine ⟨_, Option.bind_eq_some_iff.mpr ⟨_, (if_neg ?_).trans (if_pos (Nat.succ_pos _)), rfl⟩,
        (h.setStats _).restart host⟩
      exact Bool.eq_false_iff.mp hflag
    · rename_i hnew
      exact ⟨_, rfl, (h.setStats _).addSession hnew (by rw [hflag]; rfl)⟩

theorem Inv.removeHost (hmem : host ∈ s.activeSessions) :
    ∃ s', s.removeHost host = some s' ∧ s'.Inv := by
  have hcount := h.healthy
  rw [healthyHosts, countP_erase _ hmem] at hcount
  have hrest (healthy : Nat) (stats : HealthCheckerStats)
      (hhealthy : healthy =
        (s.activeSessions.erase host).countP fun host => !s.failedActiveHc host) :
      ({ s with
        localProcessHealthy := healthy
        stats := stats
        activeSessions := s.activeSessions.erase host } : HealthChecker Host).Inv :=
    ⟨h.thresholds, hhealthy, h.nodup.erase host,
      fun other hother => h.counted other (List.mem_of_mem_erase hother)⟩
  rw [HealthChecker.removeHost, if_pos hmem]
  cases hflag : s.failedActiveHc host with
  | true =>
    rw [hflag] at hcount
    exact ⟨_, Option.bind_eq_some_iff.mpr ⟨s, if_pos hflag, rfl⟩, hrest _ _ hcount⟩
  | false =>
    rw [hflag] at hcount
    refine ⟨_, Option.bind_eq_some_iff.mpr
      ⟨_, (if_neg (Bool.eq_false_iff.mp hflag)).trans (if_pos (h.positive hmem hflag)), rfl⟩,
      hrest (s.localProcessHealthy - 1) _ ?_⟩
    rw [hcount]
    rfl

theorem Inv.failNewHost (hnew : host ∉ s.activeSessions) : (s.setFailed host true).Inv := by
  have hsame (other : Host) (hother : other ∈ s.activeSessions) :
      (s.setFailed host true).failedActiveHc other = s.failedActiveHc other :=
    Function.update_of_ne (fun heq : other = host => hnew (heq ▸ hother)) ..
  refine ⟨h.thresholds, ?_, h.nodup, fun other hother => ?_⟩
  · refine h.healthy.trans (List.countP_congr fun other hother => ?_)
    rw [hsame other hother]
  · rw [hsame other hother]
    exact h.counted other hother

end

def Consistent (s : HealthChecker Host) : Event Host → Prop
  | .failNewHost host => host ∉ s.activeSessions
  | .removeHost host => host ∈ s.activeSessions
  | .result host _ => host ∈ s.activeSessions
  | .addHost _ => True
  | .setUnhealthyCrossThread _ => True

theorem inv_step (h : s.Inv) {event : Event Host} (hconsistent : Consistent s event) :
    ∃ s', step s event = some s' ∧ s'.Inv := by
  cases event with
  | failNewHost host => exact ⟨_, rfl, h.failNewHost hconsistent⟩
  | addHost host => exact h.addHost host
  | removeHost host => exact h.removeHost hconsistent
  | result host result =>
    obtain ⟨s', hs', -, hinv⟩ := h.handle hconsistent result
    exact ⟨s', hs', hinv⟩
  | setUnhealthyCrossThread host =>
    rw [step]
    split
    · rename_i hmem
      obtain ⟨s', hs', -, hinv⟩ := h.handle hmem (.failure .passive)
      exact ⟨s', hs', hinv⟩
    · exact ⟨s, rfl, h⟩

/-- Every run goes through, and ends in a state that the results account for. -/
theorem consistent_tracks {unhealthyThreshold healthyThreshold : Nat} {failed : Host → Bool}
    {events : List (Event Host)} (hunhealthy : 0 < unhealthyThreshold)
    (hhealthy : 0 < healthyThreshold)
    (hmeet : AllMeet step Consistent (create unhealthyThreshold healthyThreshold failed) events) :
    ∃ s, run step (create unhealthyThreshold healthyThreshold failed) events = some s ∧ s.Tracks := by
  have hcreate : (create unhealthyThreshold healthyThreshold failed).Inv :=
    ⟨⟨hunhealthy, hhealthy⟩, rfl, List.nodup_nil, fun _ hmem => absurd hmem List.not_mem_nil⟩
  obtain ⟨s, hs, hinv⟩ := run_safe (fun _ _ h hconsistent => inv_step h hconsistent) hcreate hmeet
  refine ⟨s, hs, hinv.healthy, fun host hmem result => ?_⟩
  obtain ⟨s', hs', hhandled, -⟩ := hinv.handle hmem result
  exact ⟨s', hs', hhandled⟩

instance (s : HealthChecker Host) : (event : Event Host) → Decidable (Consistent s event) := by
  intro e
  cases e <;> dsimp only [Consistent] <;> infer_instance

def sampleEvents : List (Event Nat) :=
  [.failNewHost 0, .addHost 0, .addHost 1, .result 0 .success, .result 0 (.failure .network),
    .result 0 (.failure .network), .setUnhealthyCrossThread 1, .removeHost 0]

theorem sampleEvents_tracks :
    ∃ s, run step (create 2 2 fun _ => false) sampleEvents = some s ∧ s.Tracks :=
  consistent_tracks (by decide) (by decide) (by decide)

end HealthChecker

end Meliproxy.Envoy.Upstream
