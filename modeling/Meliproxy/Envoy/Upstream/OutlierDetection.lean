import Meliproxy.Lib.Runs

/-!
# Outlier detection

`DetectorImpl` of `upstream/outlier_detection_impl.cc`. A step that would fail an `ASSERT` or would
take the gauge below zero answers `none`. The gauge is shared by the detectors of one stats scope:
`contribution` is what this detector has added to it. Runtime values, times, success rates and the
order of the hash map are free in every event.
-/

namespace Meliproxy.Envoy.Upstream.Outlier

open Lib Function

variable {Host Rate : Type} [DecidableEq Host]

/-- `DetectorHostMonitorImpl`. -/
structure DetectorHostMonitor where
  consecutive5xx : UInt32
  numEjections : Nat
  lastEjectionTime : Option Int
  lastUnejectionTime : Option Int

def DetectorHostMonitor.new : DetectorHostMonitor := ⟨0, 0, none, none⟩

structure DetectionStats where
  ejectionsTotal : Nat
  ejectionsOverflow : Nat
  ejectionsConsecutive5xx : Nat
  ejectionsSuccessRate : Nat

/-- What held when a host was about to be ejected: whether it was ejected already, and how many of
the monitored hosts were. -/
structure Ejection (Host : Type) where
  host : Host
  failedOutlierCheck : Bool
  ejectedHosts : Nat
  hostMonitors : Nat
  maxEjectionPercent : Nat

structure Detector (Host : Type) where
  hostMonitors : List Host
  /-- A host keeps its monitor when it is removed. -/
  monitor : Host → DetectorHostMonitor
  failedOutlierCheck : Host → Bool
  contribution : Int
  otherDetectors : Nat
  stats : DetectionStats
  /-- The calls of `onConsecutive5xxWorker` that the main thread has not made yet. -/
  posts : List Host
  ejections : List (Ejection Host)
  alive : Bool

namespace Detector

variable (s : Detector Host)

def ejectionsActive : Int := s.contribution + s.otherDetectors

def ejectedHosts : Nat := s.hostMonitors.countP s.failedOutlierCheck

variable (host : Host)

def setMonitor (monitor : DetectorHostMonitor) : Detector Host :=
  { s with monitor := Function.update s.monitor host monitor }

def setFailed (failed : Bool) : Detector Host :=
  { s with failedOutlierCheck := Function.update s.failedOutlierCheck host failed }

theorem monitor_self (s : Detector Host) (host : Host) (monitor : DetectorHostMonitor) :
    (s.setMonitor host monitor).monitor host = monitor := update_self ..

theorem monitor_of_ne (s : Detector Host) {host other : Host} (hne : other ≠ host)
    (monitor : DetectorHostMonitor) : (s.setMonitor host monitor).monitor other = s.monitor other :=
  update_of_ne hne ..

theorem failed_self (s : Detector Host) (host : Host) (failed : Bool) :
    (s.setFailed host failed).failedOutlierCheck host = failed := update_self ..

theorem failed_of_ne (s : Detector Host) {host other : Host} (hne : other ≠ host) (failed : Bool) :
    (s.setFailed host failed).failedOutlierCheck other = s.failedOutlierCheck other :=
  update_of_ne hne ..

def incActive : Detector Host := { s with contribution := s.contribution + 1 }

/-- `ejections_active_.dec()`, which must not be at zero. -/
def decActive : Option (Detector Host) :=
  if 0 < s.ejectionsActive then some { s with contribution := s.contribution - 1 } else none

def addHostMonitor : Option (Detector Host) :=
  if host ∈ s.hostMonitors then none
  else some (({ s with hostMonitors := host :: s.hostMonitors } : Detector Host).setMonitor host .new)

def removeHost : Option (Detector Host) :=
  if host ∈ s.hostMonitors then do
    let s ← if s.failedOutlierCheck host then s.decActive else some s
    return { s with hostMonitors := s.hostMonitors.erase host }
  else none

def onMemberUpdate (hostsAdded hostsRemoved : List Host) : Option (Detector Host) := do
  let s ← hostsAdded.foldlM addHostMonitor s
  hostsRemoved.foldlM removeHost s

def eject (ejectionTime : Int) : Option (Detector Host) :=
  if s.failedOutlierCheck host then none
  else
    let monitor := s.monitor host
    some ((s.setFailed host true).setMonitor host { monitor with
      numEjections := monitor.numEjections + 1
      lastEjectionTime := some ejectionTime })

/-- The comparison of doubles is exact for numbers of hosts that occur. -/
def ejectHost (maxEjectionPercent : Nat) (enforceEjection : Bool)
    (currentTime : Int) : Option (Detector Host) :=
  let maxEjectionPercent := min 100 maxEjectionPercent
  if 100 * s.ejectionsActive < maxEjectionPercent * s.hostMonitors.length then
    let stats := { s.stats with ejectionsTotal := s.stats.ejectionsTotal + 1 }
    if enforceEjection then
      let ejection : Ejection Host := {
        host := host
        failedOutlierCheck := s.failedOutlierCheck host
        ejectedHosts := s.ejectedHosts
        hostMonitors := s.hostMonitors.length
        maxEjectionPercent := maxEjectionPercent }
      ({ s.incActive with stats := stats, ejections := s.ejections ++ [ejection] } :
        Detector Host).eject host currentTime
    else some { s with stats := stats }
  else some { s with stats := { s.stats with ejectionsOverflow := s.stats.ejectionsOverflow + 1 } }

def onConsecutive5xxWorker (maxEjectionPercent : Nat)
    (enforceEjection : Bool) (currentTime : Int) : Option (Detector Host) :=
  if host ∉ s.hostMonitors then some s
  else if s.failedOutlierCheck host then some s
  else do
    let stats := { s.stats with ejectionsConsecutive5xx := s.stats.ejectionsConsecutive5xx + 1 }
    let s ← ({ s with stats := stats } : Detector Host).ejectHost host maxEjectionPercent
      enforceEjection currentTime
    return s.setMonitor host { s.monitor host with consecutive5xx := 0 }

def checkHostForUneject (baseEjectTime : Nat) (now : Int) (s : Detector Host) (host : Host) :
    Option (Detector Host) :=
  if s.failedOutlierCheck host then
    let monitor := s.monitor host
    if monitor.numEjections = 0 then none
    else do
      let lastEjectionTime ← monitor.lastEjectionTime
      if (baseEjectTime * monitor.numEjections : Int) ≤ now - lastEjectionTime then do
        let s ← s.decActive
        return (s.setFailed host false).setMonitor host { monitor with lastUnejectionTime := some now }
      else some s
  else some s

/-- What the interval timer reads. `isOutlier` compares a success rate with the threshold that is
computed from those of all hosts. -/
structure Interval (Host Rate : Type) where
  order : List Host
  now : Int
  baseEjectTime : Nat
  successRateMinimumHosts : Nat
  successRate : Host → Option Rate
  isOutlier : List (Host × Rate) → Rate → Bool
  maxEjectionPercent : Nat
  enforceEjection : Host → Bool
  currentTime : Host → Int

variable (interval : Interval Host Rate)

def validSuccessRateHosts : List (Host × Rate) :=
  interval.order.filterMap fun host =>
    if s.failedOutlierCheck host then none else (interval.successRate host).map (host, ·)

def ejectOutlier (s : Detector Host) (host : Host) : Option (Detector Host) :=
  let stats := { s.stats with ejectionsSuccessRate := s.stats.ejectionsSuccessRate + 1 }
  ({ s with stats := stats } : Detector Host).ejectHost host interval.maxEjectionPercent
    (interval.enforceEjection host) (interval.currentTime host)

def processSuccessRateEjections : Option (Detector Host) :=
  if s.hostMonitors.length < interval.successRateMinimumHosts then some s
  else
    let valid := s.validSuccessRateHosts interval
    if valid.length < interval.successRateMinimumHosts then some s
    else
      ((valid.filter fun pair => interval.isOutlier valid pair.2).map Prod.fst).foldlM
        (ejectOutlier interval) s

def onIntervalTimer : Option (Detector Host) := do
  let s ← interval.order.foldlM (checkHostForUneject interval.baseEjectTime interval.now) s
  s.processSuccessRateEjections interval

/-- A response on a worker, with the number of failures in a row that the runtime asks for. -/
def putHttpResponseCode (responseCode consecutive5xx : Nat) : Detector Host :=
  let monitor := s.monitor host
  if 500 ≤ responseCode ∧ responseCode < 600 then
    if s.alive then
      let s := s.setMonitor host { monitor with consecutive5xx := monitor.consecutive5xx + 1 }
      if (monitor.consecutive5xx + 1).toNat = consecutive5xx then
        { s with posts := s.posts ++ [host] }
      else s
    else s
  else s.setMonitor host { monitor with consecutive5xx := 0 }

def destroy : Option (Detector Host) := do
  let s ← s.hostMonitors.foldlM
    (fun (s : Detector Host) host => if s.failedOutlierCheck host then s.decActive else some s) s
  return { s with hostMonitors := [], alive := false }

/-- What happens in the cluster. Calls that were posted are made in any order, and do nothing
without the detector. -/
inductive Event (Host Rate : Type) where
  | putHttpResponseCode (host : Host) (responseCode consecutive5xx : Nat)
  | runPost (post : Nat) (maxEjectionPercent : Nat) (enforceEjection : Bool) (currentTime : Int)
  | onIntervalTimer (interval : Interval Host Rate)
  | onMemberUpdate (hostsAdded hostsRemoved : List Host)
  | setOtherDetectors (contribution : Nat)
  | destroy

def step : Event Host Rate → Option (Detector Host)
  | .putHttpResponseCode host responseCode consecutive5xx =>
    some (s.putHttpResponseCode host responseCode consecutive5xx)
  | .runPost post maxEjectionPercent enforceEjection currentTime =>
    match s.posts[post]? with
    | none => some s
    | some host =>
      let s := { s with posts := s.posts.eraseIdx post }
      if s.alive then s.onConsecutive5xxWorker host maxEjectionPercent enforceEjection currentTime
      else some s
  | .onIntervalTimer interval => if s.alive then s.onIntervalTimer interval else some s
  | .onMemberUpdate hostsAdded hostsRemoved =>
    if s.alive then s.onMemberUpdate hostsAdded hostsRemoved else some s
  | .setOtherDetectors contribution => some { s with otherDetectors := contribution }
  | .destroy => if s.alive then s.destroy else some s

variable (failedOutlierCheck : Host → Bool)

def new : Detector Host where
  hostMonitors := []
  monitor := fun _ => .new
  failedOutlierCheck := failedOutlierCheck
  contribution := 0
  otherDetectors := 0
  stats := ⟨0, 0, 0, 0⟩
  posts := []
  ejections := []
  alive := true

def create (hosts : List Host) : Option (Detector Host) :=
  hosts.foldlM addHostMonitor (new failedOutlierCheck)

end Detector

end Meliproxy.Envoy.Upstream.Outlier
