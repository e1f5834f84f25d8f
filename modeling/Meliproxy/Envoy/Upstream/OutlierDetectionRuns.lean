import Meliproxy.Envoy.Upstream.OutlierDetection
import Meliproxy.Lib.Count

/-!
# The account of ejections

`Accounts` says that the gauge shows how many monitored hosts are ejected, and that each ejection was
made of a host that was not, below the limit. Every operation on one host keeps it. A host that the
cluster adds is a new one, so its flag is not set.
-/

namespace Meliproxy.Envoy.Upstream.Outlier

open Lib List Option

variable {Host Rate : Type} [DecidableEq Host]

namespace Detector

variable {s s' : Detector Host} {host : Host}

variable (s)

/-- The gauge is right, every ejected host was ejected here, and none that was ejected before or
above the limit. -/
structure Accounts : Prop where
  gauge : s.contribution = s.ejectedHosts
  recorded : ∀ host ∈ s.hostMonitors, s.failedOutlierCheck host = true →
    ∃ ejection ∈ s.ejections, ejection.host = host
  ejections : ∀ ejection ∈ s.ejections, ejection.failedOutlierCheck = false ∧
    100 * ejection.ejectedHosts < ejection.maxEjectionPercent * ejection.hostMonitors

structure Inv : Prop where
  accounts : s.Accounts
  nodup : s.hostMonitors.Nodup
  timed : ∀ host ∈ s.hostMonitors, s.failedOutlierCheck host = true →
    0 < (s.monitor host).numEjections ∧ (s.monitor host).lastEjectionTime ≠ none

def Consistent : Event Host Rate → Prop
  | .onIntervalTimer interval => interval.order.Perm s.hostMonitors
  | .onMemberUpdate hostsAdded hostsRemoved =>
    (hostsAdded.Nodup ∧
      ∀ host ∈ hostsAdded, host ∉ s.hostMonitors ∧ s.failedOutlierCheck host = false) ∧
    hostsRemoved.Nodup ∧ ∀ host ∈ hostsRemoved, host ∈ s.hostMonitors
  | _ => True

variable {s}

section

variable (h : s.Inv)
include h

theorem Inv.setMonitor {monitor : DetectorHostMonitor}
    (hfailed : host ∈ s.hostMonitors → s.failedOutlierCheck host = true →
      0 < monitor.numEjections ∧ monitor.lastEjectionTime ≠ none) : (s.setMonitor host monitor).Inv := by
  refine ⟨{ h.accounts with }, h.nodup,
    fun other hmem hother => ?_⟩
  by_cases heq : other = host
  · subst heq
    rw [monitor_self]
    exact hfailed hmem hother
  · rw [monitor_of_ne s heq]
    exact h.timed other hmem hother

theorem Inv.setConsecutive (consecutive5xx : UInt32) :
    (s.setMonitor host { s.monitor host with consecutive5xx := consecutive5xx }).Inv :=
  h.setMonitor fun hmem hfailed => h.timed host hmem hfailed

omit [DecidableEq Host] in
theorem decActive_of_failed (hmem : host ∈ s.hostMonitors)
    (hfailed : s.failedOutlierCheck host = true) :
    s.decActive = some { s with contribution := s.contribution - 1 } := by
  have hcount : 0 < s.ejectedHosts := countP_pos_iff.mpr ⟨host, hmem, hfailed⟩
  have hgauge := h.accounts.gauge
  rw [decActive, ejectionsActive, if_pos (by omega)]

theorem Inv.addHostMonitor (hnew : host ∉ s.hostMonitors)
    (hfailed : s.failedOutlierCheck host = false) :
    ∃ s', s.addHostMonitor host = some s' ∧ s'.Inv ∧ s'.hostMonitors = host :: s.hostMonitors ∧
      s'.failedOutlierCheck = s.failedOutlierCheck := by
  refine ⟨_, if_neg hnew, Inv.setMonitor ?_ fun _ hfailed' => ?_, rfl, rfl⟩
  · refine ⟨⟨?_, ?_, h.accounts.ejections⟩, nodup_cons.mpr ⟨hnew, h.nodup⟩, ?_⟩
    · rw [ejectedHosts, countP_cons, hfailed]
      exact h.accounts.gauge
    · intro other hmem hother
      rcases mem_cons.mp hmem with rfl | hmem
      · rw [hfailed] at hother
        cases hother
      · exact h.accounts.recorded other hmem hother
    · intro other hmem hother
      rcases mem_cons.mp hmem with rfl | hmem
      · rw [hfailed] at hother
        cases hother
      · exact h.timed other hmem hother
  · rw [hfailed] at hfailed'
    cases hfailed'

theorem Inv.removeHost (hmem : host ∈ s.hostMonitors) :
    ∃ s', s.removeHost host = some s' ∧ s'.Inv ∧ s'.hostMonitors = s.hostMonitors.erase host := by
  have hcount := countP_erase s.failedOutlierCheck hmem
  have hgauge := h.accounts.gauge
  rw [ejectedHosts] at hgauge
  have hrest (contribution : Int)
      (hcontribution : contribution = (s.hostMonitors.erase host).countP s.failedOutlierCheck) :
      ({ s with contribution := contribution, hostMonitors := s.hostMonitors.erase host } :
        Detector Host).Inv :=
    ⟨⟨hcontribution, fun other hother => h.accounts.recorded other (mem_of_mem_erase hother),
      h.accounts.ejections⟩, h.nodup.erase host,
      fun other hother => h.timed other (mem_of_mem_erase hother)⟩
  rw [Detector.removeHost, if_pos hmem]
  cases hfailed : s.failedOutlierCheck host with
  | true =>
    rw [if_pos rfl, decActive_of_failed h hmem hfailed]
    rw [hfailed, if_pos rfl] at hcount
    exact ⟨_, rfl, hrest (s.contribution - 1) (by omega), rfl⟩
  | false =>
    rw [if_neg Bool.false_ne_true]
    rw [hfailed, if_neg Bool.false_ne_true] at hcount
    exact ⟨_, rfl, hrest _ (by omega), rfl⟩

theorem Inv.setFailed (hmem : host ∈ s.hostMonitors) {failed : Bool}
    {monitor : DetectorHostMonitor} {contribution : Int} {ejections : List (Ejection Host)}
    (hchanges : s.failedOutlierCheck host = !failed)
    (hcontribution : contribution = s.contribution + if failed then 1 else -1)
    (hrecorded : ∀ ejection ∈ s.ejections, ejection ∈ ejections)
    (hfailed : failed = true → (0 < monitor.numEjections ∧ monitor.lastEjectionTime ≠ none) ∧
      ∃ ejection ∈ ejections, ejection.host = host)
    (hejections : ∀ ejection ∈ ejections, ejection.failedOutlierCheck = false ∧
      100 * ejection.ejectedHosts < ejection.maxEjectionPercent * ejection.hostMonitors) :
    ((({ s with contribution := contribution, ejections := ejections } : Detector Host).setFailed
      host failed).setMonitor host monitor).Inv := by
  have hgauge := h.accounts.gauge
  refine ⟨⟨?_, fun other hother hflag => ?_, hejections⟩, h.nodup, fun other hother hflag => ?_⟩
  · change contribution = s.hostMonitors.countP (Function.update s.failedOutlierCheck host failed)
    rw [countP_update _ h.nodup hmem]
    rw [ejectedHosts, countP_erase _ hmem, hchanges] at hgauge
    cases failed with
    | false | true => simp at hgauge hcontribution ⊢; omega
  · by_cases heq : other = host
    · subst heq
      exact (hfailed ((failed_self _ other failed).symm.trans hflag)).2
    · have hflag' := (failed_of_ne s heq failed).symm.trans hflag
      obtain ⟨ejection, hejection, hhost⟩ := h.accounts.recorded other hother hflag'
      exact ⟨ejection, hrecorded ejection hejection, hhost⟩
  · by_cases heq : other = host
    · subst heq
      rw [monitor_self]
      exact (hfailed ((failed_self _ other failed).symm.trans hflag)).1
    · rw [monitor_of_ne _ heq]
      exact h.timed other hother ((failed_of_ne s heq failed).symm.trans hflag)

omit [DecidableEq Host] in
theorem Inv.setStats (stats : DetectionStats) :
    ({ s with stats := stats } : Detector Host).Inv := ⟨{ h.accounts with }, h.nodup, h.timed⟩

end

theorem eject_of_not_failed (s : Detector Host) (ejectionTime : Int)
    (hflag : s.failedOutlierCheck host = false) :
    s.eject host ejectionTime = some ((s.setFailed host true).setMonitor host { s.monitor host with
      numEjections := (s.monitor host).numEjections + 1
      lastEjectionTime := some ejectionTime }) := if_neg (Bool.eq_false_iff.mp hflag)

theorem Inv.ejectHost (h : s.Inv) (hmem : host ∈ s.hostMonitors)
    (hflag : s.failedOutlierCheck host = false) (maxEjectionPercent : Nat) (enforceEjection : Bool)
    (currentTime : Int) :
    ∃ s', s.ejectHost host maxEjectionPercent enforceEjection currentTime = some s' ∧ s'.Inv ∧
      s'.hostMonitors = s.hostMonitors ∧
      ∀ other, other ≠ host → s'.failedOutlierCheck other = s.failedOutlierCheck other := by
  rw [Detector.ejectHost]
  split
  · rename_i hbelow
    cases enforceEjection with
    | false => exact ⟨_, rfl, h.setStats _, rfl, fun _ _ => rfl⟩
    | true =>
      have hgauge := h.accounts.gauge
      rw [ejectionsActive] at hbelow
      rw [if_pos rfl]
      have hstats := h.setStats { s.stats with ejectionsTotal := s.stats.ejectionsTotal + 1 }
      refine ⟨_, eject_of_not_failed _ currentTime hflag, hstats.setFailed hmem ?_ rfl ?_ ?_ ?_, rfl,
        fun other hne => failed_of_ne _ hne true⟩
      · exact hflag
      · exact fun ejection hejection => mem_append_left _ hejection
      · intro _
        exact ⟨⟨Nat.succ_pos _, some_ne_none _⟩, _, mem_concat_self, rfl⟩
      intro ejection hejection
      rcases mem_append.mp hejection with hearlier | hnew
      · exact h.accounts.ejections ejection hearlier
      · obtain rfl := mem_singleton.mp hnew
        refine ⟨hflag, ?_⟩
        refine Int.ofNat_lt.mp ?_
        rw [Int.natCast_mul, Int.natCast_mul]
        change ((100 : Nat) : Int) * s.ejectedHosts <
          (min 100 maxEjectionPercent : Nat) * (s.hostMonitors.length : Nat)
        omega
  · exact ⟨_, rfl, h.setStats _, rfl, fun _ _ => rfl⟩

theorem Inv.onConsecutive5xxWorker (h : s.Inv) (host : Host) (maxEjectionPercent : Nat)
    (enforceEjection : Bool) (currentTime : Int) :
    ∃ s', s.onConsecutive5xxWorker host maxEjectionPercent enforceEjection currentTime = some s' ∧
      s'.Inv := by
  rw [Detector.onConsecutive5xxWorker]
  split
  · exact ⟨s, rfl, h⟩
  · rename_i hmem
    rw [not_not] at hmem
    split
    · exact ⟨s, rfl, h⟩
    · rename_i hflag
      obtain ⟨s', hs', hinv, -⟩ := (h.setStats { s.stats with
        ejectionsConsecutive5xx := s.stats.ejectionsConsecutive5xx + 1 }).ejectHost hmem
          (Bool.eq_false_iff.mpr hflag) maxEjectionPercent enforceEjection currentTime
      exact ⟨_, bind_eq_some_iff.mpr ⟨s', hs', rfl⟩, hinv.setConsecutive 0⟩

theorem Inv.checkHostForUneject (h : s.Inv) (hmem : host ∈ s.hostMonitors) (baseEjectTime : Nat)
    (now : Int) : ∃ s', checkHostForUneject baseEjectTime now s host = some s' ∧ s'.Inv ∧
      s'.hostMonitors = s.hostMonitors := by
  rw [Detector.checkHostForUneject]
  split
  · rename_i hflag
    obtain ⟨hejections, htime⟩ := h.timed host hmem hflag
    obtain ⟨lastEjectionTime, hlast⟩ := ne_none_iff_exists'.mp htime
    rw [if_neg (Nat.pos_iff_ne_zero.mp hejections), hlast, bind_eq_bind, bind_some]
    split
    · rw [decActive_of_failed h hmem hflag]
      refine ⟨_, rfl, h.setFailed hmem hflag rfl (fun _ hejection => hejection) nofun
        h.accounts.ejections, rfl⟩
    · exact ⟨s, rfl, h, rfl⟩
  · exact ⟨s, rfl, h, rfl⟩

/-!
## Runs of outlier detection

What the loops over hosts keep, and from it every step and every run.
-/

omit [DecidableEq Host] in
theorem fst_validSuccessRateHosts (s : Detector Host) (interval : Interval Host Rate) :
    ((s.validSuccessRateHosts interval).map Prod.fst).Sublist
      (interval.order.filter fun host => !s.failedOutlierCheck host) := by
  rw [validSuccessRateHosts]
  induction interval.order with
  | nil => exact .slnil
  | cons host rest ih =>
    rw [filterMap_cons, filter_cons]
    cases hflag : s.failedOutlierCheck host with
    | true => exact ih
    | false =>
      rw [if_neg Bool.false_ne_true, Bool.not_false, if_pos rfl]
      cases interval.successRate host with
      | none => exact ih.cons host
      | some rate => exact ih.cons_cons host

def Ejecting (outliers : List Host) (s : Detector Host) : Prop :=
  s.Inv ∧ outliers.Nodup ∧
    ∀ host ∈ outliers, host ∈ s.hostMonitors ∧ s.failedOutlierCheck host = false

theorem ejecting_step (interval : Interval Host Rate) (host : Host) (outliers : List Host)
    (s : Detector Host) (h : Ejecting (host :: outliers) s) :
    ∃ s', ejectOutlier interval s host = some s' ∧ Ejecting outliers s' := by
  obtain ⟨hinv, hnodup, hhosts⟩ := h
  obtain ⟨hhost, hrest⟩ := nodup_cons.mp hnodup
  obtain ⟨hmem, hflag⟩ := hhosts host mem_cons_self
  obtain ⟨s', hs', hinv', hmonitors, hframe⟩ := (hinv.setStats { s.stats with
    ejectionsSuccessRate := s.stats.ejectionsSuccessRate + 1 }).ejectHost hmem hflag
      interval.maxEjectionPercent (interval.enforceEjection host) (interval.currentTime host)
  refine ⟨s', hs', hinv', hrest, fun other hother => ?_⟩
  obtain ⟨hother', hflag'⟩ := hhosts other (mem_cons_of_mem _ hother)
  have hne : other ≠ host := fun heq => hhost (heq ▸ hother)
  exact ⟨hmonitors ▸ hother', (hframe other hne).trans hflag'⟩

theorem Inv.processSuccessRateEjections (h : s.Inv) {interval : Interval Host Rate}
    (horder : interval.order.Perm s.hostMonitors) :
    ∃ s', s.processSuccessRateEjections interval = some s' ∧ s'.Inv := by
  rw [Detector.processSuccessRateEjections]
  split
  · exact ⟨s, rfl, h⟩
  · dsimp only
    split
    · exact ⟨s, rfl, h⟩
    · have hnodup := (horder.nodup_iff.mpr h.nodup).filter fun host => !s.failedOutlierCheck host
      have hejecting {outliers : List Host} (hsublist : outliers.Sublist
          (interval.order.filter fun host => !s.failedOutlierCheck host)) : Ejecting outliers s := by
        refine ⟨h, hnodup.sublist hsublist, fun host hmem => ?_⟩
        obtain ⟨hmem', hflag⟩ := mem_filter.mp (hsublist.subset hmem)
        exact ⟨horder.subset hmem', by simpa using hflag⟩
      obtain ⟨s', hs', hinv, -⟩ := foldlM_safe Ejecting (ejecting_step interval)
        (hejecting ((filter_sublist.map Prod.fst).trans (fst_validSuccessRateHosts s interval)))
      exact ⟨s', hs', hinv⟩

def Checking (hostMonitors hosts : List Host) (s : Detector Host) : Prop :=
  s.Inv ∧ s.hostMonitors = hostMonitors ∧ ∀ host ∈ hosts, host ∈ hostMonitors

theorem checking_step {hostMonitors : List Host} (baseEjectTime : Nat) (now : Int) (host : Host)
    (hosts : List Host) (s : Detector Host) (h : Checking hostMonitors (host :: hosts) s) :
    ∃ s', checkHostForUneject baseEjectTime now s host = some s' ∧
      Checking hostMonitors hosts s' := by
  obtain ⟨hinv, hmonitors, hhosts⟩ := h
  obtain ⟨s', hs', hinv', hmonitors'⟩ :=
    hinv.checkHostForUneject (hmonitors ▸ hhosts host mem_cons_self) baseEjectTime now
  exact ⟨s', hs', hinv', hmonitors'.trans hmonitors,
    fun other hother => hhosts other (mem_cons_of_mem _ hother)⟩

theorem Inv.onIntervalTimer (h : s.Inv) {interval : Interval Host Rate}
    (horder : interval.order.Perm s.hostMonitors) :
    ∃ s', s.onIntervalTimer interval = some s' ∧ s'.Inv := by
  have hchecking : Checking s.hostMonitors interval.order s :=
    ⟨h, rfl, fun host hmem => horder.subset hmem⟩
  obtain ⟨s₁, hs₁, hinv, hmonitors, -⟩ := foldlM_safe (Checking s.hostMonitors)
    (checking_step interval.baseEjectTime interval.now) hchecking
  obtain ⟨s', hs', hinv'⟩ := hinv.processSuccessRateEjections (hmonitors ▸ horder)
  exact ⟨s', bind_eq_some_iff.mpr ⟨s₁, hs₁, hs'⟩, hinv'⟩

def Adding (old added : List Host) (s : Detector Host) : Prop :=
  s.Inv ∧ (∀ host ∈ old, host ∈ s.hostMonitors) ∧ added.Nodup ∧
    ∀ host ∈ added, host ∉ s.hostMonitors ∧ s.failedOutlierCheck host = false

theorem adding_step {old : List Host} (host : Host) (added : List Host) (s : Detector Host)
    (h : Adding old (host :: added) s) :
    ∃ s', s.addHostMonitor host = some s' ∧ Adding old added s' := by
  obtain ⟨hinv, hold, hnodup, hadded⟩ := h
  obtain ⟨hhost, hrest⟩ := nodup_cons.mp hnodup
  obtain ⟨hnew, hflag⟩ := hadded host mem_cons_self
  obtain ⟨s', hs', hinv', hmonitors, hfailed⟩ := hinv.addHostMonitor hnew hflag
  refine ⟨s', hs', hinv', fun other hother => ?_, hrest, fun other hother => ?_⟩
  · rw [hmonitors]
    exact mem_cons_of_mem _ (hold other hother)
  · obtain ⟨hnew', hflag'⟩ := hadded other (mem_cons_of_mem _ hother)
    rw [hmonitors, hfailed]
    refine ⟨fun hmem => ?_, hflag'⟩
    rcases mem_cons.mp hmem with rfl | hmem
    · exact hhost hother
    · exact hnew' hmem

def Removing (removed : List Host) (s : Detector Host) : Prop :=
  s.Inv ∧ removed.Nodup ∧ ∀ host ∈ removed, host ∈ s.hostMonitors

theorem removing_step (host : Host) (removed : List Host) (s : Detector Host)
    (h : Removing (host :: removed) s) :
    ∃ s', s.removeHost host = some s' ∧ Removing removed s' := by
  obtain ⟨hinv, hnodup, hremoved⟩ := h
  obtain ⟨hhost, hrest⟩ := nodup_cons.mp hnodup
  obtain ⟨s', hs', hinv', hmonitors⟩ := hinv.removeHost (hremoved host mem_cons_self)
  refine ⟨s', hs', hinv', hrest, fun other hother => ?_⟩
  have hne : other ≠ host := fun heq => hhost (heq ▸ hother)
  rw [hmonitors, mem_erase_of_ne hne]
  exact hremoved other (mem_cons_of_mem _ hother)

theorem Inv.onMemberUpdate (h : s.Inv) {hostsAdded hostsRemoved : List Host}
    (hadded : hostsAdded.Nodup ∧
      ∀ host ∈ hostsAdded, host ∉ s.hostMonitors ∧ s.failedOutlierCheck host = false)
    (hremoved : hostsRemoved.Nodup ∧ ∀ host ∈ hostsRemoved, host ∈ s.hostMonitors) :
    ∃ s', s.onMemberUpdate hostsAdded hostsRemoved = some s' ∧ s'.Inv := by
  have hadding : Adding hostsRemoved hostsAdded s := ⟨h, hremoved.2, hadded.1, hadded.2⟩
  obtain ⟨s₁, hs₁, hinv, hmem, -⟩ := foldlM_safe (Adding hostsRemoved) adding_step hadding
  have hremoving : Removing hostsRemoved s₁ := ⟨hinv, hremoved.1, hmem⟩
  obtain ⟨s', hs', hinv', -⟩ := foldlM_safe Removing removing_step hremoving
  exact ⟨s', bind_eq_some_iff.mpr ⟨s₁, hs₁, hs'⟩, hinv'⟩

def Destroying (s₀ : Detector Host) (hosts : List Host) (s : Detector Host) : Prop :=
  s = { s₀ with contribution := hosts.countP s₀.failedOutlierCheck }

omit [DecidableEq Host] in
theorem destroying_step {s₀ : Detector Host} (host : Host) (hosts : List Host) (s : Detector Host)
    (h : Destroying s₀ (host :: hosts) s) :
    ∃ s', (if s.failedOutlierCheck host then s.decActive else some s) = some s' ∧
      Destroying s₀ hosts s' := by
  subst h
  rw [countP_cons]
  cases hflag : s₀.failedOutlierCheck host with
  | false => exact ⟨_, if_neg Bool.false_ne_true, rfl⟩
  | true =>
    refine ⟨_, (if_pos rfl).trans (if_pos ?_), ?_⟩
    · rw [ejectionsActive, if_pos rfl]
      dsimp only
      omega
    · rw [Destroying, if_pos rfl, Int.natCast_add, Int.natCast_one, Int.add_sub_cancel]

omit [DecidableEq Host] in
theorem Inv.destroy (h : s.Inv) : ∃ s', s.destroy = some s' ∧ s'.Inv := by
  have hdestroying : Destroying s s.hostMonitors s := by
    rw [Destroying, ← ejectedHosts, ← h.accounts.gauge]
  obtain ⟨s₁, hs₁, hzero⟩ := foldlM_safe (Destroying s) destroying_step hdestroying
  refine ⟨_, bind_eq_some_iff.mpr ⟨s₁, hs₁, rfl⟩, ?_⟩
  rw [hzero]
  exact ⟨⟨rfl, fun _ hmem => absurd hmem not_mem_nil, h.accounts.ejections⟩, nodup_nil,
    fun _ hmem => absurd hmem not_mem_nil⟩

omit [DecidableEq Host] in
theorem Inv.setPosts (h : s.Inv) (posts : List Host) :
    ({ s with posts := posts } : Detector Host).Inv := ⟨{ h.accounts with }, h.nodup, h.timed⟩

theorem inv_step (h : s.Inv) {event : Event Host Rate} (hconsistent : Consistent s event) :
    ∃ s', step s event = some s' ∧ s'.Inv := by
  cases event with
  | putHttpResponseCode host responseCode consecutive5xx =>
    refine ⟨_, rfl, ?_⟩
    rw [putHttpResponseCode]
    dsimp only
    split
    · split
      · split
        · exact (h.setConsecutive _).setPosts _
        · exact h.setConsecutive _
      · exact h
    · exact h.setConsecutive 0
  | runPost post maxEjectionPercent enforceEjection currentTime =>
    rw [step]
    split
    · exact ⟨s, rfl, h⟩
    · rename_i host hpost
      have hposts := h.setPosts (s.posts.eraseIdx post)
      dsimp only
      split
      · exact hposts.onConsecutive5xxWorker host maxEjectionPercent enforceEjection currentTime
      · exact ⟨_, rfl, hposts⟩
  | onIntervalTimer interval =>
    rw [step]
    split
    · exact h.onIntervalTimer hconsistent
    · exact ⟨s, rfl, h⟩
  | onMemberUpdate hostsAdded hostsRemoved =>
    rw [step]
    split
    · exact h.onMemberUpdate hconsistent.1 hconsistent.2
    · exact ⟨s, rfl, h⟩
  | setOtherDetectors contribution =>
    exact ⟨_, rfl, { h.accounts with }, h.nodup, h.timed⟩
  | destroy =>
    rw [step]
    split
    · exact h.destroy
    · exact ⟨s, rfl, h⟩

/-- Every run of a detector goes through, and its account is right in the end. -/
theorem consistent_accounts {failed : Host → Bool} {hosts : List Host}
    {events : List (Event Host Rate)} (hnodup : hosts.Nodup)
    (hnew : ∀ host ∈ hosts, failed host = false) : ∃ s, create failed hosts = some s ∧
      (AllMeet step Consistent s events → ∃ s', run step s events = some s' ∧ s'.Accounts) := by
  have hempty : (new failed).Inv :=
    ⟨⟨rfl, fun _ hmem => absurd hmem not_mem_nil, fun _ hmem => absurd hmem not_mem_nil⟩,
      nodup_nil, fun _ hmem => absurd hmem not_mem_nil⟩
  have hadding : Adding [] hosts (new failed) :=
    ⟨hempty, fun _ hmem => absurd hmem not_mem_nil, hnodup,
      fun host hmem => ⟨not_mem_nil, hnew host hmem⟩⟩
  obtain ⟨s, hs, hinv, -⟩ := foldlM_safe (Adding []) adding_step hadding
  refine ⟨s, hs, fun hmeet => ?_⟩
  obtain ⟨s', hs', hinv'⟩ :=
    run_safe (fun _ _ hinv hconsistent => inv_step hinv hconsistent) hinv hmeet
  exact ⟨s', hs', hinv'.accounts⟩

instance (s : Detector Host) : (event : Event Host Rate) → Decidable (Consistent s event) := by
  rintro ⟨⟩ <;> dsimp only [Consistent] <;> infer_instance

def sampleEvents : List (Event Nat Nat) :=
  [.putHttpResponseCode 0 503 1, .putHttpResponseCode 0 200 1, .putHttpResponseCode 0 503 1,
    .runPost 0 10 true 0, .onMemberUpdate [2] [0], .runPost 0 10 true 5,
    .onIntervalTimer ⟨[1, 2], 10, 30000, 2, some, fun _ rate => rate = 1, 10, fun _ => true,
      fun _ => 10⟩, .destroy]

theorem sampleEvents_accounts : ∃ s, create (fun _ => false) [0, 1] = some s ∧
    ∃ s', run step s sampleEvents = some s' ∧ s'.Accounts := by
  obtain ⟨s, hs, haccounts⟩ :=
    @consistent_accounts Nat Nat _ (fun _ => false) [0, 1] sampleEvents (by decide) fun _ _ => rfl
  cases hs
  exact ⟨_, rfl, haccounts (by decide)⟩

end Detector

end Meliproxy.Envoy.Upstream.Outlier
