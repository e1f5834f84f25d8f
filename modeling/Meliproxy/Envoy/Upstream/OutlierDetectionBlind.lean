import Meliproxy.Envoy.Upstream.OutlierDetection

/-!
# Hosts whose failures are not seen

The counter of failures in a row is compared with the threshold where a response comes in, and reset
where the post is run. As long as no last post is dropped for an ejected host, a counter that has
reached the threshold has a post on its way. The counter has 32 bits and the threshold 64: a
threshold that the counter cannot have is never reached.
-/

namespace Meliproxy.Envoy.Upstream.Outlier

open Lib List Option

variable {Host Rate : Type} [DecidableEq Host]

namespace Detector

variable {s s' : Detector Host} {host other : Host} {threshold : Nat}

/-- Hosts may be ejected and come back. -/
structure Quiet (s s' : Detector Host) : Prop where
  hostMonitors : s'.hostMonitors = s.hostMonitors
  posts : s'.posts = s.posts
  alive : s'.alive = s.alive
  consecutive5xx : ∀ host, (s'.monitor host).consecutive5xx = (s.monitor host).consecutive5xx

omit [DecidableEq Host] in
theorem Quiet.refl (s : Detector Host) : Quiet s s := ⟨rfl, rfl, rfl, fun _ => rfl⟩

omit [DecidableEq Host] in
theorem Quiet.trans {s'' : Detector Host} (h : Quiet s s') (h' : Quiet s' s'') : Quiet s s'' where
  hostMonitors := h'.hostMonitors.trans h.hostMonitors
  posts := h'.posts.trans h.posts
  alive := h'.alive.trans h.alive
  consecutive5xx := fun host => (h'.consecutive5xx host).trans (h.consecutive5xx host)

theorem quiet_setMonitor {monitor : DetectorHostMonitor}
    (h : monitor.consecutive5xx = (s.monitor host).consecutive5xx) :
    Quiet s (s.setMonitor host monitor) := by
  refine ⟨rfl, rfl, rfl, ?_⟩
  intro other
  by_cases heq : other = host
  · rw [heq, monitor_self, h]
  · rw [monitor_of_ne s heq]

theorem quiet_setFailed (s : Detector Host) (host : Host) (failed : Bool) :
    Quiet s (s.setFailed host failed) := ⟨rfl, rfl, rfl, fun _ => rfl⟩

omit [DecidableEq Host] in
theorem quiet_decActive (h : s.decActive = some s') : Quiet s s' := by
  rw [decActive] at h
  split at h
  · cases h
    exact ⟨rfl, rfl, rfl, fun _ => rfl⟩
  · cases h

theorem quiet_eject {ejectionTime : Int} (h : s.eject host ejectionTime = some s') :
    Quiet s s' := by
  rw [eject] at h
  split at h
  · cases h
  · cases h
    exact (quiet_setFailed s host true).trans (quiet_setMonitor rfl)

variable {maxEjectionPercent : Nat} {enforceEjection : Bool} {currentTime : Int}

theorem quiet_ejectHost
    (h : s.ejectHost host maxEjectionPercent enforceEjection currentTime = some s') :
    Quiet s s' := by
  rw [ejectHost] at h
  split at h
  · split at h
    · have hstart : Quiet s { s.incActive with
          stats := { s.stats with ejectionsTotal := s.stats.ejectionsTotal + 1 }
          ejections := s.ejections ++ [⟨host, s.failedOutlierCheck host, s.ejectedHosts,
            s.hostMonitors.length, min 100 maxEjectionPercent⟩] } := ⟨rfl, rfl, rfl, fun _ => rfl⟩
      exact hstart.trans (quiet_eject h)
    · cases h
      exact ⟨rfl, rfl, rfl, fun _ => rfl⟩
  · cases h
    exact ⟨rfl, rfl, rfl, fun _ => rfl⟩

theorem quiet_checkHostForUneject {baseEjectTime : Nat} {now : Int}
    (h : checkHostForUneject baseEjectTime now s host = some s') : Quiet s s' := by
  rw [checkHostForUneject] at h
  split at h
  · dsimp only at h
    split at h
    · cases h
    · obtain ⟨lastEjectionTime, -, h⟩ := bind_eq_some_iff.mp h
      split at h
      · obtain ⟨s₁, hdec, h⟩ := bind_eq_some_iff.mp h
        cases h
        have hquiet := quiet_decActive hdec
        refine (hquiet.trans (quiet_setFailed s₁ host false)).trans (quiet_setMonitor ?_)
        exact (hquiet.consecutive5xx host).symm
      · cases h
        exact .refl s
  · cases h
    exact .refl s

variable {hosts : List Host}

omit [DecidableEq Host] in
theorem quiet_foldlM {f : Detector Host → Host → Option (Detector Host)}
    (hf : ∀ {s s' : Detector Host} {host : Host}, f s host = some s' → Quiet s s')
    (h : hosts.foldlM f s = some s') : Quiet s s' := by
  induction hosts generalizing s with
  | nil =>
    obtain rfl := Option.some.inj h
    exact .refl s
  | cons host hosts ih =>
    rw [foldlM_cons] at h
    obtain ⟨s₁, h₁, h⟩ := bind_eq_some_iff.mp h
    exact (hf h₁).trans (ih h)

theorem quiet_onIntervalTimer {interval : Interval Host Rate}
    (h : s.onIntervalTimer interval = some s') : Quiet s s' := by
  obtain ⟨s₁, h₁, h⟩ := bind_eq_some_iff.mp h
  have hquiet := quiet_foldlM (fun h => quiet_checkHostForUneject h) h₁
  refine hquiet.trans ?_
  rw [processSuccessRateEjections] at h
  split at h
  · obtain rfl := Option.some.inj h
    exact .refl s₁
  · dsimp only at h
    split at h
    · obtain rfl := Option.some.inj h
      exact .refl s₁
    · refine quiet_foldlM (fun h => ?_) h
      rename_i s s' host
      have hstats : Quiet s { s with stats := { s.stats with
          ejectionsSuccessRate := s.stats.ejectionsSuccessRate + 1 } } :=
        ⟨rfl, rfl, rfl, fun _ => rfl⟩
      exact hstats.trans (quiet_ejectHost h)

/-- A counter of a monitored host that is at the threshold has a post pending. -/
structure Watched (threshold : Nat) (host : Host) (s : Detector Host) : Prop where
  alive : host ∈ s.hostMonitors → s.alive = true
  pending : host ∈ s.hostMonitors → threshold ≤ (s.monitor host).consecutive5xx.toNat → host ∈ s.posts

section

variable (h : Watched threshold host s)
include h

omit [DecidableEq Host] in
theorem Watched.quiet (hquiet : Quiet s s') : Watched threshold host s' := by
  constructor
  · rw [hquiet.hostMonitors, hquiet.alive]
    exact h.alive
  · rw [hquiet.hostMonitors, hquiet.consecutive5xx, hquiet.posts]
    exact h.pending

theorem Watched.addHostMonitor (hpositive : 1 ≤ threshold)
    (halive : s.alive = true) (hadd : s.addHostMonitor other = some s') :
    Watched threshold host s' ∧ s'.alive = true := by
  rw [Detector.addHostMonitor] at hadd
  split at hadd
  · cases hadd
  · cases hadd
    refine ⟨⟨fun _ => halive, ?_⟩, halive⟩
    intro hmem hcounter
    by_cases heq : host = other
    · rw [heq, monitor_self] at hcounter
      exact absurd hcounter (Nat.not_le.mpr hpositive)
    · rw [monitor_of_ne _ heq] at hcounter
      exact h.pending ((mem_cons.mp hmem).resolve_left heq) hcounter

theorem Watched.addHostMonitors (hpositive : 1 ≤ threshold)
    (halive : s.alive = true) (hadd : hosts.foldlM Detector.addHostMonitor s = some s') :
    Watched threshold host s' ∧ s'.alive = true := by
  induction hosts generalizing s with
  | nil =>
    cases hadd
    exact ⟨h, halive⟩
  | cons other hosts ih =>
    rw [foldlM_cons] at hadd
    obtain ⟨s₁, h₁, hadd⟩ := bind_eq_some_iff.mp hadd
    obtain ⟨hwatched, halive₁⟩ := h.addHostMonitor hpositive halive h₁
    exact ih hwatched halive₁ hadd

theorem Watched.removeHost (hremove : s.removeHost other = some s') : Watched threshold host s' :=
    by
  have herase {s₁ : Detector Host} (hquiet : Quiet s s₁) :
      Watched threshold host { s₁ with hostMonitors := s₁.hostMonitors.erase other } :=
    ⟨fun hmem => (h.quiet hquiet).alive (mem_of_mem_erase hmem),
      fun hmem => (h.quiet hquiet).pending (mem_of_mem_erase hmem)⟩
  rw [Detector.removeHost] at hremove
  split at hremove
  · split at hremove
    · obtain ⟨s₁, hdec, hremove⟩ := bind_eq_some_iff.mp hremove
      cases hremove
      exact herase (quiet_decActive hdec)
    · cases hremove
      exact herase (.refl s)
  · cases hremove

theorem Watched.removeHosts (hremove : hosts.foldlM Detector.removeHost s = some s') : Watched
    threshold host s' := by
  induction hosts generalizing s with
  | nil =>
    cases hremove
    exact h
  | cons other hosts ih =>
    rw [foldlM_cons] at hremove
    obtain ⟨s₁, h₁, hremove⟩ := bind_eq_some_iff.mp hremove
    exact ih (h.removeHost h₁) hremove

end

/-- What a failure that is seen does. -/
structure CountsFailure (s : Detector Host) (host : Host) (n : Nat) (s' : Detector Host) :
    Prop where
  hostMonitors : s'.hostMonitors = s.hostMonitors
  alive : s'.alive = s.alive
  posts : s'.posts =
    s.posts ++ if ((s.monitor host).consecutive5xx + 1).toNat = n then [host] else []
  counter : (s'.monitor host).consecutive5xx = (s.monitor host).consecutive5xx + 1
  others : ∀ other, other ≠ host → s'.monitor other = s.monitor other

theorem countsFailure_putHttpResponseCode {responseCode : Nat}
    (hcode : 500 ≤ responseCode ∧ responseCode < 600) (halive : s.alive = true) (host : Host)
    (n : Nat) : CountsFailure s host n (s.putHttpResponseCode host responseCode n) := by
  have hself (counted : DetectorHostMonitor) := monitor_self s host counted
  have hothers (counted : DetectorHostMonitor) (other : Host) (hne : other ≠ host) :=
    monitor_of_ne s hne counted
  rw [Detector.putHttpResponseCode, if_pos hcode, if_pos halive]
  split
  · rename_i hreached
    exact ⟨rfl, rfl, by rw [if_pos hreached]; rfl, congrArg _ (hself _), hothers _⟩
  · rename_i hnot
    exact ⟨rfl, rfl, by rw [if_neg hnot, append_nil]; rfl, congrArg _ (hself _), hothers _⟩

/-- A failure that has not reached the threshold leaves the counter below it, unless it was there
before. The counter may wrap. -/
theorem le_of_le_succ {counter : UInt32}
    (hcounter : threshold ≤ (counter + 1).toNat) (hreached : (counter + 1).toNat ≠ threshold) :
    threshold ≤ counter.toNat := by
  have hsum : (counter + 1).toNat = (counter.toNat + 1) % 2 ^ 32 := UInt32.toNat_add ..
  have hmod := Nat.mod_le (counter.toNat + 1) (2 ^ 32)
  omega

theorem toNat_succ {counter : UInt32} (hsize : threshold < 2 ^ 32)
    (hbelow : counter.toNat < threshold) : (counter + 1).toNat = counter.toNat + 1 := by
  refine (UInt32.toNat_add ..).trans (Nat.mod_eq_of_lt ?_)
  exact Nat.lt_of_le_of_lt (Nat.succ_le_of_lt hbelow) hsize

theorem CountsFailure.watched {n : Nat} (hcounts : CountsFailure s other n s')
    (h : Watched threshold host s) (hfixed : other = host → n = threshold) :
    Watched threshold host s' := by
  constructor
  · rw [hcounts.hostMonitors, hcounts.alive]
    exact h.alive
  · rw [hcounts.hostMonitors, hcounts.posts]
    intro hmem hcounter
    by_cases heq : host = other
    · subst heq
      rw [hcounts.counter] at hcounter
      rw [hfixed rfl]
      by_cases hreached : ((s.monitor host).consecutive5xx + 1).toNat = threshold
      · rw [if_pos hreached]
        exact mem_append_right _ mem_cons_self
      · exact mem_append_left _ (h.pending hmem (le_of_le_succ hcounter hreached))
    · rw [hcounts.others host heq] at hcounter
      exact mem_append_left _ (h.pending hmem hcounter)

theorem Watched.putHttpResponseCode (h : Watched threshold host s) (hpositive : 1 ≤ threshold)
    (responseCode : Nat) {n : Nat} (hfixed : other = host → n = threshold) :
    Watched threshold host (s.putHttpResponseCode other responseCode n) := by
  by_cases hcode : 500 ≤ responseCode ∧ responseCode < 600
  · by_cases halive : s.alive = true
    · exact (countsFailure_putHttpResponseCode hcode halive other n).watched h hfixed
    · rw [Detector.putHttpResponseCode, if_pos hcode, if_neg halive]
      exact h
  · rw [Detector.putHttpResponseCode, if_neg hcode]
    refine ⟨h.alive, fun hmem hcounter => ?_⟩
    by_cases heq : host = other
    · subst heq
      rw [monitor_self] at hcounter
      exact absurd hcounter (Nat.not_le.mpr hpositive)
    · rw [monitor_of_ne s heq] at hcounter
      exact h.pending hmem hcounter

variable {post : Nat}

omit [DecidableEq Host] in
theorem mem_eraseIdx_of_ne {posts : List Host} (hpost : posts[post]? = some other)
    (hne : other ≠ host) (hmem : host ∈ posts) : host ∈ posts.eraseIdx post := by
  obtain ⟨i, hi⟩ := getElem?_of_mem hmem
  refine mem_eraseIdx_iff_getElem?.mpr ⟨i, ?_, hi⟩
  rintro rfl
  exact hne (Option.some.inj (hpost.symm.trans hi))

theorem Watched.onConsecutive5xxWorker (h : Watched threshold host s) (hpositive : 1 ≤ threshold)
    (hpost : s.posts[post]? = some other)
    (hlast : other = host → host ∈ s.posts.eraseIdx post ∨ s.failedOutlierCheck host = false ∨
      (s.monitor host).consecutive5xx.toNat < threshold)
    (hrun : ({ s with posts := s.posts.eraseIdx post } : Detector Host).onConsecutive5xxWorker other
      maxEjectionPercent enforceEjection currentTime = some s') :
    Watched threshold host s' := by
  have hothers (hne : other ≠ host) :
      Watched threshold host { s with posts := s.posts.eraseIdx post } :=
    ⟨h.alive, fun hmem hcounter => mem_eraseIdx_of_ne hpost hne (h.pending hmem hcounter)⟩
  rw [Detector.onConsecutive5xxWorker] at hrun
  split at hrun
  · rename_i hgone
    cases hrun
    refine ⟨h.alive, fun hmem hcounter => ?_⟩
    have hne : other ≠ host := fun heq => hgone (heq ▸ hmem)
    exact (hothers hne).pending hmem hcounter
  · split at hrun
    · rename_i hfailed
      cases hrun
      refine ⟨h.alive, fun hmem hcounter => ?_⟩
      by_cases heq : other = host
      · rcases hlast heq with hkept | hback | hbelow
        · exact hkept
        · rw [heq] at hfailed
          exact absurd hfailed (Bool.eq_false_iff.mp hback)
        · exact absurd hcounter (Nat.not_le.mpr hbelow)
      · exact (hothers heq).pending hmem hcounter
    · obtain ⟨s₁, heject, hrun⟩ := bind_eq_some_iff.mp hrun
      cases hrun
      have hquiet := quiet_ejectHost heject
      refine ⟨?_, fun hmem hcounter => ?_⟩
      · intro hmem
        exact hquiet.alive.trans (h.alive (hquiet.hostMonitors ▸ hmem))
      · by_cases heq : host = other
        · rw [heq, monitor_self] at hcounter
          exact absurd hcounter (Nat.not_le.mpr hpositive)
        · rw [monitor_of_ne s₁ heq, hquiet.consecutive5xx] at hcounter
          rw [setMonitor, hquiet.posts]
          exact (hothers (Ne.symm heq)).pending (hquiet.hostMonitors ▸ hmem) hcounter

def FixedThreshold (threshold : Nat) (host : Host) (_ : Detector Host) : Event Host Rate → Prop
  | .putHttpResponseCode other _ consecutive5xx => other = host → consecutive5xx = threshold
  | _ => True

/-- The last post of a host is not run while the host is ejected and its counter is at the
threshold: there the worker returns before it resets the counter. -/
def PostNotDropped (threshold : Nat) (host : Host) (s : Detector Host) : Event Host Rate → Prop
  | .runPost post _ _ _ => s.posts[post]? = some host → host ∈ s.posts.eraseIdx post ∨
      s.failedOutlierCheck host = false ∨ (s.monitor host).consecutive5xx.toNat < threshold
  | _ => True

theorem Watched.step (h : Watched threshold host s) (hpositive : 1 ≤ threshold)
    {event : Event Host Rate} (hfixed : FixedThreshold threshold host s event)
    (hdropped : PostNotDropped threshold host s event) (hstep : step s event = some s') :
    Watched threshold host s' := by
  cases event with
  | putHttpResponseCode other responseCode consecutive5xx =>
    cases hstep
    exact h.putHttpResponseCode hpositive responseCode hfixed
  | runPost post maxEjectionPercent enforceEjection currentTime =>
    rw [Detector.step] at hstep
    split at hstep
    · cases hstep
      exact h
    · rename_i other hpost
      dsimp only at hstep
      split at hstep
      · exact h.onConsecutive5xxWorker hpositive hpost (fun heq => hdropped (heq ▸ hpost)) hstep
      · rename_i hdead
        cases hstep
        exact ⟨h.alive, fun hmem => absurd (h.alive hmem) hdead⟩
  | onIntervalTimer interval =>
    rw [Detector.step] at hstep
    split at hstep
    · exact h.quiet (quiet_onIntervalTimer hstep)
    · cases hstep
      exact h
  | onMemberUpdate hostsAdded hostsRemoved =>
    rw [Detector.step] at hstep
    split at hstep
    · rename_i halive
      obtain ⟨s₁, hadd, hremove⟩ := bind_eq_some_iff.mp hstep
      exact (h.addHostMonitors hpositive halive hadd).1.removeHosts hremove
    · cases hstep
      exact h
  | setOtherDetectors contribution =>
    cases hstep
    exact ⟨h.alive, h.pending⟩
  | destroy =>
    rw [Detector.step] at hstep
    split at hstep
    · obtain ⟨s₁, -, hdestroy⟩ := bind_eq_some_iff.mp hstep
      cases hdestroy
      exact ⟨nofun, nofun⟩
    · cases hstep
      exact h

theorem mem_posts_of_mem (codes : List Nat) (hmem : host ∈ s.posts) :
    host ∈ (codes.foldl (fun s responseCode =>
      s.putHttpResponseCode host responseCode threshold) s).posts := by
  induction codes generalizing s with
  | nil => exact hmem
  | cons responseCode codes ih =>
    rw [foldl_cons]
    apply ih
    by_cases hcode : 500 ≤ responseCode ∧ responseCode < 600
    · by_cases halive : s.alive = true
      · rw [(countsFailure_putHttpResponseCode hcode halive host threshold).posts]
        exact mem_append_left _ hmem
      · rw [putHttpResponseCode, if_pos hcode, if_neg halive]
        exact hmem
    · rw [putHttpResponseCode, if_neg hcode]
      exact hmem

theorem mem_posts_of_failures {codes : List Nat}
    (hcodes : ∀ responseCode ∈ codes, 500 ≤ responseCode ∧ responseCode < 600)
    (halive : s.alive = true) (hsize : threshold < 2 ^ 32)
    (hbelow : (s.monitor host).consecutive5xx.toNat < threshold)
    (hreaches : threshold ≤ (s.monitor host).consecutive5xx.toNat + codes.length) :
    host ∈ (codes.foldl (fun s responseCode =>
      s.putHttpResponseCode host responseCode threshold) s).posts := by
  induction codes generalizing s with
  | nil => exact absurd hreaches (Nat.not_le.mpr hbelow)
  | cons responseCode codes ih =>
    have hcounts := countsFailure_putHttpResponseCode (hcodes responseCode mem_cons_self)
      halive host threshold
    have hnext := toNat_succ hsize hbelow
    rw [foldl_cons]
    by_cases hreached : ((s.monitor host).consecutive5xx + 1).toNat = threshold
    · apply mem_posts_of_mem
      rw [hcounts.posts, if_pos hreached]
      exact mem_append_right _ mem_cons_self
    · rw [length_cons] at hreaches
      apply ih
      · exact fun code hmem => hcodes code (mem_cons_of_mem _ hmem)
      · exact hcounts.alive.trans halive
      · rw [hcounts.counter]
        omega
      · rw [hcounts.counter]
        omega

/-- A monitored host that is not ejected and has no post pending is below the threshold, and as many
further failures in a row as the threshold are reported. -/
structure Sees (threshold : Nat) (host : Host) (s : Detector Host) : Prop where
  below : host ∈ s.hostMonitors → host ∉ s.posts → s.failedOutlierCheck host = false →
    (s.monitor host).consecutive5xx.toNat < threshold
  reported : host ∈ s.hostMonitors → host ∉ s.posts → s.failedOutlierCheck host = false →
    ∀ codes : List Nat, codes.length = threshold →
      (∀ responseCode ∈ codes, 500 ≤ responseCode ∧ responseCode < 600) →
      host ∈ (codes.foldl (fun s responseCode =>
        s.putHttpResponseCode host responseCode threshold) s).posts

theorem Watched.sees (h : Watched threshold host s) (hsize : threshold < 2 ^ 32) :
    Sees threshold host s := by
  have hbelow (hmem : host ∈ s.hostMonitors) (hposts : host ∉ s.posts) :
      (s.monitor host).consecutive5xx.toNat < threshold :=
    Nat.lt_of_not_le fun hcounter => hposts (h.pending hmem hcounter)
  refine ⟨fun hmem hposts _ => hbelow hmem hposts, ?_⟩
  intro hmem hposts _ codes hlength hcodes
  apply mem_posts_of_failures hcodes (h.alive hmem) hsize (hbelow hmem hposts)
  omega

/-- A run in which no last post is dropped does not blind the detector for the host. -/
theorem sees_of_postNotDropped {failed : Host → Bool} {hosts : List Host} {host : Host}
    {threshold : Nat} {s₀ s : Detector Host} {events : List (Event Host Rate)}
    (hpositive : 1 ≤ threshold) (hsize : threshold < 2 ^ 32)
    (hcreate : create failed hosts = some s₀)
    (hmeet : AllMeet step (fun s event => FixedThreshold threshold host s event ∧
      PostNotDropped threshold host s event) s₀ events)
    (hrun : run step s₀ events = some s) : Sees threshold host s := by
  have hnew : Watched threshold host (new failed) := ⟨nofun, nofun⟩
  have hstart := (hnew.addHostMonitors hpositive rfl hcreate).1
  have hend : Watched threshold host s :=
    run_invariant (fun _ _ _ h hmeet hstep => h.step hpositive hmeet.1 hmeet.2 hstep) hmeet hstart
      hrun
  exact hend.sees hsize

instance (threshold : Nat) (host : Host) (s : Detector Host) :
    (event : Event Host Rate) → Decidable (FixedThreshold threshold host s event) := by
  intro e
  cases e <;> dsimp only [FixedThreshold] <;> infer_instance

instance (threshold : Nat) (host : Host) (s : Detector Host) :
    (event : Event Host Rate) → Decidable (PostNotDropped threshold host s event) := by
  intro e
  cases e <;> dsimp only [PostNotDropped] <;> infer_instance

/-- The host is ejected for its success rate, if `outlier` says so. -/
def intervalAt (now : Int) (outlier : Bool) : Interval Nat Nat :=
  ⟨[0], now, 1000, 1, some, fun _ _ => outlier, 10, fun _ => true, fun _ => now⟩

def ejectedOnce : List (Event Nat Nat) :=
  [.putHttpResponseCode 0 503 1, .runPost 0 10 true 0, .onIntervalTimer (intervalAt 1000 false)]

def droppedPost : List (Event Nat Nat) :=
  [.putHttpResponseCode 0 503 1, .onIntervalTimer (intervalAt 0 true), .runPost 0 10 true 0,
    .onIntervalTimer (intervalAt 1000 false)]

theorem sees_after_ejection : ∃ s₀ s, create (fun _ => false) [0] = some s₀ ∧
    run step s₀ ejectedOnce = some s ∧ Sees 1 0 s := by
  refine ⟨_, _, rfl, rfl, ?_⟩
  exact sees_of_postNotDropped (Nat.le_refl 1) (by decide) (rfl : create (fun _ => false) [0] = _)
    (by decide) (rfl : run step _ ejectedOnce = _)

/-- The post comes while the host is ejected for its success rate. -/
theorem blind_after_ejection : ∃ s₀ s, create (fun _ => false) [0] = some s₀ ∧
    AllMeet step (FixedThreshold 1 0) s₀ droppedPost ∧ run step s₀ droppedPost = some s ∧
    ¬ Sees 1 0 s := by
  refine ⟨_, _, rfl, by decide, rfl, ?_⟩
  intro h
  exact absurd (h.below (by decide) (by decide) (by decide)) (by decide)

end Detector

end Meliproxy.Envoy.Upstream.Outlier
