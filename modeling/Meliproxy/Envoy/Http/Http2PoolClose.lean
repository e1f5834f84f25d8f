import Meliproxy.Envoy.Http.Http2Pool

/-!
# Closing a connection of the HTTP/2 pool

Closing a connection takes its streams out of the count one by one, while the pool still
points to it and looks for no drained state. So there are invariants of three strengths:
`Weak` holds between any two steps of a handler, `Ready` when no connection is being closed,
`Inv` between two events.
-/

namespace Meliproxy.Envoy.Http.Http2

open Lib Option Function Finset

namespace ConnPoolImpl

variable (m : Nat)

/-- What holds between any two steps of a handler. -/
structure Weak (s : ConnPoolImpl) : Prop where
  limit : s.maxRequestsPerConnection = m
  primary_lt : ∀ id, s.primaryClient = some id → id < s.created
  draining_lt : ∀ id, s.drainingClient = some id → id < s.created
  distinct : ∀ id, s.primaryClient = some id → s.drainingClient ≠ some id
  pointed : ∀ id < s.created, (s.clients id).closed = false →
    s.primaryClient = some id ∨ s.drainingClient = some id
  idle : ∀ id < s.created, s.primaryClient ≠ some id → s.drainingClient ≠ some id →
    (s.clients id).activeRequests = 0
  counted : s.requests = s.activeStreams
  bounded : ∀ id < s.created, (s.clients id).totalStreams ≤ s.maxStreams
  unflagged : ∀ id < s.created, (s.clients id).closed = false →
    (s.clients id).closedWithActiveRq = false
  drained_zero : ∀ n ∈ s.drained, n = 0

/-- What holds when no connection is being closed. -/
structure Open (s : ConnPoolImpl) : Prop extends Weak m s where
  primary_open : ∀ id, s.primaryClient = some id → (s.clients id).closed = false
  draining_open : ∀ id, s.drainingClient = some id → (s.clients id).closed = false

structure Ready (s : ConnPoolImpl) : Prop extends Open m s where
  draining_active : ∀ id, s.drainingClient = some id → 0 < (s.clients id).activeRequests

/-- What holds between two events. -/
structure Inv (s : ConnPoolImpl) : Prop extends Ready m s where
  primary_active : 0 < s.drainedCallbacks → ∀ id, s.primaryClient = some id →
    0 < (s.clients id).activeRequests

theorem inv_create : (create m).Inv m := by
  refine ⟨⟨⟨?_, ?_, ?_⟩, ?_⟩, ?_⟩
  · constructor <;> simp [create, activeStreams]
  all_goals simp [create]

variable {m : Nat} {s s' : ConnPoolImpl} {id : Nat}

@[simp] theorem modify_self (f : ActiveClient → ActiveClient) :
    (s.modify id f).clients id = f (s.clients id) := by
  simp [modify]

theorem modify_of_ne (f : ActiveClient → ActiveClient) {k : Nat} (h : k ≠ id) :
    (s.modify id f).clients k = s.clients k := by
  simp [modify, h]

section Modify

variable (f : ActiveClient → ActiveClient)

@[simp] theorem modify_created : (s.modify id f).created = s.created := rfl

@[simp] theorem modify_primaryClient : (s.modify id f).primaryClient = s.primaryClient := rfl

@[simp] theorem modify_drainingClient : (s.modify id f).drainingClient = s.drainingClient := rfl

@[simp] theorem modify_requests : (s.modify id f).requests = s.requests := rfl

@[simp] theorem modify_drained : (s.modify id f).drained = s.drained := rfl

@[simp] theorem modify_drainedCallbacks :
    (s.modify id f).drainedCallbacks = s.drainedCallbacks := rfl

@[simp] theorem modify_maxStreams : (s.modify id f).maxStreams = s.maxStreams := rfl

end Modify

theorem activeStreams_modify (f : ActiveClient → ActiveClient) (h : id < s.created) :
    (s.modify id f).activeStreams + (s.clients id).activeRequests =
      s.activeStreams + (f (s.clients id)).activeRequests := by
  have hmem : id ∈ Finset.range s.created := mem_range.mpr h
  have hrest : ∀ k ∈ (Finset.range s.created).erase id,
      ((s.modify id f).clients k).activeRequests = (s.clients k).activeRequests := by
    intro k hk
    rw [modify_of_ne f (ne_of_mem_erase hk)]
  have hnew := add_sum_erase (Finset.range s.created)
    (fun k => ((s.modify id f).clients k).activeRequests) hmem
  have hold := add_sum_erase (Finset.range s.created)
    (fun k => (s.clients k).activeRequests) hmem
  rw [sum_congr rfl hrest] at hnew
  simp only [modify_self] at hnew
  have hn : (s.modify id f).activeStreams =
      ∑ k ∈ Finset.range s.created, ((s.modify id f).clients k).activeRequests := rfl
  have ho : s.activeStreams = ∑ k ∈ Finset.range s.created, (s.clients k).activeRequests := rfl
  omega

theorem active_le_requests (h : s.Weak m) (hid : id < s.created) :
    (s.clients id).activeRequests ≤ s.requests := by
  rw [h.counted]
  exact single_le_sum (f := fun k => (s.clients k).activeRequests)
    (fun _ _ => Nat.zero_le _) (mem_range.mpr hid)

def resetAll (s : ConnPoolImpl) (id : Nat) : ConnPoolImpl :=
  { s.modify id fun c =>
      { c with
        closed := true
        activeRequests := 0
        closedWithActiveRq := c.closedWithActiveRq || decide (0 < c.activeRequests) } with
    requests := s.requests - (s.clients id).activeRequests }

variable {reason : StreamResetReason}

theorem onReset_closed (n : Nat) (hr : reason.disconnect = true) (hc : (s.clients id).closed = true)
    (ha : 0 < (s.clients id).activeRequests) (hreq : 0 < s.requests) : onReset (n + 4) s id reason =
      some { s.modify id fun c =>
        { c with closedWithActiveRq := true, activeRequests := c.activeRequests - 1 } with
        requests := s.requests - 1 } := by
  have ha' : (s.clients id).activeRequests ≠ 0 := by omega
  have hreq' : s.requests ≠ 0 := by omega
  simp only [onReset, onStreamReset, hr, if_true, deleteRequest, modify_self, ha', if_false]
  simp only [onStreamDestroy, decRequests, modify, hreq', if_false, bind_eq_bind,
    bind_some, update_self, update_idem]
  by_cases hd : s.drainingClient = some id ∧ (s.clients id).activeRequests - 1 = 0
  · rw [if_pos hd]
    simp [close, hc]
  · rw [if_neg hd]
    simp

theorem iterate_onReset (n k : Nat) (hr : reason.disconnect = true)
    (hc : (s.clients id).closed = true) (ha : (s.clients id).activeRequests = k)
    (hreq : k ≤ s.requests) :
    iterate (fun s => onReset (n + 4) s id reason) k s = some (s.resetAll id) := by
  induction k generalizing s with
  | zero =>
    have hsame : s.resetAll id = s := by
      have hclient : ({ s.clients id with
          closed := true
          activeRequests := 0
          closedWithActiveRq := (s.clients id).closedWithActiveRq || decide (0 < 0) } :
            ActiveClient) = s.clients id := by
        rw [← hc, ← ha]
        simp
      simp only [resetAll, modify, ha, hclient, update_eq_self, Nat.sub_zero]
    rw [iterate, hsame]
  | succ k ih =>
    rw [iterate, onReset_closed n hr hc (by omega) (by omega), bind_some, ih]
    · simp only [resetAll, modify, update_self, update_idem, ha,
        Bool.true_or, Nat.add_sub_cancel, Nat.zero_lt_succ, decide_true, Bool.or_true,
        Option.some.injEq]
      congr 1
      omega
    · simp [hc]
    · simp [ha]
    · simp only
      omega

theorem close_eq (n : Nat) (h : s.Weak m) (hid : id < s.created)
    (hc : (s.clients id).closed = false) (event : ConnectionEvent) :
    close (n + 5) s id event = onConnectionEvent (n + 4) (s.resetAll id) id event := by
  have hle := active_le_requests h hid
  have hall : resetAll (s.modify id fun c => { c with closed := true }) id = s.resetAll id := by
    simp [resetAll, modify]
  simp only [close, hc, Bool.false_eq_true, if_false]
  rw [iterate_onReset n _ ?_ ?_ rfl ?_]
  · rw [hall]
    rfl
  · split <;> rfl
  · simp
  · simpa using hle

def lost (s : ConnPoolImpl) (id : Nat) : ConnPoolImpl := (s.resetAll id).unlink id

variable {k : Nat}

theorem resetAll_of_ne (h : k ≠ id) : (s.resetAll id).clients k = s.clients k := by
  simp [resetAll, modify, h]

@[simp] theorem unlink_clients : (s.unlink id).clients = s.clients := by
  unfold unlink
  split <;> rfl

theorem activeStreams_resetAll (hid : id < s.created) :
    (s.resetAll id).activeStreams = s.activeStreams - (s.clients id).activeRequests := by
  have h := activeStreams_modify (s := s) (fun c =>
    { c with
      closed := true
      activeRequests := 0
      closedWithActiveRq := c.closedWithActiveRq || decide (0 < c.activeRequests) }) hid
  change (s.resetAll id).activeStreams + _ = s.activeStreams + 0 at h
  omega

/-- One client has changed, and the count of the requests with it. -/
theorem weak_update (f : ActiveClient → ActiveClient) {requests : Nat} (h : s.Weak m)
    (hclosed : (f (s.clients id)).closed = false → (s.clients id).closed = false)
    (hidle : id < s.created → s.primaryClient ≠ some id → s.drainingClient ≠ some id →
      (f (s.clients id)).activeRequests = 0) (hcounted : requests = (s.modify id f).activeStreams)
    (hbounded : id < s.created → (f (s.clients id)).totalStreams ≤ s.maxStreams)
    (hunflagged : id < s.created → (f (s.clients id)).closed = false →
      (f (s.clients id)).closedWithActiveRq = false) :
    Weak m { s.modify id f with requests := requests } := by
  have hone := forall_update_iff s.clients (a := id) (b := f (s.clients id))
  refine { h with pointed := ?_, idle := ?_, counted := hcounted, bounded := ?_, unflagged := ?_ }
  · exact (hone fun k c => k < s.created → c.closed = false →
      s.primaryClient = some k ∨ s.drainingClient = some k).mpr
        ⟨fun hid hc => h.pointed id hid (hclosed hc), fun k _ => h.pointed k⟩
  · exact (hone fun k c => k < s.created → s.primaryClient ≠ some k → s.drainingClient ≠ some k →
      c.activeRequests = 0).mpr ⟨hidle, fun k _ => h.idle k⟩
  · exact (hone fun k c => k < s.created → c.totalStreams ≤ s.maxStreams).mpr
      ⟨hbounded, fun k _ => h.bounded k⟩
  · exact (hone fun k c => k < s.created → c.closed = false → c.closedWithActiveRq = false).mpr
      ⟨hunflagged, fun k _ => h.unflagged k⟩

theorem weak_resetAll (h : s.Weak m) (hid : id < s.created) : (s.resetAll id).Weak m := by
  apply weak_update _ h
  · exact nofun
  · exact fun _ _ _ => rfl
  · change s.requests - _ = (s.resetAll id).activeStreams
    rw [activeStreams_resetAll hid, h.counted]
  · exact h.bounded id
  · exact fun _ => nofun

theorem weak_unlink (h : s.Weak m) (ha : (s.clients id).activeRequests = 0)
    (hc : (s.clients id).closed = true) (hp : s.primaryClient = some id ∨ s.drainingClient = some id) :
    (s.unlink id).Weak m := by
  by_cases hprimary : s.primaryClient = some id
  · have hs : s.unlink id = { s with primaryClient := none } := if_pos hprimary
    rw [hs]
    refine { h with primary_lt := nofun, distinct := nofun, pointed := ?_, idle := ?_ }
    · intro k hk hopen
      rcases h.pointed k hk hopen with hkp | hkd
      · cases hprimary.symm.trans hkp
        cases hopen.symm.trans hc
      · exact .inr hkd
    · intro k hk _ hkd
      by_cases hkp : s.primaryClient = some k
      · cases hprimary.symm.trans hkp
        exact ha
      · exact h.idle k hk hkp hkd
  · have hdraining := hp.resolve_left hprimary
    have hs : s.unlink id = { s with drainingClient := none } := if_neg hprimary
    rw [hs]
    refine { h with draining_lt := nofun, distinct := fun _ _ => nofun, pointed := ?_, idle := ?_ }
    · intro k hk hopen
      rcases h.pointed k hk hopen with hkp | hkd
      · exact .inl hkp
      · cases hdraining.symm.trans hkd
        cases hopen.symm.trans hc
    · intro k hk hkp _
      by_cases hkd : s.drainingClient = some k
      · cases hdraining.symm.trans hkd
        exact ha
      · exact h.idle k hk hkp hkd

theorem lost_primary (hp : (s.lost id).primaryClient = some k) :
    k ≠ id ∧ s.primaryClient = some k ∧ (s.lost id).clients k = s.clients k := by
  unfold lost unlink at hp
  split at hp
  · cases hp
  · rename_i hne
    have hk : k ≠ id := by
      rintro rfl
      exact hne hp
    exact ⟨hk, hp, by rw [lost, unlink_clients, resetAll_of_ne hk]⟩

theorem lost_draining (h : s.Weak m)
    (hpointed : s.primaryClient = some id ∨ s.drainingClient = some id)
    (hp : (s.lost id).drainingClient = some k) :
    k ≠ id ∧ s.drainingClient = some k ∧ (s.lost id).clients k = s.clients k := by
  unfold lost unlink at hp
  split at hp
  · rename_i hprimary
    have hk : k ≠ id := by
      rintro rfl
      exact h.distinct k hprimary hp
    exact ⟨hk, hp, by rw [lost, unlink_clients, resetAll_of_ne hk]⟩
  · cases hp

theorem weak_lost (h : s.Weak m) (hp : s.primaryClient = some id ∨ s.drainingClient = some id) :
    (s.lost id).Weak m := by
  have hid : id < s.created := hp.elim (h.primary_lt id) (h.draining_lt id)
  exact weak_unlink (weak_resetAll h hid) (by simp [resetAll]) (by simp [resetAll]) hp

theorem ready_lost (h : s.Open m) (hp : s.primaryClient = some id ∨ s.drainingClient = some id)
    (ha : ∀ k, s.drainingClient = some k → k ≠ id → 0 < (s.clients k).activeRequests) :
    (s.lost id).Ready m := by
  refine ⟨⟨weak_lost h.toWeak hp, ?_, ?_⟩, ?_⟩
  · intro k hk
    obtain ⟨-, hk, hc⟩ := lost_primary hk
    rw [hc]
    exact h.primary_open k hk
  · intro k hk
    obtain ⟨-, hk, hc⟩ := lost_draining h.toWeak hp hk
    rw [hc]
    exact h.draining_open k hk
  · intro k hk
    obtain ⟨hne, hk, hc⟩ := lost_draining h.toWeak hp hk
    rw [hc]
    exact ha k hk hne

/-- A change of what the invariant does not read. -/
structure Neutral (f : ActiveClient → ActiveClient) : Prop where
  activeRequests : ∀ c, (f c).activeRequests = c.activeRequests
  totalStreams : ∀ c, (f c).totalStreams = c.totalStreams
  closed : ∀ c, (f c).closed = c.closed
  closedWithActiveRq : ∀ c, (f c).closedWithActiveRq = c.closedWithActiveRq

variable {f : ActiveClient → ActiveClient}

theorem modify_apply (s : ConnPoolImpl) (id : Nat) {β : Type} {g : ActiveClient → β}
    (hg : ∀ c, g (f c) = g c) (k : Nat) : g ((s.modify id f).clients k) = g (s.clients k) := by
  by_cases hk : k = id
  · subst hk
    rw [modify_self, hg]
  · rw [modify_of_ne f hk]

theorem weak_modify (id : Nat) (hf : Neutral f) (h : s.Weak m) : (s.modify id f).Weak m := by
  apply weak_update f h
  · rw [hf.closed]
    exact fun hc => hc
  · rw [hf.activeRequests]
    exact h.idle id
  · exact h.counted.trans
      (sum_congr rfl fun k _ => (modify_apply s id hf.activeRequests k).symm)
  · rw [hf.totalStreams]
    exact h.bounded id
  · rw [hf.closed, hf.closedWithActiveRq]
    exact h.unflagged id

theorem ready_modify (id : Nat) (hf : Neutral f) (h : s.Ready m) : (s.modify id f).Ready m := by
  have hactive := modify_apply s id hf.activeRequests
  have hclosed := modify_apply s id hf.closed
  refine ⟨⟨weak_modify id hf h.toWeak, ?_, ?_⟩, ?_⟩
  · intro k hk
    rw [hclosed k]
    exact h.primary_open k hk
  · intro k hk
    rw [hclosed k]
    exact h.draining_open k hk
  · intro k hk
    rw [hactive k]
    exact h.draining_active k hk

theorem inv_modify (id : Nat) (hf : Neutral f) (h : s.Inv m) : (s.modify id f).Inv m := by
  refine ⟨ready_modify id hf h.toReady, ?_⟩
  intro hd k hk
  rw [modify_apply s id hf.activeRequests k]
  exact h.primary_active hd k hk

theorem neutral_connectTimer : Neutral fun c => { c with connectTimer := false } :=
  ⟨fun _ => rfl, fun _ => rfl, fun _ => rfl, fun _ => rfl⟩

theorem close_idle (n : Nat) (h : s.Weak m) (hid : id < s.created)
    (hc : (s.clients id).closed = false) (ha : (s.clients id).activeRequests = 0) :
    close (n + 5) s id .localClose =
      some ((s.lost id).modify id fun c => { c with connectTimer := false }) := by
  have hflag : ((s.resetAll id).clients id).closedWithActiveRq = false := by
    simp [resetAll, ha, h.unflagged id hid hc]
  rw [close_eq n h hid hc]
  simp only [onConnectionEvent, reduceCtorEq, if_false, unlink_clients, hflag,
    Bool.false_eq_true, lost]
  rfl

/-- What a look for a drained pool leaves alone. -/
structure Looked (s s' : ConnPoolImpl) : Prop where
  drainingClient : s'.drainingClient = s.drainingClient
  drainedCallbacks : s'.drainedCallbacks = s.drainedCallbacks
  primary : ∀ id, s.primaryClient = some id →
    s.drainedCallbacks = 0 ∨ 0 < (s.clients id).activeRequests →
    s'.primaryClient = some id ∧ s'.clients id = s.clients id
  noPrimary : s.primaryClient = none → s'.primaryClient = none

theorem looked_refl (s : ConnPoolImpl) : Looked s s :=
  ⟨rfl, rfl, fun _ hp _ => ⟨hp, rfl⟩, fun hp => hp⟩

theorem activeStreams_eq_zero (h : s.Weak m) (hp : s.primaryClient = none)
    (hd : s.drainingClient = none) : s.activeStreams = 0 := by
  apply sum_eq_zero
  intro k hk
  exact h.idle k (mem_range.mp hk) (by simp [hp]) (by simp [hd])

theorem inv_drained (h : s.Ready m) (hp : s.primaryClient = none) (hd : s.drainingClient = none) :
    Inv m { s with drained := s.drained ++ [s.activeStreams] } := by
  have hzero := activeStreams_eq_zero h.toWeak hp hd
  refine ⟨⟨⟨?_, h.primary_open, h.draining_open⟩, h.draining_active⟩, ?_⟩
  · have hw := h.toWeak
    refine { hw with drained_zero := ?_ }
    intro n hn
    rcases List.mem_append.mp hn with hn | hn
    · exact hw.drained_zero n hn
    · rw [List.mem_singleton.mp hn, hzero]
  · intro _ k hk
    rw [hp] at hk
    cases hk

theorem checkForDrained_spec (n : Nat) (h : s.Ready m) :
    ∃ s', checkForDrained (n + 6) s = some s' ∧ s'.Inv m ∧ Looked s s' := by
  by_cases hcb : s.drainedCallbacks = 0
  · refine ⟨s, by simp [checkForDrained, hcb], ⟨h, ?_⟩, looked_refl s⟩
    intro hpos
    omega
  cases hprimary : s.primaryClient with
  | none =>
    cases hdraining : s.drainingClient with
    | none =>
      refine ⟨{ s with drained := s.drained ++ [s.activeStreams] }, ?_,
        inv_drained h hprimary hdraining, rfl, rfl, ?_, fun hp => hp⟩
      · simp [checkForDrained, hcb, hprimary, hdraining]
      · intro k hk
        rw [hprimary] at hk
        cases hk
    | some d =>
      have hactive := h.draining_active d hdraining
      have hne : (s.clients d).activeRequests ≠ 0 := by omega
      refine ⟨s, ?_, ⟨h, ?_⟩, looked_refl s⟩
      · simp [checkForDrained, hcb, hprimary, hdraining, hne]
      · intro _ k hk
        rw [hprimary] at hk
        cases hk
  | some p =>
    by_cases ha : (s.clients p).activeRequests = 0
    · have hopen := h.primary_open p hprimary
      have hclose := close_idle n h.toWeak (h.primary_lt p hprimary) hopen ha
      have hready := ready_modify p neutral_connectTimer
        (ready_lost h.toOpen (.inl hprimary) fun k hk _ => h.draining_active k hk)
      have hdrainingClient : (s.lost p).drainingClient = s.drainingClient := by
        simp [lost, unlink, resetAll, hprimary]
      have hnone : (s.lost p).primaryClient = none := by
        simp [lost, unlink, resetAll, hprimary]
      have hlooked : ∀ s', s'.primaryClient = none → s'.drainingClient = s.drainingClient →
          s'.drainedCallbacks = s.drainedCallbacks → Looked s s' := by
        intro s' hp hd hc
        refine ⟨hd, hc, ?_, fun _ => hp⟩
        intro k hk hor
        cases hprimary.symm.trans hk
        omega
      have hcallbacks : (s.lost p).drainedCallbacks = s.drainedCallbacks := by
        simp [lost, unlink, resetAll, hprimary]
      cases hdraining : s.drainingClient with
      | none =>
        rw [hdraining] at hdrainingClient
        refine ⟨_, ?_, inv_drained hready hnone hdrainingClient,
          hlooked _ hnone (hdrainingClient.trans hdraining.symm) hcallbacks⟩
        simp [checkForDrained, hcb, hprimary, ha, hclose, hnone, hdrainingClient]
      | some d =>
        rw [hdraining] at hdrainingClient
        have hactive := hready.draining_active d hdrainingClient
        refine ⟨_, ?_, ⟨hready, ?_⟩,
          hlooked _ hnone (hdrainingClient.trans hdraining.symm) hcallbacks⟩
        · have hne := Nat.ne_of_gt hactive
          simp [checkForDrained, hcb, hprimary, ha, hclose, hnone, hdrainingClient, hne]
        · intro _ k hk
          cases hnone.symm.trans hk
    · have hd : ∀ d, s.drainingClient = some d → (s.clients d).activeRequests ≠ 0 := by
        intro d hd
        have := h.draining_active d hd
        omega
      refine ⟨s, ?_, ⟨h, ?_⟩, looked_refl s⟩
      · cases hdraining : s.drainingClient with
        | none => simp [checkForDrained, hcb, hprimary, ha, hdraining]
        | some d => simp [checkForDrained, hcb, hprimary, ha, hdraining, hd d hdraining]
      · intro _ k hk
        cases hprimary.symm.trans hk
        omega

/-- What a close leaves of the other client. -/
structure Closed (s : ConnPoolImpl) (id : Nat) (s' : ConnPoolImpl) : Prop where
  drainedCallbacks : s'.drainedCallbacks = s.drainedCallbacks
  primary : s.primaryClient = some id → s'.primaryClient = none ∧
    s'.drainingClient = s.drainingClient
  draining : s.drainingClient = some id → s'.drainingClient = none ∧
    s'.primaryClient = s.primaryClient ∧
    ∀ k, s.primaryClient = some k → s'.clients k = s.clients k

theorem closed_of_looked (h : s.Inv m) (hl : Looked (s.lost id) s') :
    Closed s id (s'.modify id fun c => { c with connectTimer := false }) := by
  have hcallbacks : (s.lost id).drainedCallbacks = s.drainedCallbacks := by
    unfold lost unlink
    split <;> rfl
  refine ⟨hl.drainedCallbacks.trans hcallbacks, ?_, ?_⟩
  · intro hprimary
    refine ⟨hl.noPrimary ?_, hl.drainingClient.trans ?_⟩ <;>
      simp [lost, unlink, resetAll, hprimary]
  · intro hdraining
    have hnot : s.primaryClient ≠ some id := fun hprimary => h.distinct id hprimary hdraining
    have hd : (s.lost id).drainingClient = none := by
      simp [lost, unlink, resetAll, hnot]
    have hsame : (s.lost id).primaryClient = s.primaryClient := by
      simp [lost, unlink, resetAll, hnot]
    refine ⟨hl.drainingClient.trans hd, ?_⟩
    cases hprimary : s.primaryClient with
    | none =>
      rw [hprimary] at hsame
      refine ⟨hl.noPrimary hsame, ?_⟩
      intro k hk
      cases hk
    | some p =>
      rw [hprimary] at hsame
      obtain ⟨hne, -, hc⟩ := lost_primary hsame
      have hactive : (s.lost id).drainedCallbacks = 0 ∨
          0 < ((s.lost id).clients p).activeRequests := by
        rw [hcallbacks, hc]
        rcases Nat.eq_zero_or_pos s.drainedCallbacks with hz | hpos
        · exact .inl hz
        · exact .inr (h.primary_active hpos p hprimary)
      obtain ⟨hs', hc'⟩ := hl.primary p hsame hactive
      refine ⟨hs', ?_⟩
      intro k hk
      obtain rfl : p = k := Option.some.inj hk
      rw [modify_of_ne _ hne, hc', hc]

theorem close_spec (n : Nat) (h : s.Inv m)
    (hp : s.primaryClient = some id ∨ s.drainingClient = some id) (event : ConnectionEvent)
    (he : event ≠ .connected) :
    ∃ s', close (n + 8) s id event = some s' ∧ s'.Inv m ∧ Closed s id s' := by
  have hid : id < s.created := hp.elim (h.primary_lt id) (h.draining_lt id)
  have hopen : (s.clients id).closed = false := hp.elim (h.primary_open id) (h.draining_open id)
  have hready : (s.lost id).Ready m := ready_lost h.toOpen hp fun k hk _ => h.draining_active k hk
  rw [close_eq (n + 3) h.toWeak hid hopen]
  by_cases hflag : ((s.resetAll id).clients id).closedWithActiveRq = true
  · obtain ⟨s₁, h₁, hinv, hl⟩ := checkForDrained_spec n hready
    refine ⟨s₁.modify id fun c => { c with connectTimer := false }, ?_,
      inv_modify id neutral_connectTimer hinv, closed_of_looked h hl⟩
    simp only [onConnectionEvent, if_neg he, unlink_clients, hflag, if_true]
    rw [← lost, h₁]
    rfl
  · refine ⟨(s.lost id).modify id fun c => { c with connectTimer := false }, ?_,
      inv_modify id neutral_connectTimer ⟨hready, ?_⟩, closed_of_looked h (looked_refl _)⟩
    · simp only [onConnectionEvent, if_neg he, unlink_clients, hflag, Bool.false_eq_true, if_false]
      rfl
    · intro hpos k hk
      obtain ⟨hne, hk, hc⟩ := lost_primary hk
      rw [hc]
      refine h.primary_active ?_ k hk
      have hcb : (s.lost id).drainedCallbacks = s.drainedCallbacks := by
        unfold lost unlink
        split <;> rfl
      omega

end ConnPoolImpl

end Meliproxy.Envoy.Http.Http2
