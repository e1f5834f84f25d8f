import Meliproxy.Envoy.Http.Http2PoolClose

/-!
# The accounting of the HTTP/2 connection pool

Every handler keeps the invariant, and so does every run of events that can happen.
-/

namespace Meliproxy.Envoy.Http.Http2

open Lib Option

namespace ConnPoolImpl

variable {m : Nat} {s s' : ConnPoolImpl} {id : Nat}

def oneLess (s : ConnPoolImpl) (id : Nat) : ConnPoolImpl :=
  { s.modify id fun c => { c with activeRequests := c.activeRequests - 1 } with
    requests := s.requests - 1 }

theorem oneLess_of_ne {k : Nat} (h : k ≠ id) : (s.oneLess id).clients k = s.clients k := by
  simp [oneLess, modify, h]

/-- Streams are added to or removed from a client that the pool points to. -/
theorem open_modify (f : ActiveClient → ActiveClient) {requests : Nat} (h : s.Open m)
    (hid : id < s.created) (hpointed : s.primaryClient ≠ some id → s.drainingClient ≠ some id → False)
    (hclosed : ∀ c, (f c).closed = c.closed)
    (hflag : ∀ c, (f c).closedWithActiveRq = c.closedWithActiveRq)
    (hbounded : (f (s.clients id)).totalStreams ≤ s.maxStreams)
    (hrequests : requests + (s.clients id).activeRequests =
      s.requests + (f (s.clients id)).activeRequests) :
    Open m { s.modify id f with requests := requests } := by
  have hsame := modify_apply s id hclosed
  refine ⟨?_, ?_, ?_⟩
  · apply weak_update f h.toWeak
    · rw [hclosed]
      exact fun hc => hc
    · exact fun _ hp hd => (hpointed hp hd).elim
    · have hsum := activeStreams_modify (s := s) f hid
      have hcounted := h.counted
      omega
    · exact fun _ => hbounded
    · rw [hclosed, hflag]
      exact h.unflagged id
  · intro k hk
    exact (hsame k).trans (h.primary_open k hk)
  · intro k hk
    exact (hsame k).trans (h.draining_open k hk)

theorem open_oneLess (h : s.Open m) (hid : id < s.created)
    (ha : 0 < (s.clients id).activeRequests) : (s.oneLess id).Open m := by
  have hle := active_le_requests h.toWeak hid
  apply open_modify (fun c => { c with activeRequests := c.activeRequests - 1 }) h hid ?_
    (fun _ => rfl) (fun _ => rfl) (h.bounded id hid)
  · change s.requests - 1 + _ = s.requests + ((s.clients id).activeRequests - 1)
    omega
  · intro hp hd
    have hzero := h.idle id hid hp hd
    omega

variable (n : Nat)

theorem onStreamDestroy_eq (hdec : s.decRequests = some s') : onStreamDestroy (n + 1) s id =
      (if s'.drainingClient = some id ∧ (s'.clients id).activeRequests = 0 then
        close n s' id .localClose else some s').bind fun s =>
      if (s.clients id).closedWithActiveRq then some s else checkForDrained n s := by
  rw [onStreamDestroy, hdec]
  simp only [bind_eq_bind, bind_some]
  split <;> rfl

theorem deleteRequest_spec (h : s.Inv m) (hid : id < s.created)
    (hopen : (s.clients id).closed = false) (ha : 0 < (s.clients id).activeRequests) :
    ∃ s', deleteRequest (n + 8) s id = some s' ∧ s'.Inv m := by
  have hless := open_oneLess h.toOpen hid ha
  have hreq : s.requests ≠ 0 := by
    have := active_le_requests h.toWeak hid
    omega
  have hflag := h.unflagged id hid hopen
  have hdec : decRequests (s.modify id fun c => { c with activeRequests := c.activeRequests - 1 }) =
      some (s.oneLess id) := if_neg hreq
  rw [deleteRequest, if_neg (Nat.ne_of_gt ha), onStreamDestroy_eq (n + 6) hdec]
  by_cases hd : (s.oneLess id).drainingClient = some id ∧
      ((s.oneLess id).clients id).activeRequests = 0
  · have hlost := ready_modify id neutral_connectTimer
      (ready_lost hless (.inr hd.1) fun k hk hne =>
        absurd (Option.some.inj (hk.symm.trans hd.1)) hne)
    obtain ⟨s', h', hinv, -⟩ := checkForDrained_spec n hlost
    refine ⟨s', ?_, hinv⟩
    rw [if_pos hd, close_idle (n + 1) hless.toWeak hid (hless.draining_open id hd.1) hd.2,
      bind_some]
    have hf : ((((s.oneLess id).lost id).modify id fun c =>
        { c with connectTimer := false }).clients id).closedWithActiveRq = false := by
      rw [modify_self, lost, unlink_clients]
      simp [resetAll, hd.2, hless.unflagged id hid (hless.draining_open id hd.1)]
    rw [hf]
    exact h'
  · have hready : (s.oneLess id).Ready m := by
      refine ⟨hless, ?_⟩
      intro k hk
      have hk' : s.drainingClient = some k := hk
      by_cases hki : k = id
      · subst hki
        exact Nat.pos_of_ne_zero fun hz => hd ⟨hk', hz⟩
      · rw [oneLess_of_ne hki]
        exact h.draining_active k hk'
    obtain ⟨s', h', hinv, -⟩ := checkForDrained_spec n hready
    refine ⟨s', ?_, hinv⟩
    have hf : ((s.oneLess id).clients id).closedWithActiveRq = false := by
      simp [oneLess, hflag]
    rw [if_neg hd, bind_some, hf]
    exact h'

theorem inv_moved (h : s.Inv m) {p : Nat} (hp : s.primaryClient = some p)
    (hd : s.drainingClient = none) (ha : (s.clients p).activeRequests ≠ 0) :
    Inv m { s with drainingClient := some p, primaryClient := none } := by
  refine ⟨⟨⟨?_, ?_, ?_⟩, ?_⟩, ?_⟩
  · constructor
    case limit => exact h.limit
    case primary_lt => simp
    case draining_lt =>
      intro k hk
      exact h.primary_lt k (hp.trans hk)
    case distinct => simp
    case pointed =>
      intro k hk hc
      rcases h.pointed k hk hc with hkp | hkd
      · exact .inr (hp.symm.trans hkp)
      · cases hd.symm.trans hkd
    case idle =>
      intro k hk _ hkd
      exact h.idle k hk (fun hkp => hkd (hp.symm.trans hkp)) (by simp [hd])
    case counted => exact h.counted
    case bounded => exact h.bounded
    case unflagged => exact h.unflagged
    case drained_zero => exact h.drained_zero
  · simp
  · intro k hk
    exact h.primary_open k (hp.trans hk)
  · intro k hk
    obtain rfl : p = k := Option.some.inj hk
    exact Nat.pos_of_ne_zero ha
  · simp

theorem moveToDraining_spec (h : s.Inv m) {p : Nat} (hp : s.primaryClient = some p)
    (hd : s.drainingClient = none) :
    ∃ s', movePrimaryClientToDraining (n + 8) s = some s' ∧ s'.Inv m ∧ s'.primaryClient = none ∧
      s'.drainedCallbacks = s.drainedCallbacks := by
  by_cases ha : (s.clients p).activeRequests = 0
  · obtain ⟨s', h', hinv, hclosed⟩ := close_spec n h (.inl hp) .localClose (by decide)
    obtain ⟨hnone, -⟩ := hclosed.primary hp
    refine ⟨s', ?_, hinv, hnone, hclosed.drainedCallbacks⟩
    simp [movePrimaryClientToDraining, hd, hp, ha, h', hnone]
  · refine ⟨_, ?_, inv_moved h hp hd ha, rfl, rfl⟩
    simp [movePrimaryClientToDraining, hd, hp, ha]

theorem movePrimaryClientToDraining_spec (h : s.Inv m) {p : Nat} (hp : s.primaryClient = some p) :
    ∃ s', movePrimaryClientToDraining (n + 8) s = some s' ∧ s'.Inv m ∧ s'.primaryClient = none ∧
      s'.drainedCallbacks = s.drainedCallbacks := by
  cases hd : s.drainingClient with
  | none => exact moveToDraining_spec n h hp hd
  | some d =>
    obtain ⟨s₁, h₁, hinv, hclosed⟩ := close_spec n h (.inr hd) .localClose (by decide)
    obtain ⟨hnone, hprimary, -⟩ := hclosed.draining hd
    obtain ⟨s', h', hinv', hp', hcb⟩ := moveToDraining_spec n hinv (hprimary.trans hp) hnone
    refine ⟨s', ?_, hinv', hp', hcb.trans hclosed.drainedCallbacks⟩
    rw [← h']
    simp [movePrimaryClientToDraining, hd, h₁, hnone]

theorem newClient_of_lt {k : Nat} (hk : k < s.created) : s.newClient.clients k = s.clients k := by
  simp [newClient, Nat.ne_of_lt hk]

@[simp] theorem newClient_self : s.newClient.clients s.created = .create := by
  simp [newClient]

theorem lt_newClient {k : Nat} (hk : k < s.newClient.created) : k < s.created ∨ k = s.created := by
  have hk' : k < s.created + 1 := hk
  omega

theorem inv_newClient (h : s.Inv m) (hp : s.primaryClient = none) (hcb : s.drainedCallbacks = 0) :
    s.newClient.Inv m := by
  have hdraining : ∀ k, s.drainingClient = some k → s.newClient.clients k = s.clients k :=
    fun k hk => newClient_of_lt (h.draining_lt k hk)
  refine ⟨⟨⟨?_, ?_, ?_⟩, ?_⟩, ?_⟩
  · constructor
    case limit => exact h.limit
    case primary_lt =>
      intro k hk
      obtain rfl : s.created = k := Option.some.inj hk
      exact Nat.lt_succ_self _
    case draining_lt =>
      intro k hk
      exact Nat.lt_succ_of_lt (h.draining_lt k hk)
    case distinct =>
      intro k hk hd
      obtain rfl : s.created = k := Option.some.inj hk
      exact Nat.lt_irrefl _ (h.draining_lt _ hd)
    case pointed =>
      intro k hk hc
      rcases lt_newClient hk with hlt | rfl
      · rw [newClient_of_lt hlt] at hc
        rcases h.pointed k hlt hc with hkp | hkd
        · cases hp.symm.trans hkp
        · exact .inr hkd
      · exact .inl rfl
    case idle =>
      intro k hk _ hkd
      rcases lt_newClient hk with hlt | rfl
      · rw [newClient_of_lt hlt]
        exact h.idle k hlt (by simp [hp]) hkd
      · rw [newClient_self]
        rfl
    case counted =>
      have hold : ∑ k ∈ Finset.range s.created, (s.newClient.clients k).activeRequests =
          s.activeStreams := by
        apply Finset.sum_congr rfl
        intro k hk
        rw [newClient_of_lt (Finset.mem_range.mp hk)]
      have hsum : s.newClient.activeStreams = s.activeStreams := by
        change ∑ k ∈ Finset.range (s.created + 1), (s.newClient.clients k).activeRequests = _
        rw [Finset.sum_range_succ, hold, newClient_self]
        rfl
      rw [hsum]
      exact h.counted
    case bounded =>
      intro k hk
      rcases lt_newClient hk with hlt | rfl
      · rw [newClient_of_lt hlt]
        exact h.bounded k hlt
      · rw [newClient_self]
        exact Nat.zero_le _
    case unflagged =>
      intro k hk hc
      rcases lt_newClient hk with hlt | rfl
      · rw [newClient_of_lt hlt] at hc ⊢
        exact h.unflagged k hlt hc
      · rw [newClient_self]
        rfl
    case drained_zero => exact h.drained_zero
  · intro k hk
    obtain rfl : s.created = k := Option.some.inj hk
    rw [newClient_self]
    rfl
  · intro k hk
    rw [hdraining k hk]
    exact h.draining_open k hk
  · intro k hk
    rw [hdraining k hk]
    exact h.draining_active k hk
  · intro hpos
    exact absurd hpos (by simp [newClient, hcb])

def oneMore (s : ConnPoolImpl) (id : Nat) : ConnPoolImpl :=
  { s.modify id fun c =>
      { c with totalStreams := c.totalStreams + 1, activeRequests := c.activeRequests + 1 } with
    requests := s.requests + 1 }

theorem oneMore_of_ne {k : Nat} (h : k ≠ id) : (s.oneMore id).clients k = s.clients k := by
  simp [oneMore, modify, h]

theorem active_le_oneMore (k : Nat) :
    (s.clients k).activeRequests ≤ ((s.oneMore id).clients k).activeRequests := by
  by_cases hk : k = id
  · subst hk
    simp [oneMore]
  · rw [oneMore_of_ne hk]

theorem inv_oneMore (h : s.Inv m) (hp : s.primaryClient = some id)
    (hlt : (s.clients id).totalStreams < s.maxStreams) : (s.oneMore id).Inv m := by
  have hopen : (s.oneMore id).Open m := by
    apply open_modify (fun c => { c with
        totalStreams := c.totalStreams + 1, activeRequests := c.activeRequests + 1 })
      h.toOpen (h.primary_lt id hp) (fun hne => absurd hp hne) (fun _ => rfl) (fun _ => rfl) hlt
    change s.requests + 1 + _ = s.requests + ((s.clients id).activeRequests + 1)
    omega
  refine ⟨⟨hopen, ?_⟩, ?_⟩
  · intro k hk
    exact Nat.lt_of_lt_of_le (h.draining_active k hk) (active_le_oneMore k)
  · intro hpos k hk
    exact Nat.lt_of_lt_of_le (h.primary_active hpos k hk) (active_le_oneMore k)

theorem maxStreams_pos (s : ConnPoolImpl) : 0 < s.maxStreams := by
  unfold maxStreams
  split
  · decide
  · omega

theorem rollover_spec (h : s.Inv m) :
    ∃ s', rollover (n + 8) s = some s' ∧ s'.Inv m ∧ s'.drainedCallbacks = s.drainedCallbacks ∧
      ∀ id, s'.primaryClient = some id → (s'.clients id).totalStreams < s'.maxStreams := by
  unfold rollover
  cases hp : s.primaryClient with
  | none =>
    refine ⟨s, rfl, h, rfl, ?_⟩
    intro id hid
    cases hp.symm.trans hid
  | some p =>
    by_cases hmax : s.maxStreams ≤ (s.clients p).totalStreams
    · obtain ⟨s', h', hinv, hnone, hsame⟩ := movePrimaryClientToDraining_spec n h hp
      refine ⟨s', ?_, hinv, hsame, ?_⟩
      · simp only [if_pos hmax]
        exact h'
      · intro id hid
        cases hnone.symm.trans hid
    · refine ⟨s, ?_, h, rfl, ?_⟩
      · simp only [if_neg hmax]
      · intro id hid
        cases hp.symm.trans hid
        exact Nat.lt_of_not_le hmax

theorem withPrimaryClient_spec (h : s.Inv m) (hcb : s.drainedCallbacks = 0)
    (hlt : ∀ id, s.primaryClient = some id → (s.clients id).totalStreams < s.maxStreams) :
    s.withPrimaryClient.Inv m ∧ ∃ id, s.withPrimaryClient.primaryClient = some id ∧
      (s.withPrimaryClient.clients id).totalStreams < s.withPrimaryClient.maxStreams := by
  unfold withPrimaryClient
  cases hp : s.primaryClient with
  | none =>
    refine ⟨inv_newClient h hp hcb, s.created, rfl, ?_⟩
    simp only [isNone_none, if_true, newClient_self]
    exact maxStreams_pos _
  | some p => exact ⟨h, p, hp, hlt p hp⟩

theorem newStream_spec (h : s.Inv m) (canCreate : Bool) (hcb : s.drainedCallbacks = 0) :
    ∃ s', newStream (n + 8) s canCreate = some s' ∧ s'.Inv m := by
  obtain ⟨s₁, h₁, hinv₁, hcb₁, hlt₁⟩ := rollover_spec n h
  obtain ⟨hinv, p, hp, hlt⟩ := withPrimaryClient_spec hinv₁ (hcb₁.trans hcb) hlt₁
  rw [newStream, h₁, bind_some, startStream, hp]
  cases canCreate with
  | true => exact ⟨_, rfl, inv_oneMore hinv hp hlt⟩
  | false => exact ⟨_, rfl, hinv⟩

theorem neutral_connected : Neutral fun c => { c with connected := true } :=
  ⟨fun _ => rfl, fun _ => rfl, fun _ => rfl, fun _ => rfl⟩

theorem onConnected_spec (h : s.Inv m) (id : Nat) :
    ∃ s', onConnected (n + 1) s id = some s' ∧ s'.Inv m := by
  refine ⟨_, ?_, inv_modify id neutral_connectTimer (inv_modify id neutral_connected h)⟩
  simp [onConnected, onConnectionEvent]

theorem addDrainedCallback_spec (h : s.Inv m) :
    ∃ s', addDrainedCallback (n + 6) s = some s' ∧ s'.Inv m := by
  have hready : Ready m { s with drainedCallbacks := s.drainedCallbacks + 1 } := by
    have hw := h.toWeak
    exact ⟨⟨{ hw with }, h.primary_open, h.draining_open⟩,
      h.draining_active⟩
  obtain ⟨s', h', hinv, -⟩ := checkForDrained_spec n hready
  exact ⟨s', h', hinv⟩

theorem onReset_spec (h : s.Inv m) (hid : id < s.created)
    (hopen : (s.clients id).closed = false) (ha : 0 < (s.clients id).activeRequests)
    {reason : StreamResetReason} (hr : reason.disconnect = false) :
    ∃ s', onReset (n + 9) s id reason = some s' ∧ s'.Inv m := by
  have hsame : s.onStreamReset id reason = s := by simp [onStreamReset, hr]
  rw [onReset, hsame]
  exact deleteRequest_spec n h hid hopen ha

theorem step_spec (h : s.Inv m) {e : PoolEvent} (he : s.Possible e) :
    ∃ s', s.step e = some s' ∧ s'.Inv m := by
  cases e with
  | newStream canCreate => exact newStream_spec 1 h canCreate he
  | streamComplete id => exact deleteRequest_spec 1 h he.1 he.2.1 he.2.2
  | streamReset id reason => exact onReset_spec 0 h he.1 he.2.1 he.2.2.1 he.2.2.2
  | goAway id =>
    simp only [step, onGoAway]
    split
    · rename_i hp
      obtain ⟨s', h', hinv, -⟩ := movePrimaryClientToDraining_spec 1 h hp
      exact ⟨s', h', hinv⟩
    · exact ⟨s, rfl, h⟩
  | connected id => exact onConnected_spec 8 h id
  | connectTimeout id =>
    obtain ⟨s', h', hinv, -⟩ := close_spec 1 h (h.pointed id he.1 he.2.1) .localClose (by decide)
    exact ⟨s', h', hinv⟩
  | close id event =>
    obtain ⟨s', h', hinv, -⟩ := close_spec 1 h (h.pointed id he.1 he.2.1) event he.2.2
    exact ⟨s', h', hinv⟩
  | addDrainedCallback => exact addDrainedCallback_spec 3 h

theorem run_spec {es : List PoolEvent} (h : s.Inv m) (hes : AllMeet step Possible s es) :
    ∃ s', run step s es = some s' ∧ s'.Inv m := run_safe (fun _ _ h he => step_spec h he) h hes

/-- Every run of events that can happen goes through, and in the state it leads to the
resource counts the active streams, only the primary and the draining client are open, the
draining one has a stream, no connection has had too many streams, and the drained callbacks
have run without a stream only. -/
theorem pool_accounting {es : List PoolEvent} (hes : AllMeet step Possible (create m) es) :
    ∃ s, run step (create m) es = some s ∧ s.requests = s.activeStreams ∧
      (∀ id < s.created, (s.clients id).closed = false ↔
        s.primaryClient = some id ∨ s.drainingClient = some id) ∧
      (∀ id, s.drainingClient = some id → 0 < (s.clients id).activeRequests) ∧
      (∀ id < s.created, (s.clients id).totalStreams ≤ if m = 0 then maxTotalStreams else m) ∧
      ∀ n ∈ s.drained, n = 0 := by
  obtain ⟨s, hs, h⟩ := run_spec (inv_create m) hes
  refine ⟨s, hs, h.counted, ?_, h.draining_active, ?_, h.drained_zero⟩
  · intro id hid
    constructor
    · exact h.pointed id hid
    · rintro (hp | hd)
      · exact h.primary_open id hp
      · exact h.draining_open id hd
  · intro id hid
    have hb := h.bounded id hid
    rw [maxStreams, h.limit] at hb
    exact hb

/-- With one stream for each connection the second stream makes the first connection drain.
The drained callbacks run when both streams are gone, the last one by a disconnect. -/
theorem pool_accounting_run :
    ∃ es, AllMeet step Possible (create 1) es ∧ ∃ s, run step (create 1) es = some s ∧
      s.drained.length = 1 ∧ s.requests = s.activeStreams := by
  have hes : AllMeet step Possible (create 1) [.newStream true, .connected 0, .newStream true,
      .addDrainedCallback, .streamComplete 1, .close 0 .remoteClose] := by
    decide +kernel
  obtain ⟨s, hs, hreq, -⟩ := pool_accounting hes
  refine ⟨_, hes, s, hs, ?_, hreq⟩
  have hlength : (run step (create 1) [.newStream true, .connected 0, .newStream true,
      .addDrainedCallback, .streamComplete 1, .close 0 .remoteClose]).map
        (fun s => s.drained.length) = some 1 := by
    decide +kernel
  rw [hs] at hlength
  exact Option.some.inj hlength

end ConnPoolImpl

end Meliproxy.Envoy.Http.Http2
