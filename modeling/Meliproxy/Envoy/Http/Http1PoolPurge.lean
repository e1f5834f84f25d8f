import Meliproxy.Envoy.Http.Http1PoolRuns

/-!
# Callbacks that re-enter the HTTP/1 connection pool

A connect failure moves the pending requests to a list of its own and fails them one by one.
The callbacks of the failures may start streams and cancel requests of the pool, so the loop
is a machine of its own: `Purging` is the pool while a callback runs, with the rest of the
list, and `callbackReturns` goes on to the next callback or to the end of the handler.
-/

namespace Meliproxy.Envoy.Http.Http1

open Lib List Option

structure Purging where
  pool : ConnPoolImpl
  client : Nat
  pendingRequestsToPurge : List Nat
  running : Bool

inductive PurgeEvent where
  | newStream (canCreatePending canCreateConnection : Bool)
  | cancel (request : Nat)
  | callbackReturns
  deriving DecidableEq

namespace Purging

open ConnPoolImpl (removeFromList checkForDrained depth)

variable (p : Purging)

/-- The loop goes on to its next callback, or the handler, two calls below the event, to its
end. -/
def next : Option Purging :=
  match p.pendingRequestsToPurge with
  | [] =>
    (checkForDrained (depth - 2) (p.pool.replace p.client)).map fun s =>
      { p with pool := s.disableConnectTimer p.client, running := false }
  | request :: rest =>
    some { p with
      pool := p.pool.record request .onPoolFailure
      pendingRequestsToPurge := rest
      running := true }

def start (s : ConnPoolImpl) (id : Nat) (event : ConnectionEvent) : Option Purging :=
  (removeFromList s.busyClients id).bind fun list =>
    next {
      pool := { s.modify id (.disconnect event) with busyClients := list, pendingRequests := [] }
      client := id
      pendingRequestsToPurge := s.pendingRequests
      running := false }

def step : PurgeEvent → Option Purging
  | .newStream canCreatePending canCreateConnection =>
    (p.pool.asks canCreatePending canCreateConnection).map fun s => { p with pool := s }
  | .cancel request => (p.pool.cancels request).map fun s => { p with pool := s }
  | .callbackReturns => p.pool.decPending.bind fun s => next { p with pool := s }

def Possible : PurgeEvent → Prop
  | .cancel request => p.running = true ∧
    (request ∈ p.pool.pendingRequests ∨ request ∈ p.pendingRequestsToPurge)
  | _ => p.running = true

instance decidablePossible : (e : PurgeEvent) → Decidable (p.Possible e)
  | .newStream _ _ => inferInstanceAs (Decidable (_ = _))
  | .cancel _ => inferInstanceAs (Decidable (_ ∧ (_ ∨ _)))
  | .callbackReturns => inferInstanceAs (Decidable (_ = _))

def FindsRequest : PurgeEvent → Prop
  | .cancel request => request ∈ p.pool.pendingRequests
  | _ => True

def stillWaiting (s : ConnPoolImpl) : List Nat :=
  (List.range s.made).filter fun r => (outcomesOf s.outcomes r).isEmpty

/-- The run of the callbacks goes as it should: a cancellation removes a pending request, no
request has two outcomes, so none after its cancellation, and in the end the pending
requests are those that wait. -/
def Sound (es : List PurgeEvent) : Prop :=
  AllMeet step FindsRequest p es ∧ ∃ p', run step p es = some p' ∧
    (∀ r, (outcomesOf p'.pool.outcomes r).length ≤ 1) ∧
    (p'.running = false → p'.pool.pendingRequests.length = (stillWaiting p'.pool).length)

theorem next_returns (pool : ConnPoolImpl) (client : Nat) (toPurge : List Nat) (running : Bool) :
    (next ⟨pool, client, toPurge, running⟩).bind
        (fun p => run step p (List.replicate toPurge.length .callbackReturns)) =
      (ConnPoolImpl.purge toPurge pool).bind fun s => next ⟨s, client, [], running⟩ := by
  induction toPurge generalizing pool running with
  | nil =>
    rw [ConnPoolImpl.purge, bind_some]
    exact bind_fun_some _
  | cons r rest ih =>
    have hnext : next ⟨pool, client, r :: rest, running⟩ =
        some ⟨pool.record r .onPoolFailure, client, rest, true⟩ := rfl
    rw [hnext, bind_some, length_cons, replicate_succ, run, ConnPoolImpl.purge, bind_assoc]
    have hstep : step ⟨pool.record r .onPoolFailure, client, rest, true⟩ .callbackReturns =
        (pool.failRequest r).bind fun s => next ⟨s, client, rest, true⟩ := rfl
    rw [hstep, bind_assoc]
    congr 1
    funext s
    rw [ih s true]
    rfl

variable {s : ConnPoolImpl}

theorem start_returns {id : Nat} (hopen : (s.clients id).closed = false)
    (hwrapper : (s.clients id).streamWrapper = none)
    (htimer : (s.clients id).connectTimer = true) (event : ConnectionEvent) :
    ((start s id event).bind
        (fun p => run step p (List.replicate s.pendingRequests.length .callbackReturns))).map
          Purging.pool = ConnPoolImpl.close depth s id event := by
  have hclose : ConnPoolImpl.close depth s id event =
      (removeFromList s.busyClients id).bind fun list =>
        (ConnPoolImpl.purge s.pendingRequests { s.modify id (.disconnect event) with
          busyClients := list
          pendingRequests := [] }).bind fun s =>
        (checkForDrained (depth - 2) (s.replace id)).map fun s => s.disableConnectTimer id := by
    have hlose : (s.modify id (.disconnect event)).lose id =
        (removeFromList s.busyClients id).bind fun list =>
          (ConnPoolImpl.purge s.pendingRequests { s.modify id (.disconnect event) with
            busyClients := list
            pendingRequests := [] }).map fun s => (s, true) := by
      unfold ConnPoolImpl.lose
      simp only [ConnPoolImpl.modify_self, ActiveClient.disconnect, hwrapper, htimer,
        isSome_none, Bool.false_eq_true, Bool.true_eq_false, if_false]
      rfl
    rw [depth, ConnPoolImpl.close, if_neg (by simp [hopen])]
    simp only [ConnPoolImpl.modify_self, ActiveClient.disconnect, hwrapper, isSome_none,
      Bool.false_eq_true, if_false, bind_some]
    rw [ConnPoolImpl.onDisconnect]
    erw [hlose]
    rw [bind_assoc]
    congr 1
    funext list
    rw [bind_map]
    rfl
  rw [hclose, start, bind_assoc, Option.map_bind]
  congr 1
  funext list
  rw [Function.comp_apply, next_returns, Option.map_bind]
  congr 1
  funext s
  simp only [Function.comp_apply, next, Option.map_map]
  rfl

theorem start_returns_pending :
    ∃ s, run ConnPoolImpl.step (.create 0) [.newStream true true, .newStream true false] = some s ∧
      ((start s 0 .remoteClose).bind
        (fun p => run step p (List.replicate s.pendingRequests.length .callbackReturns))).map
          Purging.pool =
        ConnPoolImpl.close depth s 0 .remoteClose := ⟨_, rfl, start_returns rfl rfl rfl .remoteClose⟩

/-- While a callback runs: the client is in no list, the waiting requests are the pending
ones, which are new, and those to be purged, and the failed one is still counted. -/
structure Inv (made : Nat) (p : Purging) : Prop where
  clients : Clients p.pool.clients p.pool.created p.pool.readyClients p.pool.busyClients
    (p.client :: p.pool.deferredDelete) p.pool.connections
  requests : Requests (p.pool.pendingRequests ++ p.pendingRequestsToPurge)
    (p.pool.pendingResource - 1) p.pool.made p.pool.outcomes
  counted : p.pool.pendingResource ≠ 0
  noReady : p.pool.readyClients = []
  new : ∀ r ∈ p.pool.pendingRequests, made ≤ r
  old : ∀ r ∈ p.pendingRequestsToPurge, r < made
  made_le : made ≤ p.pool.made

/-- Between two callbacks. -/
structure Between (made : Nat) (p : Purging) : Prop where
  clients : Clients p.pool.clients p.pool.created p.pool.readyClients p.pool.busyClients
    (p.client :: p.pool.deferredDelete) p.pool.connections
  requests : Requests (p.pool.pendingRequests ++ p.pendingRequestsToPurge)
    p.pool.pendingResource p.pool.made p.pool.outcomes
  noReady : p.pool.pendingRequests ++ p.pendingRequestsToPurge ≠ [] → p.pool.readyClients = []
  new : ∀ r ∈ p.pool.pendingRequests, made ≤ r
  old : ∀ r ∈ p.pendingRequestsToPurge, r < made
  made_le : made ≤ p.pool.made

/-- While a callback runs and after the handler. -/
structure Kept (made : Nat) (p : Purging) : Prop where
  runs : p.running = true → p.Inv made
  ended : p.running = false → p.pool.Inv

variable {made : Nat} {p p' : Purging}

theorem next_spec (h : p.Between made) : ∃ p', p.next = some p' ∧ p'.Kept made := by
  unfold next
  cases hpurge : p.pendingRequestsToPurge with
  | nil =>
    have hreq := h.requests
    have hready := h.noReady
    rw [hpurge, append_nil] at hreq hready
    have hlost : ConnPoolImpl.Lost p.client p.pool := ⟨h.clients, hreq, hready⟩
    obtain ⟨hinv, hbusy⟩ := ConnPoolImpl.replace_spec hlost
    obtain ⟨s, hs, hinv', hsame⟩ := ConnPoolImpl.checkForDrained_spec 1 hinv
    have hdrained : checkForDrained (depth - 2) (p.pool.replace p.client) = some s := hs
    simp only [hdrained, map_some]
    refine ⟨_, rfl, ?_, ?_⟩
    · intro hrun
      cases hrun
    · intro _
      exact ConnPoolImpl.inv_disableConnectTimer hinv' (hsame ▸ hbusy)
  | cons r rest =>
    have hreq := h.requests
    have hready := h.noReady
    have hold := h.old
    rw [hpurge] at hreq hready hold
    have hmem : r ∈ p.pool.pendingRequests ++ r :: rest := by simp
    have hnot : r ∉ p.pool.pendingRequests := by
      intro hp
      have hge := h.new r hp
      have hlt := hold r mem_cons_self
      omega
    have hsettle := hreq.settle hmem .onPoolFailure (fun hc => by cases hc)
    rw [erase_append_right _ hnot, erase_cons_head] at hsettle
    refine ⟨_, rfl, ?_, ?_⟩
    · intro _
      exact ⟨h.clients, hsettle, hreq.resource_pos hmem, hready (ne_nil_of_mem hmem), h.new,
        fun q hq => hold q (mem_cons_of_mem _ hq), h.made_le⟩
    · intro hrun
      cases hrun

theorem start_spec {id : Nat} (h : s.Inv) (hid : id ∈ s.busyClients)
    (event : ConnectionEvent) : ∃ p, start s id event = some p ∧ p.Kept s.made := by
  have hclosed : ((s.modify id (.disconnect event)).clients id).closed = true := by
    simp [ActiveClient.disconnect]
  have hclients := h.clients.lose_busy hid (ConnPoolImpl.modify_of_ne s id (.disconnect event))
    hclosed
  unfold start
  rw [ConnPoolImpl.removeFromList_of_mem hid, bind_some]
  apply next_spec
  refine ⟨hclients, ?_, ?_, ?_, h.requests.lt_made, Nat.le_refl _⟩
  · rw [nil_append]
    exact h.requests
  · rw [nil_append]
    intro hne
    exact (h.served hne).1
  · intro r hr
    cases hr

theorem inv_asks (h : p.Inv made) (canCreatePending canCreateConnection : Bool) :
    ∃ s, p.pool.asks canCreatePending canCreateConnection = some s ∧
      Inv made { p with pool := s } := by
  have hclients := h.clients
  rw [h.noReady] at hclients
  unfold ConnPoolImpl.asks ConnPoolImpl.newStream
  simp only [h.noReady]
  cases canCreatePending with
  | true =>
    have hwait := h.requests.wait
    have hone : p.pool.pendingResource - 1 + 1 = p.pool.pendingResource + 1 - 1 := by
      have := h.counted
      omega
    rw [hone] at hwait
    have hnew : ∀ r ∈ p.pool.made :: p.pool.pendingRequests, made ≤ r := by
      intro r hr
      rcases mem_cons.mp hr with rfl | hr
      · exact h.made_le
      · exact h.new r hr
    simp only [if_true, true_and]
    refine ⟨_, rfl, ?_⟩
    split
    · exact ⟨hclients.connect (ConnPoolImpl.busy_newClient p.pool), hwait, Nat.succ_ne_zero _, rfl,
        hnew, h.old, Nat.le_succ_of_le h.made_le⟩
    · exact ⟨hclients, hwait, Nat.succ_ne_zero _, rfl, hnew, h.old, Nat.le_succ_of_le h.made_le⟩
  | false =>
    exact ⟨_, rfl, hclients, h.requests.at_once .onPoolFailure (fun hc => by cases hc), h.counted,
      rfl, h.new, h.old, Nat.le_succ_of_le h.made_le⟩

theorem checkForDrained_noReady (n : Nat) (h : s.readyClients = []) :
    ∃ k, checkForDrained (n + 1) s = some { s with drained := k } := by
  unfold checkForDrained
  split
  · refine ⟨s.drained + 1, ?_⟩
    simp [h, ConnPoolImpl.iterate]
  · exact ⟨s.drained, rfl⟩

theorem inv_cancels (h : p.Inv made) {r : Nat} (hr : r ∈ p.pool.pendingRequests) :
    ∃ s, p.pool.cancels r = some s ∧ Inv made { p with pool := s } := by
  have hmem : r ∈ p.pool.pendingRequests ++ p.pendingRequestsToPurge := mem_append_left _ hr
  have hsettle := h.requests.settle hmem .cancel (fun hc => by cases hc)
  rw [erase_append_left _ hr] at hsettle
  have hpos := h.requests.resource_pos hmem
  obtain ⟨k, hk⟩ := checkForDrained_noReady 5 (s := { p.pool with
    pendingRequests := p.pool.pendingRequests.erase r
    pendingResource := p.pool.pendingResource - 1
    outcomes := p.pool.outcomes ++ [(r, .cancel)] }) h.noReady
  have hcancel : p.pool.cancels r = checkForDrained (5 + 1) { p.pool with
      pendingRequests := p.pool.pendingRequests.erase r
      pendingResource := p.pool.pendingResource - 1
      outcomes := p.pool.outcomes ++ [(r, .cancel)] } := by
    have hremove : removeFromList (p.pool.record r .cancel).pendingRequests r =
        some (p.pool.pendingRequests.erase r) := ConnPoolImpl.removeFromList_of_mem hr
    rw [ConnPoolImpl.cancels, ConnPoolImpl.onPendingRequestCancel, hremove, bind_some]
    simp only [ConnPoolImpl.record, ConnPoolImpl.decPending, h.counted, if_false, bind_some]
    rfl
  refine ⟨_, hcancel.trans hk, h.clients, hsettle, hpos, h.noReady, ?_, h.old, h.made_le⟩
  intro q hq
  exact h.new q (mem_of_mem_erase hq)

theorem step_spec (h : p.Kept made) {e : PurgeEvent} (he : p.Possible e)
    (hfinds : p.FindsRequest e) : ∃ p', p.step e = some p' ∧ p'.Kept made := by
  have hkeep : ∀ s, Inv made { p with pool := s } → p.running = true →
      Kept made { p with pool := s } := by
    intro s hinv hrun
    refine ⟨fun _ => hinv, ?_⟩
    intro hnot
    cases hrun.symm.trans hnot
  cases e with
  | newStream canCreatePending canCreateConnection =>
    obtain ⟨s, hs, hinv⟩ := inv_asks (h.runs he) canCreatePending canCreateConnection
    exact ⟨_, by rw [step, hs, map_some], hkeep s hinv he⟩
  | cancel r =>
    obtain ⟨s, hs, hinv⟩ := inv_cancels (h.runs he.1) hfinds
    exact ⟨_, by rw [step, hs, map_some], hkeep s hinv he.1⟩
  | callbackReturns =>
    have hinv := h.runs he
    have hdec : p.pool.decPending =
        some { p.pool with pendingResource := p.pool.pendingResource - 1 } := if_neg hinv.counted
    rw [step, hdec, bind_some]
    exact next_spec { hinv with noReady := fun _ => hinv.noReady }

/-- A cancellation finds its request exactly when that is new. -/
theorem findsRequest_iff (h : p.Kept made) {e : PurgeEvent} (he : p.Possible e) :
    p.FindsRequest e ↔ ∀ r, e = .cancel r → made ≤ r := by
  cases e with
  | newStream | callbackReturns => simp [FindsRequest]
  | cancel r =>
    have hinv := h.runs he.1
    constructor
    · rintro hmem q ⟨⟩
      exact hinv.new r hmem
    · intro hge
      rcases he.2 with hp | hq
      · exact hp
      · have hlt := hinv.old r hq
        have := hge r rfl
        omega

theorem run_spec {es : List PurgeEvent} (h : p.Kept made) (hes : AllMeet step Possible p es) :
    (AllMeet step FindsRequest p es ↔ ∀ r, .cancel r ∈ es → made ≤ r) ∧
      (AllMeet step FindsRequest p es → ∃ p', run step p es = some p' ∧ p'.Kept made) := by
  induction es generalizing p with
  | nil =>
    refine ⟨⟨?_, fun _ => trivial⟩, fun _ => ⟨p, rfl, h⟩⟩
    intro _ r hr
    cases hr
  | cons e es ih =>
    have hiff := findsRequest_iff h hes.1
    constructor
    · constructor
      · rintro ⟨hfinds, hrest⟩ r hr
        rcases mem_cons.mp hr with he | hr
        · exact hiff.mp hfinds r he.symm
        · obtain ⟨p₁, h₁, hkept⟩ := step_spec h hes.1 hfinds
          exact (ih hkept (hes.2 p₁ h₁)).1.mp (hrest p₁ h₁) r hr
      · intro hcond
        have hfinds : p.FindsRequest e := hiff.mpr fun r he => hcond r (he ▸ mem_cons_self)
        refine ⟨hfinds, ?_⟩
        intro p₁ h₁
        obtain ⟨p₂, h₂, hkept⟩ := step_spec h hes.1 hfinds
        obtain rfl : p₂ = p₁ := Option.some.inj (h₂.symm.trans h₁)
        exact (ih hkept (hes.2 p₂ h₁)).1.mpr fun r hr => hcond r (mem_cons_of_mem _ hr)
    · rintro ⟨hfinds, hrest⟩
      obtain ⟨p₁, h₁, hkept⟩ := step_spec h hes.1 hfinds
      obtain ⟨p', h', hkept'⟩ := (ih hkept (hes.2 p₁ h₁)).2 (hrest p₁ h₁)
      exact ⟨p', by rw [run, h₁, bind_some, h'], hkept'⟩

theorem stillWaiting_length (h : s.Inv) :
    s.pendingRequests.length = (stillWaiting s).length := by
  have hmem : ∀ r, r ∈ s.pendingRequests ↔ r ∈ stillWaiting s := by
    intro r
    have hcount := h.requests.count r
    simp only [stillWaiting, mem_filter, mem_range, List.isEmpty_iff]
    rw [← length_eq_zero_iff, hcount]
    constructor
    · intro hr
      exact ⟨h.requests.lt_made r hr, if_neg fun hn => hn.2 hr⟩
    · rintro ⟨hlt, hzero⟩
      by_contra hnot
      rw [if_pos ⟨hlt, hnot⟩] at hzero
      cases hzero
  have hnodup : (stillWaiting s).Nodup := nodup_range.filter _
  exact ((perm_ext_iff_of_nodup h.requests.nodup hnodup).mpr hmem).length_eq

theorem outcomes_le_one (h : p.Kept made) (r : Nat) :
    (outcomesOf p.pool.outcomes r).length ≤ 1 := by
  have hle : ∀ {waiting : List Nat} {n m : Nat}, Requests waiting n m p.pool.outcomes →
      (outcomesOf p.pool.outcomes r).length ≤ 1 := by
    intro waiting n m hreq
    rw [hreq.count r]
    split <;> omega
  cases hrun : p.running with
  | true => exact hle (h.runs hrun).requests
  | false => exact hle (h.ended hrun).requests

/-- From every state of the pool with a client that fails to connect, the callbacks keep the
pool sound exactly when they cancel no request that was pending before the failure. -/
theorem purge_sound_iff (h : s.Inv) (id : Nat) (hid : id < s.created)
    (hopen : (s.clients id).closed = false) (htimer : (s.clients id).connectTimer = true)
    (event : ConnectionEvent) : ∃ p, start s id event = some p ∧ ∀ es, AllMeet step Possible p es →
      (p.Sound es ↔ ∀ r, .cancel r ∈ es → s.made ≤ r) := by
  obtain ⟨p, hp, hkept⟩ := start_spec h (ConnPoolImpl.mem_busy_of_timer h hid hopen htimer) event
  refine ⟨p, hp, ?_⟩
  intro es hes
  obtain ⟨hiff, hrun⟩ := run_spec hkept hes
  constructor
  · rintro ⟨hfinds, -⟩
    exact hiff.mp hfinds
  · intro hcond
    have hfinds := hiff.mpr hcond
    obtain ⟨p', h', hkept'⟩ := hrun hfinds
    exact ⟨hfinds, p', h', outcomes_le_one hkept',
      fun hended => stillWaiting_length (hkept'.ended hended)⟩

/-- Two requests are pending when the connection fails. The callback of the second starts a
third one and cancels it. -/
theorem purge_sound_new :
    ∃ s p es, run ConnPoolImpl.step (.create 0) [.newStream true true, .newStream true false] =
        some s ∧ start s 0 .remoteClose = some p ∧ .cancel 2 ∈ es ∧
      AllMeet step Possible p es ∧ p.Sound es := by
  have hmeet : AllMeet ConnPoolImpl.step ConnPoolImpl.Possible (.create 0)
      [.newStream true true, .newStream true false] := by
    decide +kernel
  obtain ⟨s, hs, hinv⟩ := ConnPoolImpl.run_spec (ConnPoolImpl.inv_create 0) hmeet
  obtain rfl := Option.some.inj hs
  obtain ⟨p, hp, hiff⟩ := purge_sound_iff hinv 0 (by decide) rfl rfl .remoteClose
  have hes : AllMeet step Possible p [.newStream true true, .cancel 2, .callbackReturns,
      .callbackReturns] := by
    obtain rfl := Option.some.inj hp
    decide +kernel
  refine ⟨_, p, _, hs, hp, by decide, hes, (hiff _ hes).mpr ?_⟩
  intro r hr
  obtain rfl : r = 2 := by simpa using hr
  exact Nat.le_refl 2

/-- The callback of the second request cancels the first, which is still to be purged. -/
theorem purge_cancels_purged :
    ∃ s p es, run ConnPoolImpl.step (.create 0) [.newStream true true, .newStream true false] =
        some s ∧ start s 0 .remoteClose = some p ∧ AllMeet step Possible p es ∧ ¬ p.Sound es := by
  refine ⟨_, _, [.cancel 0], rfl, rfl, by decide, ?_⟩
  intro hsound
  have hmem : (0 : Nat) ∈ ([] : List Nat) := hsound.1.1
  cases hmem

end Purging

end Meliproxy.Envoy.Http.Http1
