import Meliproxy.Envoy.Http.Http1PoolLists

/-!
# Conservation of the HTTP/1 connection pool

What joins the requests and the clients is that a request waits only while every client is busy
and there is one.
-/

namespace Meliproxy.Envoy.Http.Http1

open Lib List Option

namespace ConnPoolImpl

structure Inv (s : ConnPoolImpl) : Prop where
  clients : Clients s.clients s.created s.readyClients s.busyClients s.deferredDelete s.connections
  requests : Requests s.pendingRequests s.pendingResource s.made s.outcomes
  served : s.pendingRequests ≠ [] → s.readyClients = [] ∧ s.busyClients ≠ []

variable {s s' : ConnPoolImpl} {id : Nat}

variable (n : Nat)

theorem inv_create : (create n).Inv := by
  refine ⟨?_, ?_, by simp [create]⟩
  · constructor <;> simp [create]
  · constructor <;> simp [create, outcomesOf, readied]

theorem busy_newClient (s : ConnPoolImpl) : s.newClient.Busy := by
  simp [newClient, ActiveClient.Busy]

@[simp] theorem modify_self (f : ActiveClient → ActiveClient) :
    (s.modify id f).clients id = f (s.clients id) := by
  simp [modify]

theorem modify_of_ne (s : ConnPoolImpl) (id : Nat) (f : ActiveClient → ActiveClient) (k : Nat)
    (h : k ≠ id) : (s.modify id f).clients k = s.clients k := by
  simp [modify, h]

theorem removeFromList_of_mem {list : List Nat} (h : id ∈ list) :
    removeFromList list id = some (list.erase id) := if_pos h

variable {l : List Nat}

theorem purge_spec (h : Requests l s.pendingResource s.made s.outcomes) :
    ∃ outcomes, purge l s = some { s with pendingResource := 0, outcomes := outcomes } ∧
      Requests [] 0 s.made outcomes := by
  induction l generalizing s with
  | nil =>
    have hzero : s.pendingResource = 0 := h.counted
    refine ⟨s.outcomes, ?_, hzero ▸ h⟩
    rw [purge, ← hzero]
  | cons r rest ih =>
    have hstep := h.settle mem_cons_self .onPoolFailure (fun hr => by cases hr)
    rw [erase_cons_head] at hstep
    have hne : s.pendingResource ≠ 0 := h.resource_pos mem_cons_self
    obtain ⟨outcomes, ho, hr⟩ := ih (s := { s with
      pendingResource := s.pendingResource - 1
      outcomes := s.outcomes ++ [(r, .onPoolFailure)] }) hstep
    refine ⟨outcomes, ?_, hr⟩
    rw [purge]
    simp only [failRequest, record, decPending, hne, if_false, bind_some]
    exact ho

/-- What `lose` leaves: the client is in no list any more. -/
structure Lost (id : Nat) (s : ConnPoolImpl) : Prop where
  clients : Clients s.clients s.created s.readyClients s.busyClients (id :: s.deferredDelete)
    s.connections
  requests : Requests s.pendingRequests s.pendingResource s.made s.outcomes
  busy : s.pendingRequests ≠ [] → s.readyClients = []

/-- The mark of a connection that is closed. -/
structure Closes (f : ActiveClient → ActiveClient) : Prop where
  closed : ∀ c, (f c).closed = true
  streamWrapper : ∀ c, (f c).streamWrapper = c.streamWrapper
  connectTimer : ∀ c, (f c).connectTimer = c.connectTimer

variable {f : ActiveClient → ActiveClient}

theorem lose_spec (h : s.Inv) (hid : id < s.created) (hopen : (s.clients id).closed = false)
    (hf : Closes f) : ∃ s' check, (s.modify id f).lose id = some (s', check) ∧ Lost id s' := by
  have hsame := modify_of_ne s id f
  have hclosed : ((s.modify id f).clients id).closed = true := by
    rw [modify_self, hf.closed]
  unfold lose
  simp only [modify_self, hf.streamWrapper, hf.connectTimer]
  rcases h.clients.listed id hid hopen with hr | hb
  · obtain ⟨-, hw, ht⟩ := h.clients.ready_idle id hr
    have hpending : s.pendingRequests = [] := by
      by_contra hne
      rw [(h.served hne).1] at hr
      cases hr
    simp only [hw, ht, isSome_none, Bool.false_eq_true, if_false, if_true]
    refine ⟨{ s.modify id f with readyClients := s.readyClients.erase id }, false, ?_,
      h.clients.lose_ready hr hsame hclosed, h.requests, ?_⟩
    · exact congrArg (Option.map _) (removeFromList_of_mem hr)
    · intro hne
      exact absurd hpending hne
  · obtain ⟨-, hiff⟩ := h.clients.busy_busy id hb
    cases hw : (s.clients id).streamWrapper with
    | some w =>
      simp only [isSome_some, if_true]
      refine ⟨{ s.modify id f with busyClients := s.busyClients.erase id }, true, ?_,
        h.clients.lose_busy hb hsame hclosed, h.requests, ?_⟩
      · exact congrArg (Option.map _) (removeFromList_of_mem hb)
      · intro hne
        exact (h.served hne).1
    | none =>
      have ht : (s.clients id).connectTimer ≠ false := by
        intro ht
        have := hiff.mpr ht
        rw [hw] at this
        cases this
      simp only [isSome_none, Bool.false_eq_true, if_false, if_neg ht]
      obtain ⟨outcomes, hp, hreq⟩ := purge_spec (s := { s.modify id f with
        busyClients := s.busyClients.erase id
        pendingRequests := [] }) h.requests
      refine ⟨{ s.modify id f with
        busyClients := s.busyClients.erase id
        pendingRequests := []
        pendingResource := 0
        outcomes := outcomes }, true, ?_, h.clients.lose_busy hb hsame hclosed, hreq, ?_⟩
      · refine (congrArg (Option.bind · _) (removeFromList_of_mem hb)).trans ?_
        exact congrArg (Option.map _) hp
      · intro hne
        exact absurd rfl hne

theorem inv_createNewConnection (hc : Clients s.clients s.created s.readyClients s.busyClients
      s.deferredDelete s.connections)
    (hr : Requests s.pendingRequests s.pendingResource s.made s.outcomes)
    (hready : s.pendingRequests ≠ [] → s.readyClients = []) : s.createNewConnection.Inv := by
  refine ⟨hc.connect (busy_newClient s), hr, ?_⟩
  intro hne
  exact ⟨hready hne, cons_ne_nil _ _⟩

theorem replace_spec (h : Lost id s) : (s.replace id).Inv ∧ id ∉ (s.replace id).busyClients := by
  have hid : id ∉ s.busyClients := by
    intro hb
    exact (h.clients.busy_disjoint hb).2 mem_cons_self
  have hlt : id < s.created := h.clients.lt_created id (by simp)
  unfold replace
  simp only
  split
  · refine ⟨inv_createNewConnection h.clients h.requests h.busy, ?_⟩
    simp only [createNewConnection, mem_cons, hid, or_false]
    omega
  · rename_i hlen
    refine ⟨⟨h.clients, h.requests, ?_⟩, hid⟩
    intro hne
    refine ⟨h.busy hne, ?_⟩
    intro hbusy
    have hpos := length_pos_of_ne_nil hne
    rw [h.busy hne, hbusy] at hlen
    simp only [length_nil] at hlen hpos
    omega

theorem inv_disableConnectTimer (h : s.Inv) (hid : id ∉ s.busyClients) :
    (s.disableConnectTimer id).Inv := by
  refine ⟨?_, h.requests, h.served⟩
  refine h.clients.move id (List.Perm.refl _) (modify_of_ne s id _)
    (fun _ _ => ⟨Iff.rfl, Iff.rfl, Iff.rfl⟩) ?_ ?_ ?_ ?_
  · intro hr
    obtain ⟨hc, hw, -⟩ := h.clients.ready_idle id hr
    simp [disableConnectTimer, ActiveClient.stopConnectTimer, ActiveClient.Idle, hc, hw]
  · intro hb
    exact absurd hb hid
  · intro hd
    have hc := h.clients.deferred_closed id hd
    simp [disableConnectTimer, ActiveClient.stopConnectTimer, hc]
  · intro hlt hopen
    simp only [disableConnectTimer, modify_self, ActiveClient.stopConnectTimer] at hopen
    exact h.clients.listed id hlt hopen

theorem close_ready (h : s.Inv) {rest : List Nat} (hr : s.readyClients = id :: rest)
    (hp : s.pendingRequests = []) :
    ∃ s', close (n + 2) s id .localClose = some s' ∧ s'.Inv ∧ s'.readyClients = rest ∧
      s'.busyClients = s.busyClients ∧ s'.pendingRequests = [] := by
  have hmem : id ∈ s.readyClients := by simp [hr]
  obtain ⟨hopen, hw, ht⟩ := h.clients.ready_idle id hmem
  have hbusy := (h.clients.ready_disjoint hmem).1
  have hlost := h.clients.lose_ready hmem (modify_of_ne s id (.disconnect .localClose))
    (by simp [ActiveClient.disconnect])
  rw [hr, erase_cons_head] at hlost
  refine ⟨disableConnectTimer { s.modify id (.disconnect .localClose) with
    readyClients := rest
    deferredDelete := id :: s.deferredDelete } id, ?_, ?_, rfl, rfl, hp⟩
  · simp only [close, hopen, Bool.false_eq_true, if_false, modify_self, ActiveClient.disconnect, hw,
      isSome_none, bind_some, onDisconnect, lose, ht, if_true]
    have hremove : removeFromList (s.modify id (.disconnect .localClose)).readyClients id =
        some rest := by
      rw [← erase_cons_head (a := id) (l := rest), ← hr]
      exact removeFromList_of_mem hmem
    rw [hremove]
    simp [replace, modify, hp]
  · apply inv_disableConnectTimer
    · refine ⟨hlost, h.requests, ?_⟩
      intro hne
      exact absurd hp hne
    · exact hbusy

theorem iterate_close (n k : Nat) (h : s.Inv) (hk : s.readyClients.length = k)
    (hp : s.pendingRequests = []) :
    ∃ s', iterate (fun s => close (n + 2) s (s.readyClients.headD 0) .localClose) k s = some s' ∧
      s'.Inv ∧ s'.busyClients = s.busyClients := by
  induction k generalizing s with
  | zero => exact ⟨s, rfl, h, rfl⟩
  | succ k ih =>
    cases hr : s.readyClients with
    | nil =>
      rw [hr] at hk
      cases hk
    | cons id rest =>
      obtain ⟨s₁, h₁, hinv, hrest, hbusy, hp₁⟩ := close_ready n h hr hp
      have hk₁ : s₁.readyClients.length = k := by
        rw [hr, length_cons] at hk
        rw [hrest]
        omega
      obtain ⟨s', h', hinv', hbusy'⟩ := ih hinv hk₁ hp₁
      refine ⟨s', ?_, hinv', hbusy'.trans hbusy⟩
      rw [iterate, hr, headD_cons, h₁, bind_some, h']

theorem checkForDrained_spec (h : s.Inv) :
    ∃ s', checkForDrained (n + 3) s = some s' ∧ s'.Inv ∧ s'.busyClients = s.busyClients := by
  unfold checkForDrained
  split
  · rename_i hdrained
    obtain ⟨s₁, h₁, hinv, hbusy⟩ := iterate_close n _ h rfl hdrained.2.1
    rw [h₁]
    exact ⟨_, rfl, { hinv with }, hbusy⟩
  · exact ⟨s, rfl, h, rfl⟩

theorem close_again (event : ConnectionEvent) :
    close (n + 1) (s.modify id (.disconnect event)) id .localClose =
      some (s.modify id (.disconnect event)) := by
  rw [close, if_pos]
  simp [ActiveClient.disconnect]

theorem close_spec (h : s.Inv) (hid : id < s.created)
    (hopen : (s.clients id).closed = false) (event : ConnectionEvent) :
    ∃ s', close (n + 5) s id event = some s' ∧ s'.Inv := by
  obtain ⟨s₁, check, h₁, hlost⟩ := lose_spec h hid hopen (f := .disconnect event)
    ⟨fun _ => rfl, fun _ => rfl, fun _ => rfl⟩
  obtain ⟨hinv, hbusy⟩ := replace_spec hlost
  have hclose : close (n + 5) s id event =
      (if check then checkForDrained (n + 3) (s₁.replace id)
        else some (s₁.replace id)).map fun s => s.disableConnectTimer id := by
    rw [close, if_neg (by simp [hopen])]
    simp only [close_again, ite_self, bind_some]
    rw [onDisconnect, h₁, bind_some]
  rw [hclose]
  cases check with
  | true =>
    obtain ⟨s', h', hinv', hsame⟩ := checkForDrained_spec n hinv
    simp only [if_true, h', map_some]
    exact ⟨_, rfl, inv_disableConnectTimer hinv' (hsame ▸ hbusy)⟩
  | false =>
    simp only [Bool.false_eq_true, if_false, map_some]
    exact ⟨_, rfl, inv_disableConnectTimer hinv hbusy⟩

theorem erase_getLast {r : Nat} (hnodup : l.Nodup) (hlast : l.getLast? = some r) :
    l.erase r = l.dropLast := by
  obtain ⟨front, rfl⟩ := getLast?_eq_some_iff.mp hlast
  have hnot : r ∉ front := by
    intro hmem
    exact (List.nodup_append.mp hnodup).2.2 r hmem r (mem_singleton.mpr rfl) rfl
  rw [erase_append_right _ hnot, erase_cons_head, append_nil, dropLast_concat]

theorem getLast_le {r : Nat} (h : l.Pairwise (· > ·)) (hlast : l.getLast? = some r) :
    ∀ b ∈ l, r ≤ b := by
  obtain ⟨front, rfl⟩ := getLast?_eq_some_iff.mp hlast
  intro b hb
  rcases mem_append.mp hb with hb | hb
  · exact Nat.le_of_lt ((pairwise_append.mp h).2.2 b hb r (mem_singleton.mpr rfl))
  · exact Nat.le_of_eq (mem_singleton.mp hb).symm

theorem serve_spec (h : s.Inv) (hid : id ∈ s.busyClients)
    (hclosed : (f (s.clients id)).closed = false) (htimer : (f (s.clients id)).connectTimer = false)
    : ∃ s', ((s.modify id f).modify id .release).serve id = some s' ∧ s'.Inv := by
  have hsame : ∀ k, k ≠ id → ((s.modify id f).modify id .release).clients k = s.clients k := by
    intro k hk
    rw [modify_of_ne _ _ _ k hk, modify_of_ne _ _ _ k hk]
  have hclient : ((s.modify id f).modify id .release).clients id = (f (s.clients id)).release := by
    simp
  unfold serve
  cases hlast : s.pendingRequests.getLast? with
  | none =>
    have hp : s.pendingRequests = [] := getLast?_eq_none_iff.mp hlast
    have hmap : removeFromList ((s.modify id f).modify id .release).busyClients id =
        some (s.busyClients.erase id) := removeFromList_of_mem hid
    have hidle : (((s.modify id f).modify id .release).clients id).Idle := by
      rw [hclient]
      exact ⟨hclosed, rfl, htimer⟩
    simp only [show ((s.modify id f).modify id .release).pendingRequests.getLast? = none from hlast,
      hmap, map_some]
    exact ⟨_, rfl, h.clients.busy_to_ready hid hsame hidle, h.requests, fun hne => absurd hp hne⟩
  | some r =>
    have hmem : r ∈ s.pendingRequests := mem_of_getLast? hlast
    have hreq := h.requests.settle hmem .onPoolReady
      (fun _ => getLast_le h.requests.newest_first hlast)
    rw [erase_getLast h.requests.nodup hlast] at hreq
    have hne : (((s.modify id f).modify id .release).modify id .attach).pendingResource ≠ 0 :=
      h.requests.resource_pos hmem
    have hsame' : ∀ k, k ≠ id →
        (((s.modify id f).modify id .release).modify id .attach).clients k = s.clients k := by
      intro k hk
      rw [modify_of_ne _ _ _ k hk, hsame k hk]
    have hbusy : ((((s.modify id f).modify id .release).modify id .attach).clients id).Busy := by
      rw [modify_self, hclient]
      exact ⟨hclosed, by simp [ActiveClient.attach, ActiveClient.release, htimer]⟩
    simp only [show ((s.modify id f).modify id .release).pendingRequests.getLast? = some r from
      hlast, attachRequestToClient, hclient, ActiveClient.release, isSome_none,
      Bool.false_eq_true, if_false, bind_some, record, decPending]
    rw [if_neg hne]
    refine ⟨_, rfl, h.clients.keep_busy hid hsame' hbusy, hreq, ?_⟩
    intro _
    exact h.served (ne_nil_of_mem hmem)

theorem processIdleClient_spec (h : s.Inv) (hid : id ∈ s.busyClients)
    (hclosed : (f (s.clients id)).closed = false) (htimer : (f (s.clients id)).connectTimer = false)
    : ∃ s', (s.modify id f).processIdleClient (n + 3) id = some s' ∧ s'.Inv := by
  obtain ⟨s₁, h₁, hinv⟩ := serve_spec h hid hclosed htimer
  obtain ⟨s', h', hinv', -⟩ := checkForDrained_spec n hinv
  exact ⟨s', by rw [processIdleClient, h₁, bind_some, h'], hinv'⟩

theorem asks_spec (h : s.Inv) (canCreatePending canCreateConnection : Bool) :
    ∃ s', s.asks canCreatePending canCreateConnection = some s' ∧ s'.Inv := by
  have hclients := h.clients
  have hserved := h.served
  unfold asks newStream
  dsimp only
  cases hready : s.readyClients with
  | cons id rest =>
    rw [hready] at hclients
    obtain ⟨hclosed, hwrapper, htimer⟩ := hclients.ready_idle id mem_cons_self
    have hp : s.pendingRequests = [] := by
      by_contra hne
      exact absurd (hready.symm.trans (h.served hne).1) (cons_ne_nil _ _)
    have hbusy : ((s.modify id .attach).clients id).Busy := by
      simp [ActiveClient.attach, ActiveClient.Busy, hclosed, htimer]
    simp only [attachRequestToClient, hwrapper, isSome_none, Bool.false_eq_true, if_false]
    exact ⟨_, rfl, hclients.ready_to_busy (modify_of_ne s id _) hbusy,
      h.requests.at_once .onPoolReady fun _ => hp, fun hne => absurd hp hne⟩
  | nil =>
    rw [hready] at hclients hserved
    cases canCreatePending with
    | true =>
      simp only [if_true, true_and]
      refine ⟨_, rfl, ?_⟩
      split
      · exact ⟨hclients.connect (busy_newClient s), h.requests.wait,
          fun _ => ⟨rfl, cons_ne_nil _ _⟩⟩
      · rename_i hnot
        exact ⟨hclients, h.requests.wait, fun _ => ⟨rfl, fun hb => hnot (.inl hb)⟩⟩
    | false =>
      exact ⟨_, rfl, hclients, h.requests.at_once .onPoolFailure (fun hr => by cases hr), hserved⟩

theorem inv_useRequest (h : s.Inv) (hb : id ∈ s.busyClients) : (s.modify id .useRequest).Inv := by
  refine ⟨h.clients.keep_busy hb (modify_of_ne s id _) ?_, h.requests, h.served⟩
  rw [modify_self]
  exact h.clients.busy_busy id hb

theorem cancels_spec (h : s.Inv) {request : Nat} (hr : request ∈ s.pendingRequests) :
    ∃ s', s.cancels request = some s' ∧ s'.Inv := by
  have hreq := h.requests.settle hr .cancel (fun hc => by cases hc)
  have hne : s.pendingResource ≠ 0 := h.requests.resource_pos hr
  obtain ⟨s', h', hinv, -⟩ := checkForDrained_spec 3 (s := { s with
    pendingRequests := s.pendingRequests.erase request
    pendingResource := s.pendingResource - 1
    outcomes := s.outcomes ++ [(request, .cancel)] })
    ⟨h.clients, hreq, fun _ => h.served (ne_nil_of_mem hr)⟩
  refine ⟨s', ?_, hinv⟩
  have hremove : removeFromList (s.record request .cancel).pendingRequests request =
      some (s.pendingRequests.erase request) := removeFromList_of_mem hr
  rw [cancels, onPendingRequestCancel, hremove, bind_some]
  simp only [record, decPending, hne, if_false, bind_some]
  exact h'

section

variable (h : s.Inv) (hid : id < s.created) (hopen : (s.clients id).closed = false)

include h hid hopen

theorem mem_busy_of_wrapper (hw : (s.clients id).streamWrapper.isSome = true) :
    id ∈ s.busyClients ∧ (s.clients id).connectTimer = false := by
  rcases h.clients.listed id hid hopen with hr | hb
  · rw [(h.clients.ready_idle id hr).2.1] at hw
    cases hw
  · exact ⟨hb, (h.clients.busy_busy id hb).2.mp hw⟩

theorem mem_busy_of_timer (ht : (s.clients id).connectTimer = true) : id ∈ s.busyClients := by
  rcases h.clients.listed id hid hopen with hr | hb
  · rw [(h.clients.ready_idle id hr).2.2] at ht
    cases ht
  · exact hb

theorem onResponseComplete_spec (hw : (s.clients id).streamWrapper.isSome = true) :
    ∃ s', s.onResponseComplete (n + 5) id = some s' ∧ s'.Inv := by
  obtain ⟨hb, ht⟩ := mem_busy_of_wrapper h hid hopen hw
  have hreset : ∃ s', s.onDownstreamReset (n + 5) id = some s' ∧ s'.Inv :=
    close_spec n h hid hopen .localClose
  obtain ⟨w, hw⟩ := isSome_iff_exists.mp hw
  unfold onResponseComplete
  simp only [hw]
  split
  · exact hreset
  · split
    · exact hreset
    · split
      · have hopen' : ((s.modify id .useRequest).clients id).closed = false := by
          rw [modify_self]
          exact hopen
        exact close_spec n (inv_useRequest h hb) hid hopen' .localClose
      · exact processIdleClient_spec (n + 2) h hb hopen ht

theorem inv_wrapper (hw : (s.clients id).streamWrapper.isSome = true) (f : StreamWrapper → StreamWrapper) :
    (s.modify id fun c => { c with streamWrapper := c.streamWrapper.map f }).Inv := by
  obtain ⟨hb, -⟩ := mem_busy_of_wrapper h hid hopen hw
  refine ⟨h.clients.keep_busy hb (modify_of_ne s id _) ?_, h.requests, h.served⟩
  rw [modify_self]
  obtain ⟨hc, hiff⟩ := h.clients.busy_busy id hb
  exact ⟨hc, by simpa using hiff⟩

end

theorem step_spec (h : s.Inv) {e : PoolEvent} (he : s.Possible e) :
    ∃ s', s.step e = some s' ∧ s'.Inv := by
  cases e with
  | newStream canCreatePending canCreateConnection =>
    exact asks_spec h canCreatePending canCreateConnection
  | cancel request => exact cancels_spec h he
  | connected id =>
    exact processIdleClient_spec 3 h (mem_busy_of_timer h he.1 he.2.1 he.2.2) he.2.1 rfl
  | connectTimeout id => exact close_spec 1 h he.1 he.2.1 .localClose
  | close id event => exact close_spec 1 h he.1 he.2.1 event
  | encodeComplete | closeHeader => exact ⟨_, rfl, inv_wrapper h he.1 he.2.1 he.2.2 _⟩
  | responseComplete id => exact onResponseComplete_spec 1 h he.1 he.2.1 he.2.2
  | streamReset id => exact close_spec 1 h he.1 he.2.1 .localClose
  | addDrainedCallback =>
    obtain ⟨s', h', hinv, -⟩ := checkForDrained_spec 3
      (s := { s with drainedCallbacks := s.drainedCallbacks + 1 })
      { h with }
    exact ⟨s', h', hinv⟩
  | clearDeferredDeleteList => exact ⟨_, rfl, h.clients.clear, h.requests, h.served⟩

theorem run_spec {es : List PoolEvent} (h : s.Inv) (hes : AllMeet step Possible s es) :
    ∃ s', run step s es = some s' ∧ s'.Inv := run_safe (fun _ _ h he => step_spec h he) h hes

end ConnPoolImpl

end Meliproxy.Envoy.Http.Http1
