import Meliproxy.Envoy.Http.Http1ServerPhases

/-!
# The filters of an HTTP/1 connection

The steps of the filters, the timers and the network between the callbacks of the parser. They leave
the wire as it is.
-/

namespace Meliproxy.Envoy.Http.Http1.ServerConnectionImpl

open Lib Network ConnectionManagerImpl Option

variable {p : RequestParser} {At : p.State → RequestPos → Prop} {config : DrainConfig}
  {rs done : List Request} {pos : RequestPos} {s s' : ServerConnectionImpl p}
  {stream stream' : ActiveStream} {a : Answers} {t : ConnectionManagerImpl}

def withManager (s : ServerConnectionImpl p) (t : ConnectionManagerImpl) : ServerConnectionImpl p :=
  { s with
    manager := t
    connection := if t.isOpen then s.connection else s.connection.stopReading }

theorem manage_withManager {e : ConnEvent} (h : s.manager.step config e = some t) :
    s.manage config e = some (s.withManager t) := manage_eq h

theorem sameWire_withManager (s : ServerConnectionImpl p) (t : ConnectionManagerImpl) :
    SameWire s (s.withManager t) := by
  refine ⟨rfl, rfl, rfl, ?_, rfl, rfl⟩
  rw [withManager]
  split <;> rfl

theorem withManager_connection (h : t.isOpen = true) : (s.withManager t).connection = s.connection := by
  rw [withManager, h, if_pos rfl]

theorem Live.of_same (h : Live At config rs s done pos) (hsame : SameWire s s')
    (hinv : Inv config s'.manager) (hdispatching : s'.manager.dispatching = s.manager.dispatching)
    (hphase : Phase s' done pos) : Live At config rs s' done pos where
  manager := hinv
  dispatching := by
    rw [hdispatching, hsame.dispatch]
    exact h.dispatching
  reading := h.reading.of_same hsame
  log := h.log.of_same hsame
  phase := hphase

theorem Phase.find (h : Phase s done pos) {id : Nat} (hfind : s.manager.find id = some stream) :
    stream.id = id ∧ Active s done pos stream := by
  cases h with
  | idle h =>
    rw [ConnectionManagerImpl.find, h.streams] at hfind
    cases hfind
  | active stream₀ h =>
    obtain ⟨rfl, rfl⟩ := find_single h.streams hfind
    exact ⟨rfl, h⟩
  | closed h =>
    rw [ConnectionManagerImpl.find, h.streams] at hfind
    cases hfind

theorem Phase.wants (h : Phase s done pos) :
    ∀ stream ∈ s.manager.streams, stream.wantsClose = false := by
  intro stream hmem
  cases h with
  | idle h =>
    rw [h.streams] at hmem
    cases hmem
  | active stream₀ h =>
    rw [h.streams, List.mem_singleton] at hmem
    rw [hmem]
    exact h.wants
  | closed h =>
    rw [h.streams] at hmem
    cases hmem

theorem Active.withManager (h : Active s done pos stream) (hopen : t.isOpen = s.manager.isOpen)
    (hstreams : t.streams = [stream']) (hid : stream'.id = stream.id)
    (hremote : stream'.remoteComplete = stream.remoteComplete)
    (hrequest : stream'.requestHeaders = stream.requestHeaders) :
    Active (s.withManager t) done pos stream' := by
  have hconnection := withManager_connection (s := s) (hopen.trans h.isOpen)
  refine ⟨hopen.trans h.isOpen, hstreams, ?_, h.reset, ?_, ?_, ?_, ?_, ?_, ?_, ?_⟩
  · rw [hid, hremote]
    exact h.request
  · rw [hremote]
    exact h.begun
  · rw [hid]
    exact h.id
  · rw [ActiveStream.wantsClose, hrequest]
    exact h.wants
  · rw [hrequest]
    exact h.given
  · rw [hconnection, hremote]
    exact h.disables
  · rw [hconnection, hremote]
    exact h.quiet
  · rw [hremote]
    exact h.paused

theorem resumeReads_open (hopen : s.manager.isOpen = true) (hdrain : s.manager.drainState ≠ .closing) :
    ∃ c, s.resumeReads = some { s with connection := c } ∧ c.disables = 0 ∧
      c.readBuffer = s.connection.readBuffer ∧
      (0 < s.connection.disables → 0 < s.connection.length → c.readActivated = true) := by
  rw [resumeReads, decide_eq_false hdrain, Bool.false_or]
  split
  · rename_i henabled
    have hzero := ConnectionImpl.disables_eq_zero.mpr henabled
    exact ⟨s.connection, rfl, hzero, rfl, fun hpos => by omega⟩
  · obtain ⟨c, hc, hrest⟩ := ConnectionImpl.resumeReads_disables (le_refl s.connection.disables)
    exact ⟨c, by rw [hc, map_some], hrest⟩

section

variable (h : Live At config rs s done pos)
include h

theorem Live.endStream (hactive : Active s done pos stream)
    (hinv : Inv config t) (hended : StreamEnded stream s.manager t) (request : Option ActiveRequest)
    (hrequest : request.isSome = (!stream.remoteComplete || !stream.localComplete)) :
    ∃ s', { s.withManager t with activeRequest := request }.endStream stream = some s' ∧
      Live At config rs s' done pos := by
  have hsame := sameWire_withManager s t
  rcases hended.outcome with ⟨hclosed, hdrain⟩ | ⟨hopen, hdrain, hcomplete⟩
  · -- The connection is closed, and reads stay as they are.
    have hresume : ∀ s₁ : ServerConnectionImpl p, s₁.manager = t → s₁.resumeReads = some s₁ := by
      intro s₁ hs₁
      rw [resumeReads, hs₁, hdrain, decide_eq_true rfl, Bool.true_or, if_pos rfl]
    have hphase : ∀ s₁ : ServerConnectionImpl p, s₁.manager = t → s₁.dispatch = s.dispatch →
        s₁.activeRequest = none → s₁.deferredEndStreamHeaders = s.deferredEndStreamHeaders →
        Phase s₁ done pos := by
      intro s₁ hmanager hdispatch hnone hdeferred
      refine .closed ⟨hmanager ▸ hclosed, hmanager ▸ hended.streams, fun _ => hnone, ?_, ?_⟩
      · intro d hd hpaused
        rw [hdispatch] at hd
        rw [hactive.begun, ← hactive.paused d hd, hpaused]
        rfl
      · intro hpos
        rw [hdeferred]
        exact hactive.given.deferred_none hpos
    rw [ServerConnectionImpl.endStream, ← hrequest]
    cases request with
    | none =>
      rw [isSome_none, if_neg (by simp), bind_some, hresume _ rfl]
      exact ⟨_, rfl, h.of_same ⟨hsame.1, hsame.2, hsame.3, hsame.4, hsame.5, hsame.6⟩ hinv
        hended.dispatching (hphase _ rfl rfl rfl rfl)⟩
    | some request =>
      have hreset : (s.withManager t).resetStreamCalled = false := hactive.reset
      rw [isSome_some, if_pos rfl, onResetStream, hreset, isNone_some, Bool.or_self,
        if_neg (by simp), bind_some, hresume _ rfl]
      exact ⟨_, rfl, h.of_same ⟨hsame.1, hsame.2, hsame.3, hsame.4, hsame.5, hsame.6⟩ hinv
        hended.dispatching (hphase _ rfl rfl rfl rfl)⟩
  · -- The request is complete, and the connection stays open.
    rw [hcomplete, isSome_eq_false_iff, isNone_iff_eq_none] at hrequest
    subst hrequest
    have hremote : stream.remoteComplete = true := by
      rw [Bool.or_eq_false_iff, Bool.not_eq_false'] at hcomplete
      exact hcomplete.1
    have hopen' := hopen.trans hactive.isOpen
    have hconnection := withManager_connection (s := s) hopen'
    have hbetween : pos.begun = 0 := by rw [hactive.begun, hremote, if_pos rfl]
    obtain ⟨c, hc, hzero, hbuffer, hfaked⟩ := resumeReads_open (s := { s.withManager t with
      activeRequest := none
      flowDisables := 0 }) hopen' hdrain
    rw [hconnection] at hbuffer hfaked
    have hwire : SameWire s { s.withManager t with
        activeRequest := none
        flowDisables := 0
        connection := c } := ⟨rfl, rfl, rfl, hbuffer, rfl, rfl⟩
    refine ⟨_, ?_, h.of_same hwire hinv hended.dispatching (.idle ?_)⟩
    · rw [ServerConnectionImpl.endStream, hcomplete, if_neg (by simp), bind_some]
      exact hc
    · have hgiven := hactive.given
      cases pos with
      | between rest =>
        refine ⟨hopen', hended.streams, rfl, hactive.reset, rfl, hgiven.1, hgiven.2, hzero, rfl,
          ?_⟩
        intro hdispatch hlength
        have hdispatch : s.dispatch = none := hdispatch
        refine hfaked ?_ ?_
        · rw [hactive.disables, hremote, hdispatch, isNone_none, Bool.and_self, if_pos rfl]
          omega
        · rwa [ConnectionImpl.length, ← hbuffer]
      | head | body => cases hbetween

theorem Live.encode (hactive : Active s done pos stream)
    {e : ConnEvent} {endStream : Bool} (hpossible : s.manager.Possible config e)
    (hreset : ∀ id, e ≠ .onResetStream id)
    (hencoded : ∀ t, s.manager.step config e = some t → Encoded stream endStream s.manager t)
    (hlocal : endStream = true → stream.localComplete = true) :
    ∃ s', s.encode config stream e endStream = some s' ∧ Live At config rs s' done pos := by
  obtain ⟨t, ht, hinv⟩ := manage_inv h.manager hpossible h.phase.wants hreset
  have hencoded := hencoded t ht
  rw [ServerConnectionImpl.encode, manage_withManager ht, bind_some]
  cases endStream with
  | false =>
    obtain ⟨responded, hstreams, hopen, hdispatching⟩ := hencoded
    refine ⟨_, rfl, h.of_same (sameWire_withManager s t) hinv hdispatching
      (.active { stream with responded := responded } ?_)⟩
    exact hactive.withManager hopen hstreams rfl rfl rfl
  | true =>
    have hrequest : (s.withManager t).activeRequest = some ⟨stream.id, stream.remoteComplete⟩ :=
      hactive.request
    rw [if_pos rfl, onEncodeComplete, hrequest, map_some, bind_some]
    cases hremote : stream.remoteComplete with
    | true =>
      rw [if_pos rfl]
      exact h.endStream hactive hinv hencoded none (by simp [hremote, hlocal rfl])
    | false =>
      rw [if_neg (by simp)]
      obtain ⟨s', hs', hlive⟩ := h.endStream hactive hinv hencoded
        (some ⟨stream.id, stream.remoteComplete⟩) (by simp [hremote])
      rw [← hrequest] at hs'
      exact ⟨s', hs', hlive⟩

theorem Live.commonEncodePrefix {id : Nat}
    (hpossible : s.manager.Possible config (.commonEncodePrefix id)) :
    ∃ s', s.manage config (.commonEncodePrefix id) = some s' ∧ Live At config rs s' done pos := by
  obtain ⟨stream, hfind, -, -⟩ := find_any hpossible
  obtain ⟨rfl, hactive⟩ := h.phase.find hfind
  obtain ⟨t, ht, hinv⟩ := manage_inv h.manager hpossible h.phase.wants nofun
  refine ⟨_, manage_withManager ht, h.of_same (sameWire_withManager s t) hinv ?_
    (.active { stream with localComplete := true } ?_)⟩
  · rw [ConnectionManagerImpl.step, some_inj] at ht
    rw [ServerConnectionImpl.withManager, ← ht]
    rfl
  · rw [ConnectionManagerImpl.step, some_inj] at ht
    subst ht
    exact hactive.withManager rfl (update_single hactive.streams _) rfl rfl rfl

theorem Live.closesOrKeeps (hquiet : s.dispatch = none)
    {e : ConnEvent} (hpossible : s.manager.Possible config e) (hreset : ∀ id, e ≠ .onResetStream id)
    (hstep : ∀ t, s.manager.step config e = some t →
      ClosesOrKeeps s.manager t ∧ t.dispatching = s.manager.dispatching) :
    ∃ s', s.manage config e = some s' ∧ Live At config rs s' done pos := by
  obtain ⟨t, ht, hinv⟩ := manage_inv h.manager hpossible h.phase.wants hreset
  obtain ⟨houtcome, hdispatching⟩ := hstep t ht
  refine ⟨_, manage_withManager ht, h.of_same (sameWire_withManager s t) hinv hdispatching ?_⟩
  have hclosed : t.isOpen = false → t.streams = [] → Phase (s.withManager t) done pos := by
    intro hopen hstreams
    have hdispatch : (s.withManager t).dispatch = none := hquiet
    exact .closed ⟨hopen, hstreams, by simp [hdispatch], by simp [hdispatch],
      h.phase.deferred_none⟩
  rcases houtcome with ⟨hopen, hstreams⟩ | ⟨hopen, hstreams⟩
  · exact hclosed hopen hstreams
  · cases h.phase with
    | idle hidle =>
      have hopen' := hopen.trans hidle.isOpen
      have hconnection := withManager_connection (s := s) hopen'
      refine .idle { hidle with
          isOpen := hopen', streams := hstreams.trans hidle.streams, disables := ?_, pending := ?_ }
      · rw [hconnection]
        exact hidle.disables
      · rw [hconnection]
        exact hidle.pending
    | active stream hactive =>
      exact .active stream (hactive.withManager hopen (hstreams.trans hactive.streams) rfl rfl rfl)
    | closed hphase =>
      exact hclosed (hopen.trans hphase.isOpen) (hstreams.trans hphase.streams)

theorem Live.readDisable (hactive : Active s done pos stream)
    {disable : Bool} (hbalance : disable = false → 0 < s.flowDisables) :
    ∃ s', (s.readDisable disable).map (fun s => { s with
        flowDisables := if disable then s.flowDisables + 1 else s.flowDisables - 1 }) = some s' ∧
      Live At config rs s' done pos := by
  have hkeep : ∀ (c : ConnectionImpl) (n : Nat), c.readBuffer = s.connection.readBuffer →
      c.disables + s.flowDisables = s.connection.disables + n →
      Live At config rs { s with
        connection := c
        flowDisables := n } done pos := by
    intro c n hbuffer hcount
    refine h.of_same ⟨rfl, rfl, rfl, hbuffer, rfl, rfl⟩ h.manager rfl (.active stream ?_)
    refine { hactive with disables := ?_, quiet := ?_ }
    · have hdisables := hactive.disables
      dsimp only
      omega
    · intro hdispatch hremote
      rw [ConnectionImpl.length, hbuffer]
      exact hactive.quiet hdispatch hremote
  rw [ServerConnectionImpl.readDisable, if_pos hactive.isOpen]
  cases disable with
  | true =>
    obtain ⟨c, hc, hcount, hbuffer⟩ := s.connection.readDisable_true
    rw [hc]
    exact ⟨_, rfl, hkeep c _ hbuffer (by simp; omega)⟩
  | false =>
    have hflow := hbalance rfl
    have hdisables := hactive.disables
    obtain ⟨c, hc, hcount, hbuffer, -⟩ := ConnectionImpl.readDisable_false (c := s.connection) (by omega)
    rw [hc]
    exact ⟨_, rfl, hkeep c _ hbuffer (by simp; omega)⟩

end

end Meliproxy.Envoy.Http.Http1.ServerConnectionImpl
