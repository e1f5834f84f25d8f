import Meliproxy.Envoy.Http.Http1ServerCallbacks

/-!
# `onData` of an HTTP/1 connection

The calls of the codec in `onData`, from a read event to the end of the loop. The codec is called
again when a request has been answered while it was read and there is more in the buffer.
-/

namespace Meliproxy.Envoy.Http.Http1.ServerConnectionImpl

open Lib List Network ConnectionManagerImpl Option

variable {p : RequestParser} {At : p.State → RequestPos → Prop} {config : DrainConfig}
  {rs done rest : List Request} {pos pos' : RequestPos} {s s' : ServerConnectionImpl p}
  {d : Dispatch} {slice : Bytes} {slices : List Bytes} {state : p.State} {a : Answers} {n : Nat}

theorem Log.of_pos (h : Log rs s done pos) (hrequests : pos'.requests = pos.requests)
    (hbegun : pos'.begun = pos.begun) : Log rs s done pos' where
  requests := hrequests.symm ▸ h.requests
  count := hbegun.symm ▸ h.count
  created := h.created
  decoded := h.decoded
  decoded_le := h.decoded_le
  rounds d hd := by
    obtain ⟨hcount, hleft, hpaused, hheaders⟩ := h.rounds d hd
    rw [← hrequests] at hleft hpaused
    rw [← hbegun] at hpaused hheaders
    exact ⟨hcount, hleft, hpaused, hheaders⟩

theorem Live.readAll (h : Live At config rs s done pos) (hd : s.dispatch = some d)
    (hslices : d.slices = slice :: slices) (hsilent : Silent pos slice pos') (hat : At state pos') :
    Live At config rs (s.consume state { d with
      slices := slices
      parsed := d.parsed + slice.length }) done pos' := by
  have hreading := h.reading.consume { d with
    slices := slices
    parsed := d.parsed + slice.length } hd hat hsilent.bytes_eq (by rw [hslices]; rfl) rfl
  have hlog := h.log.consume { d with
    slices := slices
    parsed := d.parsed + slice.length } hd rfl rfl rfl state
  have hphase := h.phase.consume { d with
    slices := slices
    parsed := d.parsed + slice.length } hd rfl state
  have hdispatching := h.dispatching
  rw [hd] at hdispatching
  cases hsilent with
  | between rest => exact ⟨h.manager, hdispatching, hreading, hlog, hphase⟩
  | head | body =>
    exact ⟨h.manager, hdispatching, hreading, hlog.of_pos rfl rfl,
      hphase.of_pos rfl (fun _ _ _ _ h => h) rfl⟩

theorem Live.parse (hhttp : config.http2 = false) (hfollows : p.Follows At)
    (h : Live At config rs s done pos) (hd : s.dispatch = some d) (hpaused : d.paused = false)
    (hheaders : d.inHeaders = false) (hslices : d.slices = slice :: slices) :
    ∃ s' done' pos', s.proceed config d a = some s' ∧ Live At config rs s' done' pos' := by
  have hprefix : slice <+: pos.bytes := by
    obtain ⟨past, coming, -, -, hpos⟩ := h.reading.coming
    rw [hpos, unread, hd]
    dsimp only
    rw [hslices, flatten_cons, append_assoc]
    exact prefix_append _ _
  have hfits := hfollows s.parser pos slice h.reading.parser hprefix
  rw [ServerConnectionImpl.proceed, if_neg (by simp [hheaders])]
  split
  · rename_i slice' slices' _ hslices'
    rw [hslices, List.cons.injEq] at hslices'
    obtain ⟨rfl, rfl⟩ := hslices'
    cases hexecute : p.execute s.parser slice with
    | readAll state =>
      rw [hexecute] at hfits
      obtain ⟨pos', hsilent, hat⟩ := hfits
      exact ⟨_, done, pos', rfl, h.readAll hd hslices hsilent hat⟩
    | callback call left state =>
      rw [hexecute] at hfits
      obtain ⟨used, pos', rfl, hraises, hat⟩ := hfits
      have hreading := h.reading.consume { d with
        slices := left :: slices
        parsed := d.parsed + ((used ++ left).length - left.length) } hd hat hraises.bytes_eq
        (by rw [hslices, flatten_cons, append_assoc]; rfl) (by simp)
      have hcalled := h.called hd hpaused hheaders hreading rfl rfl rfl
      obtain ⟨s', done', hs', hlive⟩ := hcalled.callback hhttp hraises
      exact ⟨s', done', pos', hs', hlive⟩
    | error =>
      rw [hexecute] at hfits
      exact hfits.elim
  · rename_i hstopped
    exact absurd hslices (hstopped slice slices hpaused)

theorem Live.headersReturn (h : Live At config rs s done pos) (hd : s.dispatch = some d)
    (hheaders : d.inHeaders = true) :
    ∃ s', s.proceed config d a = some s' ∧ Live At config rs s' done pos := by
  obtain ⟨hcount, hleft, -, hbegun⟩ := h.log.rounds d hd
  have hbegun := hbegun hheaders
  have hdispatching := h.dispatching
  rw [hd] at hdispatching
  refine ⟨_, if_pos hheaders, h.manager, hdispatching, ⟨h.reading.parser, ?_, ?_⟩,
    { h.log with rounds := ?_ }, ?_⟩
  · have hcoming := h.reading.coming
    rw [unread, hd] at hcoming
    exact hcoming
  · intro d₁ hd₁
    cases hd₁
    exact h.reading.buffer d hd
  · intro d₁ hd₁
    cases hd₁
    refine ⟨hcount, hleft, ?_, by simp⟩
    intro _ hzero
    rw [hbegun] at hzero
    cases hzero
  · cases h.phase with
    | idle hidle =>
      rw [hidle.between] at hbegun
      cases hbegun
    | active stream hactive =>
      have hremote : stream.remoteComplete = false := by
        have hstage := hactive.begun
        cases hremote : stream.remoteComplete with
        | false => rfl
        | true =>
          rw [hremote, hbegun] at hstage
          cases hstage
      have hdisables := hactive.disables
      rw [hd] at hdisables
      refine .active stream { hactive with disables := hdisables, quiet := by simp, paused := ?_ }
      intro d₁ hd₁
      cases hd₁
      rw [hremote, hactive.isOpen]
      rfl
    | closed hclosed =>
      refine .closed { hclosed with request := ?_, begun := fun _ _ _ => hbegun }
      exact fun _ => hclosed.request (by rw [hd]; rfl)

theorem requests_pos (h : pos.bytes ≠ []) : 0 < pos.requests.length := by
  cases pos with
  | between rest =>
    cases rest with
    | nil => exact absurd rfl h
    | cons r rest => exact Nat.succ_pos _
  | head | body => exact Nat.succ_pos _

theorem onData_live (hinv : Inv config s.manager) (hdispatching : s.manager.dispatching = false)
    (hwants : ∀ stream ∈ s.manager.streams, stream.wantsClose = false)
    (hopen : s.manager.isOpen = true) (hquiet : s.dispatch = none) (hlength : 0 < s.connection.length)
    (hreading : Reading At rs s pos) (hlog : Log rs s done pos)
    (hrounds : n + pos.requests.length ≤ rs.length + 1)
    (hphase : ∀ d : Dispatch, d.paused = false → Phase { s with
      manager := { s.manager with
        codec := true
        dispatching := true }
      dispatch := some d } done pos) :
    ∃ s', s.onData config n = some s' ∧ Live At config rs s' done pos := by
  obtain ⟨past, coming, hpast, hstream, hpos⟩ := hreading.coming
  have hunread : s.unread = s.connection.readBuffer.flatten := by rw [unread, hquiet]
  have hne : pos.bytes ≠ [] := by
    rw [hpos, hunread]
    exact append_ne_nil_of_left_ne_nil (length_pos_iff.mp hlength) _
  have hmore := requests_pos hne
  obtain ⟨t, ht, hinv'⟩ := manage_inv hinv (e := .onData) ⟨hopen, hdispatching⟩ hwants (by simp)
  rw [ConnectionManagerImpl.step, some_inj] at ht
  subst ht
  rw [onData, manage_open (t := { s.manager with
    codec := true
    dispatching := true }) rfl hopen, map_some]
  refine ⟨_, rfl, hinv', rfl, ⟨hreading.parser, ?_, ?_⟩, { hlog with rounds := ?_ }, hphase _ rfl⟩
  · rw [hunread] at hpast hpos
    exact ⟨past, coming, hpast, hstream, hpos⟩
  · intro d hd
    cases hd
    rfl
  · intro d hd
    cases hd
    exact ⟨by dsimp only; omega, hrounds, by simp, by simp⟩

/-- The state when the codec has returned and the manager has looked at the connection. -/
def returned (s : ServerConnectionImpl p) (d : Dispatch) (t : ConnectionManagerImpl) :
    ServerConnectionImpl p :=
  ({ s with
    connection := s.connection.setReadBuffer (drain s.connection.readBuffer d.parsed)
    dispatch := none } : ServerConnectionImpl p).withManager t

theorem returned_buffer (h : Reading At rs s pos) (hd : s.dispatch = some d)
    (t : ConnectionManagerImpl) :
    (s.returned d t).connection.readBuffer.flatten = d.slices.flatten := by
  rw [returned, (sameWire_withManager _ t).buffer, ← h.buffer d hd]
  exact flatten_drain s.connection.readBuffer d.parsed

theorem Reading.returned (h : Reading At rs s pos) (hd : s.dispatch = some d)
    (t : ConnectionManagerImpl) : Reading At rs (s.returned d t) pos := by
  refine ⟨h.parser, ?_, nofun⟩
  have hunread : (s.returned d t).unread = s.unread := by
    have hquiet : (s.returned d t).dispatch = none := rfl
    rw [unread, hquiet, unread, hd]
    exact returned_buffer h hd t
  rw [hunread]
  exact h.coming

theorem afterDispatch_again (hopen : s.manager.isOpen = true) (hstreams : s.manager.streams = [])
    (hlength : 0 < s.connection.length) : s.afterDispatch config n = s.onData config (n + 1) := by
  simp [afterDispatch, hopen, hstreams, hlength]

theorem afterDispatch_done (hstreams : s.manager.streams = [])
    (h : s.manager.isOpen = false ∨ s.connection.length = 0) :
    s.afterDispatch config n = some s := by
  rcases h with h | h <;> simp [afterDispatch, hstreams, h]

theorem afterDispatch_active {stream : ActiveStream} (hstreams : s.manager.streams = [stream]) :
    s.afterDispatch config n = if stream.remoteComplete then s.readDisable true else some s := by
  simp [afterDispatch, hstreams]

theorem Live.dispatched (h : Live At config rs s done pos) (hd : s.dispatch = some d)
    (hstopped : d.paused = true ∨ d.slices = []) (a : Answers) :
    ∃ s', s.dispatched config d a = some s' ∧ Live At config rs s' done pos := by
  have hdispatching : s.manager.dispatching = true := by rw [h.dispatching, hd]; rfl
  obtain ⟨t, ht, hinv⟩ := manage_inv h.manager (e := .dispatched a) hdispatching h.phase.wants (by simp)
  obtain ⟨houtcome, hended⟩ := step_dispatched ht
  have hreading := h.reading.returned hd t
  have hlog : Log rs (s.returned d t) done pos := { h.log with rounds := by rintro _ ⟨⟩ }
  have hbuffer := returned_buffer h.reading hd t
  rw [ServerConnectionImpl.dispatched, manage_eq (s := { s with
    connection := s.connection.setReadBuffer (drain s.connection.readBuffer d.parsed)
    dispatch := none }) ht, bind_some]
  change ∃ s', (s.returned d t).afterDispatch config d.rounds = some s' ∧ _
  have hclosed : t.isOpen = false → t.streams = [] →
      ∃ s', (s.returned d t).afterDispatch config d.rounds = some s' ∧
        Live At config rs s' done pos := by
    intro hopen hstreams
    exact ⟨_, afterDispatch_done hstreams (.inl hopen), hinv, hended, hreading, hlog,
      .closed ⟨hopen, hstreams, by rintro ⟨⟩, by rintro _ ⟨⟩, h.phase.deferred_none⟩⟩
  rcases houtcome with ⟨hopen, hstreams⟩ | ⟨hopen, hstreams⟩
  · exact hclosed hopen hstreams
  · cases h.phase with
    | closed hphase =>
      exact hclosed (hopen.trans hphase.isOpen) (hstreams.trans hphase.streams)
    | idle hidle =>
      have hopen' := hopen.trans hidle.isOpen
      have hstreams' := hstreams.trans hidle.streams
      have hdisables : (s.returned d t).connection.disables = 0 := by
        rw [ServerConnectionImpl.returned, withManager_connection hopen']
        exact hidle.disables
      rcases Nat.eq_zero_or_pos (s.returned d t).connection.length with hzero | hlength
      · refine ⟨_, afterDispatch_done hstreams' (.inr hzero), hinv, hended, hreading, hlog, .idle ?_⟩
        refine { hidle with
            isOpen := hopen', streams := hstreams', disables := hdisables, pending := ?_ }
        intro _ hlength
        omega
      · -- There is more in the buffer, so the parser was paused behind a request.
        rw [afterDispatch_again hopen' hstreams' hlength]
        have hpaused : d.paused = true := by
          rcases hstopped with hpaused | hnil
          · exact hpaused
          · rw [ConnectionImpl.length, hbuffer, hnil] at hlength
            cases hlength
        have hrounds := (h.log.rounds d hd).paused hpaused hidle.between
        refine onData_live hinv hended ?_ hopen' rfl hlength hreading hlog (by omega) ?_
        · have hempty : (s.returned d t).manager.streams = [] := hstreams'
          rw [hempty]
          rintro _ ⟨⟩
        · exact fun d₁ _ => .idle { hidle with
            isOpen := hopen', streams := hstreams', disables := hdisables, pending := by simp }
    | active stream hactive =>
      have hopen' := hopen.trans hactive.isOpen
      have hstreams' := hstreams.trans hactive.streams
      have hrunning := hactive.paused d hd
      have hdisables : (s.returned d t).connection.disables = s.flowDisables := by
        have hdisables := hactive.disables
        rw [hd, isNone_some, Bool.and_false, if_neg (by simp)] at hdisables
        rw [ServerConnectionImpl.returned, withManager_connection hopen']
        exact hdisables
      rw [afterDispatch_active hstreams']
      cases hremote : stream.remoteComplete with
      | false =>
        refine ⟨_, if_neg (by simp), hinv, hended, hreading, hlog, .active stream ?_⟩
        refine { hactive with
            isOpen := hopen', streams := hstreams', disables := ?_, quiet := ?_
            paused := by rintro _ ⟨⟩ }
        · rw [hremote]
          exact hdisables
        · intro _ _
          rw [hremote] at hrunning
          rcases hstopped with hpaused | hnil
          · rw [hrunning] at hpaused
            cases hpaused
          · rw [ConnectionImpl.length, hbuffer, hnil]
            rfl
      | true =>
        -- The request waits for its response, with reads disabled.
        obtain ⟨c, hc, hcount, hsame⟩ := (s.returned d t).connection.readDisable_true
        have hstep : (s.returned d t).readDisable true =
            some { s.returned d t with connection := c } := by
          have hmanager : (s.returned d t).manager.isOpen = true := hopen'
          rw [ServerConnectionImpl.readDisable, if_pos hmanager, hc]
          rfl
        have hwire : SameWire (s.returned d t) { s.returned d t with connection := c } :=
          ⟨rfl, rfl, rfl, hsame, rfl, rfl⟩
        refine ⟨_, (if_pos rfl).trans hstep, hinv, hended, hreading.of_same hwire,
          hlog.of_same hwire, .active stream ?_⟩
        refine { hactive with
            isOpen := hopen', streams := hstreams', disables := ?_, quiet := ?_
            paused := by rintro _ ⟨⟩ }
        · rw [hremote]
          exact hcount.trans (by rw [hdisables]; rfl)
        · intro _ hfalse
          rw [hremote] at hfalse
          cases hfalse

theorem Live.proceed (hhttp : config.http2 = false) (hfollows : p.Follows At)
    (h : Live At config rs s done pos) (hd : s.dispatch = some d) (a : Answers) :
    ∃ s' done' pos', s.proceed config d a = some s' ∧ Live At config rs s' done' pos' := by
  cases hheaders : d.inHeaders with
  | true =>
    obtain ⟨s', hs', hlive⟩ := h.headersReturn (a := a) hd hheaders
    exact ⟨s', done, pos, hs', hlive⟩
  | false =>
    have hstopped : d.paused = true ∨ d.slices = [] → ∃ s' done' pos',
        s.proceed config d a = some s' ∧ Live At config rs s' done' pos' := by
      intro hstopped
      obtain ⟨s', hs', hlive⟩ := h.dispatched hd hstopped a
      refine ⟨s', done, pos, ?_, hlive⟩
      rw [ServerConnectionImpl.proceed, if_neg (by simp [hheaders])]
      split
      · rename_i hpaused hslices
        rcases hstopped with hstopped | hstopped
        · rw [hpaused] at hstopped
          cases hstopped
        · rw [hslices] at hstopped
          cases hstopped
      · exact hs'
    cases hpaused : d.paused with
    | true => exact hstopped (.inl hpaused)
    | false =>
      cases hslices : d.slices with
      | nil => exact hstopped (.inr hslices)
      | cons slice slices => exact h.parse hhttp hfollows hd hpaused hheaders hslices

def filled (s : ServerConnectionImpl p) (slices : List Bytes) : ServerConnectionImpl p :=
  { s with
    connection := { s.connection.setReadBuffer (s.connection.readBuffer ++ slices) with
      readActivated := false }
    received := s.received ++ slices.flatten }

theorem Reading.filled (h : Reading At rs s pos) (hquiet : s.dispatch = none) {slices : List Bytes}
    (hreceived : s.received ++ slices.flatten <+: Request.stream rs) :
    Reading At rs (s.filled slices) pos := by
  have hunread : s.unread = s.connection.readBuffer.flatten := by rw [unread, hquiet]
  have hfilled : (s.filled slices).unread = s.unread ++ slices.flatten := by
    have hquiet' : (s.filled slices).dispatch = none := hquiet
    rw [hunread, unread, hquiet']
    exact flatten_append
  obtain ⟨past, coming, hpast, hstream, hpos⟩ := h.coming
  obtain ⟨coming', hcoming'⟩ := hreceived
  have hcoming : coming = slices.flatten ++ coming' := by
    rw [hstream, append_assoc] at hcoming'
    exact (append_cancel_left hcoming').symm
  refine ⟨h.parser, ⟨past, coming', ?_, hcoming'.symm, ?_⟩, ?_⟩
  · rw [hfilled, ← append_assoc, ← hpast]
    rfl
  · rw [hfilled, hpos, hcoming, append_assoc]
  · have hquiet' : (s.filled slices).dispatch = none := hquiet
    rw [hquiet']
    rintro _ ⟨⟩

theorem Live.readReady (h : Live At config rs s done pos) {slices : List Bytes}
    (hpossible : s.Possible config rs (.readReady slices)) :
    ∃ s', s.onReadReady config slices = some s' ∧ Live At config rs s' done pos := by
  obtain ⟨hopen, hquiet, henabled, -, -, hreceived⟩ := hpossible
  rw [isNone_iff_eq_none] at hquiet
  have hreading := h.reading.filled hquiet hreceived
  have hlog : Log rs (s.filled slices) done pos := { h.log with }
  have hdispatching : s.manager.dispatching = false := by rw [h.dispatching, hquiet]; rfl
  have hzero : s.connection.disables = 0 := ConnectionImpl.disables_eq_zero.mpr henabled
  have hstep : s.onReadReady config slices =
      if 0 < (s.filled slices).connection.length then (s.filled slices).onData config 1
      else some (s.filled slices) := by
    have henabled' : (s.filled slices).connection.readEnabled = true := henabled
    change (if (s.filled slices).connection.readEnabled && 0 < (s.filled slices).connection.length
      then _ else _) = _
    rw [henabled', Bool.true_and]
    simp only [decide_eq_true_eq]
    rfl
  have hrequests : pos.requests.length ≤ rs.length := by
    rw [h.log.requests, length_append]
    omega
  rw [hstep]
  split
  · rename_i hlength
    refine onData_live h.manager hdispatching h.phase.wants hopen hquiet hlength hreading hlog
      (by omega) ?_
    intro d hrunning
    cases h.phase with
    | idle hidle =>
      exact .idle { hidle with pending := by simp }
    | active stream hactive =>
      have hdisables := hactive.disables
      rw [hquiet, isNone_none, Bool.and_true, hzero] at hdisables
      have hremote : stream.remoteComplete = false := by
        cases hremote : stream.remoteComplete with
        | false => rfl
        | true =>
          rw [hremote, if_pos rfl] at hdisables
          omega
      rw [hremote, if_neg (by simp)] at hdisables
      refine .active stream { hactive with disables := ?_, quiet := by simp, paused := ?_ }
      · rw [hremote]
        exact hzero.trans hdisables
      · intro d₁ hd₁
        cases hd₁
        rw [hrunning, hremote]
    | closed hclosed =>
      rw [hclosed.isOpen] at hopen
      cases hopen
  · rename_i hlength
    have hlength : (s.filled slices).connection.length = 0 := Nat.eq_zero_of_not_pos hlength
    refine ⟨_, rfl, h.manager, h.dispatching, hreading, hlog, ?_⟩
    cases h.phase with
    | idle hidle =>
      refine .idle { hidle with pending := ?_ }
      intro _ hpos
      omega
    | active stream hactive =>
      exact .active stream { hactive with quiet := fun _ _ => hlength }
    | closed hclosed =>
      rw [hclosed.isOpen] at hopen
      cases hopen

end Meliproxy.Envoy.Http.Http1.ServerConnectionImpl
