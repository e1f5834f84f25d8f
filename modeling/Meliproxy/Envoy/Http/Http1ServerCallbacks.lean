import Meliproxy.Envoy.Http.Http1ServerFilters

/-!
# The callbacks of an HTTP/1 connection

What the codec does in a callback of the parser, for the request that the parser has come to. A
stream is made when a request begins, and its request is complete when the parser is paused.
-/

namespace Meliproxy.Envoy.Http.Http1.ServerConnectionImpl

open Lib List Network ConnectionManagerImpl Option

variable {p : RequestParser} {At : p.State → RequestPos → Prop} {config : DrainConfig}
  {rs done rest : List Request} {pos pos' : RequestPos} {s s' : ServerConnectionImpl p}
  {d d' : Dispatch} {r : Request} {used left : Bytes} {slices : List Bytes} {state : p.State}

def consume (s : ServerConnectionImpl p) (state : p.State) (d : Dispatch) : ServerConnectionImpl p :=
  { s with
    parser := state
    dispatch := some d }

theorem Reading.consume (h : Reading At rs s pos) (d' : Dispatch)
    (hd : s.dispatch = some d) (hat : At state pos')
    (hbytes : pos.bytes = used ++ pos'.bytes) (hslices : d.slices.flatten = used ++ d'.slices.flatten)
    (hparsed : d'.parsed = d.parsed + used.length) : Reading At rs (s.consume state d') pos' where
  parser := hat
  coming := by
    obtain ⟨past, coming, hpast, hstream, hpos⟩ := h.coming
    have hunread : s.unread = d.slices.flatten := by rw [unread, hd]
    rw [hunread, hslices] at hpast hpos
    refine ⟨past ++ used, coming, ?_, hstream, ?_⟩
    · rw [append_assoc]
      exact hpast
    · rw [hbytes, append_assoc] at hpos
      exact append_cancel_left hpos
  buffer := by
    intro d₁ hd₁
    cases hd₁
    have hbuffer := h.buffer d hd
    rw [hparsed, ← drop_drop]
    exact (congrArg (List.drop used.length) (hbuffer.trans hslices)).trans (drop_left' rfl)

theorem Phase.consume (h : Phase s done pos) (d' : Dispatch)
    (hd : s.dispatch = some d) (hpaused : d'.paused = d.paused)
    (state : p.State) : Phase (s.consume state d') done pos := by
  cases h with
  | idle h =>
    exact .idle { h with pending := nofun }
  | active stream h =>
    refine .active stream { h with disables := ?_, quiet := nofun, paused := ?_ }
    · have hdisables := h.disables
      rwa [hd] at hdisables
    · intro d₁ hd₁
      cases hd₁
      exact hpaused.trans (h.paused d hd)
  | closed h =>
    refine .closed ⟨h.isOpen, h.streams, fun _ => h.request (by rw [hd]; rfl), ?_, h.deferred⟩
    intro d₁ hd₁ hrun
    cases hd₁
    exact h.begun d hd (hpaused.symm.trans hrun)

theorem Log.consume (h : Log rs s done pos) (d' : Dispatch)
    (hd : s.dispatch = some d) (hpaused : d'.paused = d.paused)
    (hheaders : d'.inHeaders = d.inHeaders) (hrounds : d'.rounds = d.rounds) (state : p.State) :
    Log rs (s.consume state d') done pos := by
  refine { h with rounds := ?_ }
  intro d₁ hd₁
  cases hd₁
  obtain ⟨hcount, hleft, hpause, hin⟩ := h.rounds d hd
  exact ⟨hrounds ▸ hcount, hrounds ▸ hleft, hpaused.symm ▸ hrounds.symm ▸ hpause, hheaders ▸ hin⟩

theorem Reading.parsed_eq (h : Reading At rs s pos) :
    s.parsed + pos.bytes.length = (Request.stream rs).length := by
  obtain ⟨past, coming, hpast, hstream, hpos⟩ := h.coming
  rw [hstream, hpos, parsed, hpast]
  simp only [length_append]
  omega

/-- The state in which a callback is made. The parser has gone on to `pos'`, and the rest is as it was
at `pos`. -/
structure Called (At : p.State → RequestPos → Prop) (config : DrainConfig) (rs : List Request)
    (s : ServerConnectionImpl p) (d : Dispatch) (done : List Request) (pos pos' : RequestPos) :
    Prop where
  manager : Inv config s.manager
  dispatching : s.manager.dispatching = true
  dispatch : s.dispatch = some d
  running : d.paused = false
  headers : d.inHeaders = false
  reading : Reading At rs s pos'
  log : Log rs s done pos
  phase : Phase s done pos

theorem Live.called (h : Live At config rs s done pos) (hd : s.dispatch = some d)
    (hrunning : d.paused = false) (hheaders : d.inHeaders = false)
    (hreading : Reading At rs (s.consume state d') pos') (hpaused : d'.paused = d.paused)
    (hheaders' : d'.inHeaders = d.inHeaders) (hrounds : d'.rounds = d.rounds) :
    Called At config rs (s.consume state d') d' done pos pos' where
  manager := h.manager
  dispatching := h.dispatching.trans (by rw [hd]; rfl)
  dispatch := rfl
  running := hpaused.trans hrunning
  headers := hheaders'.trans hheaders
  reading := hreading
  log := h.log.consume d' hd hpaused hheaders' hrounds state
  phase := h.phase.consume d' hd hpaused state

theorem stream_append (done rest : List Request) :
    Request.stream (done ++ rest) = Request.stream done ++ Request.stream rest := flatMap_append

theorem Called.begun (h : Called At config rs s d done pos pos') (hbegun : pos.begun = 1) :
    (∃ stream, Active s done pos stream ∧ stream.remoteComplete = false) ∨
      Closed s pos ∧ s.activeRequest = none := by
  cases h.phase with
  | idle hidle =>
    rw [hidle.between] at hbegun
    cases hbegun
  | active stream hactive =>
    refine .inl ⟨stream, hactive, ?_⟩
    rw [← hactive.paused d h.dispatch]
    exact h.running
  | closed hclosed =>
    refine .inr ⟨hclosed, hclosed.request ?_⟩
    rw [h.dispatch]
    rfl

theorem Called.between (h : Called At config rs s d done pos pos') (hbetween : pos.begun = 0) :
    Idle s done pos := by
  cases h.phase with
  | idle hidle => exact hidle
  | active stream hactive =>
    have hbegun := hactive.begun
    rw [← hactive.paused d h.dispatch, h.running, hbetween] at hbegun
    cases hbegun
  | closed hclosed =>
    rw [hclosed.begun d h.dispatch h.running] at hbetween
    cases hbetween

theorem Called.messageBegin (h : Called At config rs s d done (.between (r :: rest)) (.head r left rest))
    (hused : used ≠ []) (hhead : r.head = used ++ left) :
    ∃ s', s.onMessageBegin config = some s' ∧ Live At config rs s' done (.head r left rest) := by
  have hidle := h.between rfl
  have hcount : s.created.length = done.length := h.log.count
  have hopen : (s.manager.newStream s.created.length).isOpen = true := hidle.isOpen
  obtain ⟨t, ht, hinv⟩ := manage_inv h.manager (e := .newStream s.created.length)
    ⟨h.dispatching, by rw [ConnectionManagerImpl.find, hidle.streams]; rfl,
      fun _ => ⟨hidle.isOpen, by rw [hidle.streams]; rfl⟩⟩ h.phase.wants (by simp)
  rw [ConnectionManagerImpl.step, some_inj] at ht
  subst ht
  have hstep : s.onMessageBegin config = some { s with
      manager := s.manager.newStream s.created.length
      activeRequest := some ⟨s.created.length, false⟩
      created := s.created ++ [s.parsed] } := by
    rw [onMessageBegin, if_neg (by simp [hidle.reset]), if_neg (by simp [hidle.request])]
    dsimp only
    rw [manage_open (t := s.manager.newStream s.created.length) rfl hopen]
    rfl
  refine ⟨_, hstep, hinv, ?_, { h.reading with }, ?_,
    .active ⟨done.length, none, false, false, false, false⟩ ?_⟩
  · exact h.dispatching.trans (by rw [h.dispatch]; rfl)
  · have hparsed := h.reading.parsed_eq
    have hrequests : rs = done ++ r :: rest := h.log.requests
    refine ⟨hrequests, ?_, ?_, h.log.decoded, ?_, ?_⟩
    · rw [length_append, hcount]
      rfl
    · intro i o hi
      rcases entry_of_concat hi with hi | ⟨rfl, rfl⟩
      · exact h.log.created i o hi
      · have hpos : 0 < used.length := length_pos_iff.mpr hused
        have htaken : rs.take (done.length + 1) = done ++ [r] := by
          rw [hrequests, take_append, take_of_length_le (by omega), Nat.add_sub_cancel_left]
          rfl
        rw [hcount, htaken, hrequests, take_left' rfl, stream_append]
        rw [hrequests, stream_append] at hparsed
        simp only [RequestPos.bytes, Request.stream, Request.bytes, hhead, flatMap_cons,
          flatMap_nil, length_append, append_nil] at hparsed ⊢
        omega
    · have hle := h.log.decoded_le
      rw [length_append]
      dsimp only
      omega
    · intro d₁ hd₁
      obtain ⟨hcount, hleft, -, hheaders⟩ := h.log.rounds d₁ hd₁
      refine ⟨hcount, hleft, by rintro _ ⟨⟩, fun _ => rfl⟩
  · refine ⟨hopen, ?_, ?_, hidle.reset, rfl, rfl, rfl, ⟨rfl, hidle.deferred, hidle.decoded⟩, ?_, ?_, ?_⟩
    · rw [newStream, hidle.streams, hcount]
    · rw [hcount]
    · rw [hidle.disables, hidle.flow]
      rfl
    · intro hnone
      rw [h.dispatch] at hnone
      cases hnone
    · intro d₁ hd₁
      have hd₁ : d₁ ∈ s.dispatch := hd₁
      rw [h.dispatch, mem_some] at hd₁
      rw [← hd₁]
      exact h.running

theorem Log.at_pos (h : Log rs s done pos) (hrequests : pos'.requests = pos.requests)
    (hbegun : pos.begun = 1) (hbegun' : pos'.begun = 1) : Log rs s done pos' where
  requests := hrequests.symm ▸ h.requests
  count := by
    rw [hbegun', ← hbegun]
    exact h.count
  created := h.created
  decoded := h.decoded
  decoded_le := h.decoded_le
  rounds d hd := by
    obtain ⟨hcount, hleft, -, -⟩ := h.rounds d hd
    refine ⟨hcount, hrequests.symm ▸ hleft, ?_, fun _ => hbegun'⟩
    intro _ hzero
    rw [hbegun'] at hzero
    cases hzero

variable {decoded : List (Nat × Bool × Headers)}

theorem headersInOrder_concat (hrequests : rs = done ++ r :: rest)
    (h : decoded = headersInOrder (rs.take decoded.length))
    (hcount : decoded.length = done.length) :
    decoded ++ [(done.length, false, r.headers)] = headersInOrder (rs.take (done.length + 1)) := by
  have htaken : rs.take (done.length + 1) = done ++ [r] := by
    rw [hrequests, take_append, take_of_length_le (by omega), Nat.add_sub_cancel_left]
    rfl
  rw [hcount, hrequests, take_left' rfl] at h
  rw [htaken, headersInOrder, mapIdx_concat, h, headersInOrder]

theorem Active.mem_find {stream : ActiveStream} (h : Active s done pos stream) {q : ActiveStream → Bool}
    (hq : q stream = true) : (s.manager.find stream.id).any q = true := by
  rw [find_of_single h.streams, any_some]
  exact hq

theorem onHeadersComplete_some {request : ActiveRequest} (h : s.activeRequest = some request)
    (headers : Bool × Headers) (hasBody : Bool) : s.onHeadersComplete config d headers hasBody =
      if hasBody then
        { s with dispatch := some { d with inHeaders := true } }.decodeHeaders config request headers
          false
      else some { s with deferredEndStreamHeaders := some headers } := by
  rw [onHeadersComplete]
  split
  · rename_i hnone
    rw [h] at hnone
    cases hnone
  · rename_i request' hsome
    rw [h, some_inj] at hsome
    rw [hsome]

theorem decodeHeaders_eq {request : ActiveRequest} (hopen : s.manager.isOpen = true)
    (headers : Bool × Headers) (endStream : Bool) :
    s.decodeHeaders config request headers endStream = some { s with
      manager := s.manager.update request.stream fun stream => { stream with
        requestHeaders := some (config.protocol headers.1, headers.2)
        remoteComplete := endStream
        sawConnectionClose := sawConnectionClose (config.protocol headers.1) headers.2.1 }
      decoded := s.decoded ++ [(request.stream, headers)] } := by
  have hopen' : (s.manager.update request.stream fun stream => { stream with
        requestHeaders := some (config.protocol headers.1, headers.2)
        remoteComplete := endStream
        sawConnectionClose := sawConnectionClose (config.protocol headers.1) headers.2.1 }).isOpen =
      true := hopen
  rw [decodeHeaders, manage_open rfl hopen', map_some]

theorem Called.headersComplete (hhttp : config.http2 = false)
    (h : Called At config rs s d done (.head r (used ++ left) rest) (.body r (left ++ r.raw) rest)) :
    ∃ s', s.onHeadersComplete config d (false, r.headers) r.hasBody = some s' ∧
      Live At config rs s' done (.body r (left ++ r.raw) rest) := by
  have hlog : Log rs s done (.body r (left ++ r.raw) rest) := h.log.at_pos rfl rfl rfl
  have hdispatching : s.manager.dispatching = s.dispatch.isSome := by
    rw [h.dispatching, h.dispatch]
    rfl
  rcases h.begun rfl with ⟨stream, hactive, hremote⟩ | ⟨hclosed, hrequest⟩
  · obtain ⟨hnone, hdeferred, hdecoded⟩ := hactive.given
    rw [onHeadersComplete_some hactive.request]
    split
    · rename_i hbody
      obtain ⟨t, ht, hinv⟩ := manage_inv h.manager
        (e := .decodeHeaders stream.id false r.headers false)
        ⟨h.dispatching, hactive.mem_find (by rw [hnone]; rfl)⟩ h.phase.wants (by simp)
      rw [ConnectionManagerImpl.step, some_inj] at ht
      subst ht
      rw [decodeHeaders_eq (s := { s with dispatch := some { d with inHeaders := true } })
        hactive.isOpen]
      refine ⟨_, rfl, hinv, h.dispatching, ⟨h.reading.parser, ?_, ?_⟩, ?_, .active { stream with
        requestHeaders := some (config.protocol false, r.headers)
        remoteComplete := false
        sawConnectionClose := sawConnectionClose (config.protocol false) r.headers.1 } ?_⟩
      · have hcoming := h.reading.coming
        rw [unread, h.dispatch] at hcoming
        exact hcoming
      · intro d₁ hd₁
        cases hd₁
        exact h.reading.buffer d h.dispatch
      · have hcount := hlog.count
        refine ⟨hlog.requests, hcount, hlog.created, ?_, ?_, ?_⟩
        · have hid : stream.id = done.length := Nat.succ_inj.mp hactive.id
          have hlogged := headersInOrder_concat h.log.requests h.log.decoded hdecoded
          rw [hid, length_append, hdecoded]
          exact hlogged
        · rw [length_append, hdecoded]
          exact hcount.symm.le
        · intro d₁ hd₁
          cases hd₁
          obtain ⟨hrounds, hmore, hpaused, -⟩ := hlog.rounds d h.dispatch
          exact ⟨hrounds, hmore, hpaused, fun _ => rfl⟩
      · refine ⟨hactive.isOpen, update_single hactive.streams _, ?_, hactive.reset, rfl, hactive.id,
          ?_, ?_, ?_, by simp, ?_⟩
        · rw [← hremote]
          exact hactive.request
        · have hprotocol : config.protocol false = .http11 := by
            rw [DrainConfig.protocol, hhttp]
            rfl
          rw [ActiveStream.wantsClose, hprotocol, any_some]
          exact r.keepsOpen
        · rw [Given, if_pos hbody]
          refine ⟨hdeferred, ?_⟩
          rw [length_append, hdecoded]
          rfl
        · have hdisables := hactive.disables
          rw [hremote] at hdisables
          exact hdisables
        · intro d₁ hd₁
          cases hd₁
          exact h.running
    · rename_i hempty
      refine ⟨_, rfl, h.manager, hdispatching, { h.reading with },
        { hlog with },
        .active stream ?_⟩
      refine { hactive with given := ?_ }
      rw [Given, if_neg hempty]
      exact ⟨hnone, rfl, hdecoded⟩
  · rw [onHeadersComplete, hrequest]
    refine ⟨_, rfl, h.manager, hdispatching, h.reading, hlog, .closed ?_⟩
    exact { hclosed with begun := fun _ _ _ => rfl, deferred := fun _ => hclosed.deferred rfl }

theorem Called.body (h : Called At config rs s d done (.body r (used ++ left) rest) (.body r left rest))
    (hbody : r.hasBody = true) :
    ∃ s', s.onBody = some s' ∧ Live At config rs s' done (.body r left rest) := by
  have hlog : Log rs s done (.body r left rest) := h.log.at_pos rfl rfl rfl
  have hdispatching : s.manager.dispatching = s.dispatch.isSome := by
    rw [h.dispatching, h.dispatch]
    rfl
  have hdeferred : s.deferredEndStreamHeaders = none := by
    rcases h.begun rfl with ⟨stream, hactive, -⟩ | ⟨hclosed, -⟩
    · exact hactive.given.deferred_none hbody
    · exact hclosed.deferred hbody
  rw [onBody, hdeferred, isSome_none, if_neg (by simp)]
  exact ⟨s, rfl, h.manager, hdispatching, h.reading, hlog, h.phase.of_pos rfl (fun _ _ _ _ h => h) rfl⟩

theorem Reading.pause (h : Reading At rs s pos) (hd : s.dispatch = some d) :
    Reading At rs (s.pause d) pos := by
  refine ⟨h.parser, ?_, ?_⟩
  · have hcoming := h.coming
    rw [unread, hd] at hcoming
    exact hcoming
  · intro d₁ hd₁
    cases hd₁
    exact h.buffer d hd

theorem Log.pause (h : Log rs s done (.body r used rest)) (hd : s.dispatch = some d)
    (hheaders : d.inHeaders = false) : Log rs (s.pause d) (done ++ [r]) (.between rest) := by
  have hcount := h.count
  refine ⟨?_, ?_, h.created, h.decoded, h.decoded_le, ?_⟩
  · rw [h.requests, append_assoc]
    rfl
  · rw [length_append]
    exact hcount
  · intro d₁ hd₁
    cases hd₁
    obtain ⟨hrounds, hleft, -, -⟩ := h.rounds d hd
    simp only [RequestPos.requests, length_cons] at hleft
    refine ⟨hrounds, ?_, fun _ _ => ?_, ?_⟩
    · simp only [RequestPos.requests]
      omega
    · simp only [RequestPos.requests]
      omega
    · intro hin
      rw [hheaders] at hin
      cases hin

theorem Active.complete {stream stream' : ActiveStream} (h : Active s done (.body r used rest) stream)
    (d : Dispatch) (hremote : stream.remoteComplete = false) {t : ConnectionManagerImpl}
    {deferred : Option (Bool × Headers)} (hdeferred : deferred = none)
    (hstreams : t.streams = [stream']) (hopen : t.isOpen = s.manager.isOpen)
    (hid : stream'.id = stream.id) (hremote' : stream'.remoteComplete = true)
    (hwants : stream'.wantsClose = false) (hdecoded : decoded.length = done.length + 1) : Active
    { s.pause d with
      manager := t
      activeRequest := some ⟨stream.id, true⟩
      deferredEndStreamHeaders := deferred
      decoded := decoded } (done ++ [r]) (.between rest) stream' := by
  refine ⟨hopen.trans h.isOpen, hstreams, ?_, h.reset, ?_, ?_, hwants, ⟨hdeferred, ?_⟩, ?_, nofun,
    ?_⟩
  · rw [hid, hremote']
  · rw [hremote', if_pos rfl]
    rfl
  · rw [hid, length_append]
    exact h.id
  · rw [length_append]
    exact hdecoded
  · have hdisables := h.disables
    rw [hremote, Bool.false_and, if_neg (by simp)] at hdisables
    rw [hremote']
    exact hdisables
  · intro d₁ hd₁
    cases hd₁
    exact hremote'.symm

theorem onMessageComplete_none (h : s.activeRequest = none) :
    s.onMessageComplete config d = some (s.pause d) := by
  rw [onMessageComplete]
  split
  · rfl
  · rename_i request hsome
    rw [h] at hsome
    cases hsome

theorem onMessageComplete_headers {id : Nat} {remote : Bool} {headers : Bool × Headers}
    (h : s.activeRequest = some ⟨id, remote⟩) (hdeferred : s.deferredEndStreamHeaders = some headers) :
    s.onMessageComplete config d = { s.pause d with
      activeRequest := some ⟨id, true⟩
      deferredEndStreamHeaders := none }.decodeHeaders config ⟨id, true⟩ headers true := by
  rw [onMessageComplete]
  split
  · rename_i hnone
    rw [h] at hnone
    cases hnone
  · rename_i request hsome
    rw [h, some_inj] at hsome
    subst hsome
    split
    · rename_i headers' hheaders
      rw [hdeferred, some_inj] at hheaders
      rw [hheaders]
    · rename_i hnone
      rw [hdeferred] at hnone
      cases hnone

theorem onMessageComplete_end {id : Nat} {remote : Bool} (h : s.activeRequest = some ⟨id, remote⟩)
    (hdeferred : s.deferredEndStreamHeaders = none) : s.onMessageComplete config d =
      { s.pause d with activeRequest := some ⟨id, true⟩ }.manage config (.decodeEnd id) := by
  rw [onMessageComplete]
  split
  · rename_i hnone
    rw [h] at hnone
    cases hnone
  · rename_i request hsome
    rw [h, some_inj] at hsome
    subst hsome
    split
    · rename_i headers hheaders
      rw [hdeferred] at hheaders
      cases hheaders
    · rfl

theorem Called.messageComplete (hhttp : config.http2 = false)
    (h : Called At config rs s d done (.body r used rest) (.between rest)) :
    ∃ s', s.onMessageComplete config d = some s' ∧
      Live At config rs s' (done ++ [r]) (.between rest) := by
  have hreading := h.reading.pause h.dispatch
  have hlog := h.log.pause h.dispatch h.headers
  rcases h.begun rfl with ⟨stream, hactive, hremote⟩ | ⟨hclosed, hrequest⟩
  · have hgiven := hactive.given
    have hid : stream.id = done.length := Nat.succ_inj.mp hactive.id
    rw [Given] at hgiven
    split at hgiven
    · rename_i hbody
      obtain ⟨hdeferred, hdecoded⟩ := hgiven
      obtain ⟨t, ht, hinv⟩ := manage_inv h.manager (e := .decodeEnd stream.id)
        ⟨h.dispatching, hactive.mem_find (by rw [hremote]; rfl)⟩ h.phase.wants (by simp)
      rw [ConnectionManagerImpl.step, some_inj] at ht
      subst ht
      have hopen : (s.manager.update stream.id fun stream => { stream with
        remoteComplete := true }).isOpen = true := hactive.isOpen
      rw [onMessageComplete_end hactive.request hdeferred,
        manage_open (s := { s.pause d with activeRequest := some ⟨stream.id, true⟩ }) rfl hopen]
      refine ⟨_, rfl, hinv, h.dispatching, { hreading with },
        { hlog with },
        .active { stream with remoteComplete := true } ?_⟩
      have hstreams := update_single hactive.streams fun stream => { stream with remoteComplete := true }
      exact hactive.complete d hremote hdeferred hstreams rfl rfl rfl hactive.wants hdecoded
    · rename_i hempty
      obtain ⟨hnone, hdeferred, hdecoded⟩ := hgiven
      obtain ⟨t, ht, hinv⟩ := manage_inv h.manager
        (e := .decodeHeaders stream.id false r.headers true)
        ⟨h.dispatching, hactive.mem_find (by rw [hnone]; rfl)⟩ h.phase.wants (by simp)
      rw [ConnectionManagerImpl.step, some_inj] at ht
      subst ht
      rw [onMessageComplete_headers hactive.request hdeferred, decodeHeaders_eq (s := { s.pause d with
        activeRequest := some ⟨stream.id, true⟩
        deferredEndStreamHeaders := none }) hactive.isOpen]
      refine ⟨_, rfl, hinv, h.dispatching, { hreading with },
        { hlog with decoded := ?_, decoded_le := ?_ }, .active { stream with
          requestHeaders := some (config.protocol false, r.headers)
          remoteComplete := true
          sawConnectionClose := sawConnectionClose (config.protocol false) r.headers.1 } ?_⟩
      · have hlogged := headersInOrder_concat h.log.requests h.log.decoded hdecoded
        have hsame : (s.pause d).decoded = s.decoded := rfl
        rw [hsame, hid, length_append, hdecoded]
        exact hlogged
      · have hsame : (s.pause d).decoded = s.decoded := rfl
        have hcount := hlog.count
        rw [length_append] at hcount
        rw [hsame, length_append, hdecoded]
        exact hcount.symm.le
      · have hstreams := update_single hactive.streams fun stream => { stream with
          requestHeaders := some (config.protocol false, r.headers)
          remoteComplete := true
          sawConnectionClose := sawConnectionClose (config.protocol false) r.headers.1 }
        refine hactive.complete d hremote rfl hstreams rfl rfl rfl ?_ ?_
        · have hprotocol : config.protocol false = .http11 := by
            rw [DrainConfig.protocol, hhttp]
            rfl
          rw [ActiveStream.wantsClose, hprotocol, any_some]
          exact r.keepsOpen
        · rw [length_append]
          exact congrArg (· + 1) hdecoded
  · rw [onMessageComplete_none hrequest]
    refine ⟨_, rfl, h.manager, h.dispatching, hreading, hlog, .closed ?_⟩
    exact ⟨hclosed.isOpen, hclosed.streams, fun _ => hrequest, by rintro _ ⟨⟩ ⟨⟩, by rintro ⟨⟩⟩

theorem Called.callback (hhttp : config.http2 = false) {c : RequestCallback}
    (h : Called At config rs s d done pos pos') (hraises : Raises pos used c pos') :
    ∃ s' done', s.onCallback config d c = some s' ∧ Live At config rs s' done' pos' := by
  cases hraises with
  | messageBegin rest hused hhead =>
    obtain ⟨s', hs', hlive⟩ := h.messageBegin hused hhead
    exact ⟨s', done, hs', hlive⟩
  | headersComplete r used left rest =>
    obtain ⟨s', hs', hlive⟩ := h.headersComplete hhttp
    exact ⟨s', done, hs', hlive⟩
  | body used left data rest hbody =>
    obtain ⟨s', hs', hlive⟩ := h.body hbody
    exact ⟨s', done, hs', hlive⟩
  | messageComplete r used rest =>
    obtain ⟨s', hs', hlive⟩ := h.messageComplete hhttp
    exact ⟨s', _, hs', hlive⟩

end Meliproxy.Envoy.Http.Http1.ServerConnectionImpl
