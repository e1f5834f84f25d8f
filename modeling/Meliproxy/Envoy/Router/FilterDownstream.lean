import Meliproxy.Envoy.Router.FilterUpstream

/-!
# The router and the downstream

What the connection manager and the back-off timer make of a stage. An attempt begins with the
request headers or with a retry, and `newStream` may end it before it returns.
-/

namespace Meliproxy.Envoy.Router

open Lib Option

namespace Filter

section Downstream

variable {s s' : Filter} {u : UpstreamRequest} {i : Inputs}

/-- A filter that may start an attempt. -/
structure Bare (s : Filter) : Prop where
  decoded : s.decoded = true
  streamDestroyed : s.streamDestroyed = false
  trace : s.trace = []
  notStarted : s.downstreamResponseStarted = false
  pool : s.pool = false
  stream : s.stream = none
  timer : TimerOff s
  active : s.downstreamEndStream = true → Active s

/-- The attempt that a new upstream request begins. -/
structure Begins (s s' : Filter) (endStream : Bool) (u : UpstreamRequest) : Prop where
  eq : ∃ pool stream sent poolReady, s' = { s with
    upstreamRequest := some u
    attempts := s.attempts + 1
    pool := pool
    stream := stream
    sent := sent
    poolReady := poolReady }
  link : Pooled s' u ∨ Connected s' u false
  complete : u.encodeComplete = endStream
  perTry : u.perTryTimeout = false
  body : u.bufferedRequestBody = none
  trailers : u.encodeTrailers = false

theorem Bare.cut (h : Bare s) (u : UpstreamRequest) (attempts : Nat) (sent : List (Nat × Frame))
    (poolReady : List (Nat × Bool)) : Cut ({ s with
      attempts := attempts
      sent := sent
      poolReady := poolReady }.cut u) where
  decoded := h.decoded
  streamDestroyed := h.streamDestroyed
  pool := rfl
  stream := rfl
  trace := .inl ⟨h.notStarted, h.trace⟩
  host := by
    intro hstarted
    rw [h.notStarted] at hstarted
    cases hstarted
  active := by
    intro hend
    have hactive := h.active hend
    exact ⟨h.decoded, h.streamDestroyed, hactive.complete, hactive.timeout⟩

def newRequest (endStream : Bool) : UpstreamRequest :=
  ⟨false, false, none, false, false, endStream, false, false⟩

theorem newUpstreamRequest_begins (h : Bare s) (endStream : Bool) (n : NewStream) :
    (∃ s' u, s.newUpstreamRequest endStream n i = some s' ∧ Begins s s' endStream u) ∨
      ∃ t s', s.newUpstreamRequest endStream n i = some s' ∧ Cut t ∧ After t s' ∧
        t.downstreamEndStream = s.downstreamEndStream := by
  cases n with
  | pending =>
    exact .inl ⟨_, _, rfl, ⟨_, _, _, _, rfl⟩, .inl ⟨rfl, rfl, rfl, h.stream⟩, rfl, rfl, rfl, rfl⟩
  | ready reset =>
    cases reset with
    | none =>
      exact .inl ⟨_, _, rfl, ⟨_, _, _, _, rfl⟩, .inr ⟨rfl, rfl, rfl, rfl, rfl⟩, rfl, rfl, rfl,
        rfl⟩
    | some reason =>
      have hcut := h.cut { ready (newRequest endStream) with requestEncoder := false }
        (s.attempts + 1) (s.sent ++ [(s.attempts + 1, headersFrame (newRequest endStream))])
        (s.poolReady ++ [(s.attempts + 1, true)])
      obtain ⟨s', hs', hafter⟩ := onReset_after (i := i) hcut reason
      exact .inr ⟨_, s', hs', hcut, hafter, rfl⟩
  | failure reason host =>
    have hcut := h.cut { newRequest endStream with upstreamHost := host } (s.attempts + 1) s.sent
      s.poolReady
    obtain ⟨s', hs', hafter⟩ := onReset_after (i := i) hcut (PoolFailureReason.toReset reason)
    refine .inr ⟨_, s', ?_, hcut, hafter, rfl⟩
    rw [← hs']
    simp only [newUpstreamRequest, onPoolFailure, onResetStream, Filter.cut, newRequest]

theorem onRequestComplete_done (h : Done s) : ∃ s', s.onRequestComplete = some s' ∧ Done s' := by
  unfold onRequestComplete
  simp only [h.upstreamRequest]
  exact ⟨_, rfl, { h with upstreamRequest := rfl }, h.answered,
    h.open_ends⟩

theorem onRequestComplete_eq (hu : s.upstreamRequest = some u) (hper : u.perTryTimeout = false) :
    s.onRequestComplete = some { s with
      downstreamEndStream := true
      upstreamRequest := some { u with perTryTimeout := 0 < s.timeout.perTryTimeout }
      responseTimeout := s.responseTimeout || 0 < s.timeout.globalTimeout } := by
  simp [onRequestComplete, hu, setupPerTryTimeout, hper]

theorem armed (s : Filter) : (s.responseTimeout || decide (0 < s.timeout.globalTimeout)) = true ∨
    s.timeout.globalTimeout = 0 := by
  rcases Nat.eq_zero_or_pos s.timeout.globalTimeout with h | h
  · exact .inr h
  · simp [h]

theorem completeIf_trying (hdecoded : s.decoded = true) (hopen : s.streamDestroyed = false)
    (htrace : s.trace = []) (hstarted : s.downstreamResponseStarted = false)
    (hu : s.upstreamRequest = some u) (hlink : Pooled s u ∨ Connected s u false)
    (htimer : TimerOff s) (hper : u.perTryTimeout = false) {endStream : Bool}
    (hcomplete : u.encodeComplete = endStream) (hremote : s.remoteComplete = endStream)
    (hend : s.downstreamEndStream = false) : ∃ s', s.completeIf endStream = some s' ∧ Stage s' := by
  cases endStream with
  | false =>
    refine ⟨s, rfl, .trying u ⟨⟨hdecoded, hopen, hend.trans hremote.symm, ?_⟩, htrace, hstarted⟩
      ⟨hu, hcomplete.trans hend.symm, fun _ => hper⟩ hlink htimer⟩
    intro h
    rw [hend] at h
    cases h
  | true =>
    refine ⟨_, onRequestComplete_eq hu hper, .trying _ ⟨⟨hdecoded, hopen, hremote.symm, fun _ => armed s⟩,
      htrace, hstarted⟩ ⟨rfl, hcomplete, fun h => by cases h⟩ ?_ htimer⟩
    rcases hlink with h | h
    · exact .inl { h with }
    · exact .inr { h with }

theorem completeIf_done (h : Done s) (endStream : Bool) :
    ∃ s', s.completeIf endStream = some s' ∧ Done s' := by
  cases endStream with
  | false => exact ⟨s, rfl, h⟩
  | true => exact onRequestComplete_done h

theorem immediate_done (hquiet : Quiet s) (hdecoded : s.decoded = true) (htrace : s.trace = [])
    (headers : ResponseHeaders) : Done (s.call (.encodeHeaders headers true)) where
  upstreamRequest := hquiet.upstreamRequest
  retryState := hquiet.retryState
  responseTimeout := hquiet.responseTimeout
  pool := hquiet.pool
  stream := hquiet.stream
  answered := by
    change Answered (s.trace ++ [_])
    rw [htrace]
    exact answered_start _ _
  open_ends := by
    intro _
    refine ⟨hdecoded, ?_⟩
    change (s.trace ++ [_]).any Call.ends = true
    simp [Call.ends]

theorem fresh_of_notDecoded (h : Stage s) (hopen : s.streamDestroyed = false)
    (hdecoded : s.decoded = false) :
    Quiet s ∧ s.trace = [] ∧ s.downstreamResponseStarted = false ∧ s.downstreamEndStream = false := by
  have hno : s.decoded = true → False := by
    intro hyes
    rw [hdecoded] at hyes
    cases hyes
  cases h with
  | fresh quiet _ trace _ notStarted notComplete => exact ⟨quiet, trace, notStarted, notComplete⟩
  | trying u unanswered => exact absurd unanswered.decoded hno
  | backoff r unanswered => exact absurd unanswered.decoded hno
  | responding u active => exact absurd active.decoded hno
  | done done => exact absurd (done.open_ends hopen).1 hno

theorem decodeHeaders_stage (h : Stage s) (hopen : s.streamDestroyed = false)
    (hdecoded : s.decoded = false) (route : Route) (endStream : Bool) :
    ∃ s', (s.accept endStream).decodeHeaders route endStream i = some s' ∧ Stage s' := by
  obtain ⟨hquiet, htrace, hstarted, hend⟩ := fresh_of_notDecoded h hopen hdecoded
  have hquiet' : Quiet (s.accept endStream) := { hquiet with }
  cases route with
  | noRoute | redirect | noCluster => exact ⟨_, rfl, .done (immediate_done hquiet' rfl htrace _)⟩
  | maintenanceMode =>
    obtain ⟨s', hs', hdone⟩ := sendLocalReply_done (i := i) hquiet' hopen rfl htrace 503
      (ascii "maintenance mode") true
    exact ⟨s', hs', .done hdone⟩
  | noHealthyUpstream =>
    obtain ⟨s', hs', hdone⟩ := sendLocalReply_done (i := i) hquiet' hopen rfl htrace 503
      (ascii "no healthy upstream") false
    exact ⟨s', hs', .done hdone⟩
  | forward timeout altResponse retry doShadowing grpcRequest n =>
    have hbare : Bare ((s.accept endStream).prepare timeout altResponse retry doShadowing
        grpcRequest) := by
      refine ⟨rfl, hopen, htrace, hstarted, hquiet.pool, hquiet.stream, ?_, ?_⟩
      · intro r hr
        obtain ⟨policy, -, rfl⟩ := map_eq_some_iff.mp hr
        rfl
      · intro hcomplete
        change s.downstreamEndStream = true at hcomplete
        rw [hend] at hcomplete
        cases hcomplete
    simp only [decodeHeaders]
    rcases newUpstreamRequest_begins (i := i) hbare endStream n with
      ⟨s₁, u, hs₁, hbegins⟩ | ⟨t, s₁, hs₁, hcut, hafter, hsame⟩
    · rw [hs₁, bind_some]
      obtain ⟨pool, stream, sent, poolReady, rfl⟩ := hbegins.eq
      apply completeIf_trying
      · rfl
      · exact hopen
      · exact htrace
      · exact hstarted
      · rfl
      · exact hbegins.link
      · exact hbare.timer
      · exact hbegins.perTry
      · exact hbegins.complete
      · rfl
      · exact hend
    · rw [hs₁, bind_some]
      cases hafter with
      | ends done =>
        obtain ⟨s', hs', hdone⟩ := completeIf_done done endStream
        exact ⟨s', hs', .done hdone⟩
      | retries r eq notStarted timer enabled complete =>
        rw [hsame] at complete
        change s.downstreamEndStream = true at complete
        rw [hend] at complete
        cases complete

theorem encodeData_eq (hcomplete : u.encodeComplete = false) (data : Bytes) (endStream : Bool) :
    ∃ body sent, s.encodeData u data endStream = some { s with
      upstreamRequest := some { u with
        encodeComplete := endStream
        bufferedRequestBody := body }
      sent := sent } := by
  unfold encodeData
  rw [if_neg (by rw [hcomplete]; exact Bool.false_ne_true)]
  by_cases hencoder : u.requestEncoder = true
  · rw [if_pos hencoder]
    exact ⟨_, _, rfl⟩
  · rw [if_neg hencoder]
    exact ⟨_, _, rfl⟩

theorem encodeTrailers_eq (hcomplete : u.encodeComplete = false) :
    ∃ sent, s.encodeTrailers u = some { s with
      upstreamRequest := some { u with
        encodeComplete := true
        encodeTrailers := true }
      sent := sent } := by
  unfold encodeTrailers
  rw [if_neg (by rw [hcomplete]; exact Bool.false_ne_true)]
  by_cases hencoder : u.requestEncoder = true
  · simp only [if_pos hencoder]
    exact ⟨_, rfl⟩
  · simp only [if_neg hencoder]
    exact ⟨_, rfl⟩

theorem completeIf_responding (hdecoded : s.decoded = true) (hopen : s.streamDestroyed = false)
    (hbegun : Begun s.trace) (hstarted : s.downstreamResponseStarted = true)
    (hu : s.upstreamRequest = some u) (hlink : Connected s u true) (hretry : s.retryState = none)
    (hper : u.perTryTimeout = false) {endStream : Bool} (hcomplete : u.encodeComplete = endStream)
    (hremote : s.remoteComplete = endStream) (hend : s.downstreamEndStream = false) :
    ∃ s', s.completeIf endStream = some s' ∧ Stage s' := by
  cases endStream with
  | false =>
    refine ⟨s, rfl, .responding u ⟨hdecoded, hopen, hend.trans hremote.symm, ?_⟩ hbegun hstarted
      ⟨hu, hcomplete.trans hend.symm, fun _ => hper⟩ hlink hretry⟩
    intro h
    rw [hend] at h
    cases h
  | true =>
    exact ⟨_, onRequestComplete_eq hu hper, .responding _ ⟨hdecoded, hopen, hremote.symm,
      fun _ => armed s⟩ hbegun hstarted ⟨rfl, hcomplete, fun h => by cases h⟩
      { hlink with } hretry⟩

theorem Stage.setBuffer (h : Stage s) (buffer : Option Bytes) :
    Stage { s with decodingBuffer := buffer } := by
  cases h with
  | fresh q decoded trace open_ notStarted notComplete =>
    exact .fresh { q with } decoded trace
      open_ notStarted notComplete
  | trying u un follows link timer =>
    refine .trying u ⟨{ un with }, un.trace,
      un.notStarted⟩ { follows with } ?_ timer
    rcases link with l | l
    · exact .inl { l with }
    · exact .inr { l with }
  | backoff r un upstreamRequest pool stream retryState timer enabled complete =>
    exact .backoff r ⟨{ un with }, un.trace,
      un.notStarted⟩ upstreamRequest pool stream retryState timer enabled complete
  | responding u act begun started follows l retryState =>
    exact .responding u { act with } begun started
      { follows with }
      { l with } retryState
  | done d =>
    exact .done ⟨{ d with }, d.answered,
      d.open_ends⟩

theorem localComplete_begun (h : Begun s.trace) : s.localComplete = false := by
  unfold localComplete
  rw [List.any_eq_false]
  intro b hb
  rw [(h.goesOn b hb).1]
  exact Bool.false_ne_true

theorem Done.setRemoteComplete (h : Done s) (complete : Bool) :
    Done (s.setRemoteComplete complete) := ⟨{ h with }, h.answered, h.open_ends⟩

/-- What has been passed on changes the upstream request, and may give up the retries. -/
structure PassedOn (s t : Filter) (u u' : UpstreamRequest) (endStream : Bool) : Prop where
  decoded : t.decoded = s.decoded
  streamDestroyed : t.streamDestroyed = s.streamDestroyed
  trace : t.trace = s.trace
  started : t.downstreamResponseStarted = s.downstreamResponseStarted
  pool : t.pool = s.pool
  stream : t.stream = s.stream
  downstreamEnd : t.downstreamEndStream = s.downstreamEndStream
  remoteComplete : t.remoteComplete = endStream
  retryState : t.retryState = none ∨ t.retryState = s.retryState
  upstreamRequest : t.upstreamRequest = some u'
  handle : u'.connPoolStreamHandle = u.connPoolStreamHandle
  encoder : u'.requestEncoder = u.requestEncoder
  host : u'.upstreamHost = u.upstreamHost
  perTry : u'.perTryTimeout = u.perTryTimeout
  complete : u'.encodeComplete = endStream

theorem map_stage {x : Option Filter} {buffering : Bool} (h : ∃ t, x = some t ∧ Stage t) :
    ∃ t, x.map (fun t => (t, buffering)) = some (t, buffering) ∧ Stage t := by
  obtain ⟨t, rfl, hstage⟩ := h
  exact ⟨t, rfl, hstage⟩

theorem completeIf_true (s : Filter) : s.completeIf true = s.onRequestComplete := rfl

section

variable (h : Stage s) (hopen : s.streamDestroyed = false) (hlocal : s.localComplete = false)
  (hdecoded : s.decoded = true) (hremote : s.remoteComplete = false)

include h hopen hlocal hdecoded hremote

theorem Stage.passOn : ∃ u, s.upstreamRequest = some u ∧ u.encodeComplete = false ∧
      ∀ t u' endStream, PassedOn s t u u' endStream →
        ∃ t', t.completeIf endStream = some t' ∧ Stage t' := by
  cases h with
  | fresh quiet notDecoded =>
    rw [notDecoded] at hdecoded
    cases hdecoded
  | trying u un follows link timer =>
    have hend : s.downstreamEndStream = false := un.complete.trans hremote
    refine ⟨u, follows.upstreamRequest, follows.complete.trans hend, fun t u' endStream p => ?_⟩
    apply completeIf_trying (p.decoded.trans hdecoded) (p.streamDestroyed.trans hopen)
      (p.trace.trans un.trace) (p.started.trans un.notStarted) p.upstreamRequest ?_ ?_
      (p.perTry.trans (follows.perTry hend)) p.complete p.remoteComplete (p.downstreamEnd.trans hend)
    · rcases link with l | l
      · exact .inl ⟨p.handle.trans l.handle, p.encoder.trans l.encoder, p.pool.trans l.pool,
          p.stream.trans l.stream⟩
      · exact .inr ⟨p.handle.trans l.handle, p.encoder.trans l.encoder, p.host.trans l.host,
          p.pool.trans l.pool, p.stream.trans l.stream⟩
    · intro r hr
      rcases p.retryState with hnone | hsame
      · rw [hnone] at hr
        cases hr
      · exact timer r (hsame ▸ hr)
  | backoff r un upstreamRequest pool stream retryState timer enabled complete =>
    rw [un.complete, hremote] at complete
    cases complete
  | responding u act begun started follows l retryState =>
    have hend : s.downstreamEndStream = false := act.complete.trans hremote
    refine ⟨u, follows.upstreamRequest, follows.complete.trans hend, fun t u' endStream p => ?_⟩
    apply completeIf_responding (p.decoded.trans hdecoded) (p.streamDestroyed.trans hopen)
      (p.trace ▸ begun) (p.started.trans started) p.upstreamRequest
      ⟨p.handle.trans l.handle, p.encoder.trans l.encoder, p.host.trans l.host,
        p.pool.trans l.pool, p.stream.trans l.stream⟩ ?_ (p.perTry.trans (follows.perTry hend))
      p.complete p.remoteComplete (p.downstreamEnd.trans hend)
    exact p.retryState.elim id fun hsame => hsame.trans retryState
  | done d =>
    rw [(d.open_ends hopen).2] at hlocal
    cases hlocal

theorem decodeData_stage (data : Bytes) (endStream : Bool) :
    ∃ t, (s.setRemoteComplete endStream).decodeData data endStream =
      some (t, s.buffers && !s.overLimit data) ∧ Stage t := by
  obtain ⟨u, hu, hcomplete, hnext⟩ := h.passOn hopen hlocal hdecoded hremote
  obtain ⟨body, sent, hencode⟩ := encodeData_eq
    (s := (s.setRemoteComplete endStream).receive data) hcomplete data endStream
  have hretry : ((s.setRemoteComplete endStream).receive data).retryState = none ∨
      ((s.setRemoteComplete endStream).receive data).retryState = s.retryState := by
    simp only [receive]
    split
    · exact .inl rfl
    · exact .inr rfl
  rw [decodeData, show (s.setRemoteComplete endStream).upstreamRequest = some u from hu,
    bind_some, hencode, bind_some]
  exact map_stage (hnext _ _ endStream
    ⟨rfl, rfl, rfl, rfl, rfl, rfl, rfl, rfl, hretry, rfl, rfl, rfl, rfl, rfl, rfl⟩)

theorem decodeTrailers_stage :
    ∃ s', (s.setRemoteComplete true).decodeTrailers = some s' ∧ Stage s' := by
  obtain ⟨u, hu, hcomplete, hnext⟩ := h.passOn hopen hlocal hdecoded hremote
  obtain ⟨sent, hencode⟩ := encodeTrailers_eq
    (s := { s.setRemoteComplete true with downstreamTrailers := true }) hcomplete
  simp only [decodeTrailers, setRemoteComplete, hu, bind_some] at hencode ⊢
  rw [hencode, bind_some, ← completeIf_true]
  exact hnext _ _ true
    ⟨rfl, rfl, rfl, rfl, rfl, rfl, rfl, rfl, .inr rfl, rfl, rfl, rfl, rfl, rfl, rfl⟩

end

theorem done_of_localComplete (h : Stage s) (hlocal : s.localComplete = true) : Done s := by
  have hempty : s.trace ≠ [] := by
    intro hnil
    rw [localComplete, hnil] at hlocal
    cases hlocal
  cases h with
  | fresh quiet notDecoded trace => exact absurd trace hempty
  | trying u un => exact absurd un.trace hempty
  | backoff r un => exact absurd un.trace hempty
  | responding u act begun =>
    rw [localComplete_begun begun] at hlocal
    cases hlocal
  | done d => exact d

theorem onData_stage (h : Stage s) (hopen : s.streamDestroyed = false) (hdecoded : s.decoded = true)
    (hremote : s.remoteComplete = false) (data : Bytes) (endStream : Bool) :
    ∃ s', s.onData data endStream = some s' ∧ Stage s' := by
  unfold onData
  by_cases hlocal : (s.setRemoteComplete endStream).localComplete = true
  · simp only [if_pos hlocal]
    exact ⟨_, rfl, .done ((done_of_localComplete h hlocal).setRemoteComplete endStream)⟩
  · simp only [if_neg hlocal]
    obtain ⟨t, ht, hstage⟩ := decodeData_stage h hopen (Bool.eq_false_iff.mpr hlocal) hdecoded
      hremote data endStream
    rw [ht, map_some]
    cases s.buffers && !s.overLimit data with
    | true => exact ⟨_, rfl, hstage.setBuffer _⟩
    | false => exact ⟨_, rfl, hstage⟩

theorem onTrailers_stage (h : Stage s) (hopen : s.streamDestroyed = false) (hdecoded : s.decoded = true)
    (hremote : s.remoteComplete = false) : ∃ s', s.onTrailers = some s' ∧ Stage s' := by
  unfold onTrailers
  by_cases hlocal : (s.setRemoteComplete true).localComplete = true
  · simp only [if_pos hlocal]
    exact ⟨_, rfl, .done ((done_of_localComplete h hlocal).setRemoteComplete true)⟩
  · simp only [if_neg hlocal]
    exact decodeTrailers_stage h hopen (Bool.eq_false_iff.mpr hlocal) hdecoded hremote

def replayFrames (buffer : Option Bytes) (trailers : Bool) : List Frame :=
  (match buffer with
    | none => []
    | some body => [.data body (!trailers)]) ++
    if trailers then [.trailers] else []

theorem replay_pooled (hu : s.upstreamRequest = some u) (hencoder : u.requestEncoder = false)
    (hbody : u.bufferedRequestBody = none) (htrailers : u.encodeTrailers = false)
    (hcomplete : u.encodeComplete = (s.decodingBuffer = none && !s.downstreamTrailers))
    (hper : u.perTryTimeout = false) : s.replay = some { s with upstreamRequest := some { u with
      bufferedRequestBody := s.decodingBuffer
      encodeComplete := true
      encodeTrailers := s.downstreamTrailers
      perTryTimeout := 0 < s.timeout.perTryTimeout } } := by
  obtain ⟨h, e, b, o, p, c, t, g⟩ := u
  simp only at hencoder hbody htrailers hcomplete hper
  subst hencoder hbody htrailers hper
  cases hbuffer : s.decodingBuffer with
  | none =>
    cases htr : s.downstreamTrailers with
    | false =>
      simp [replay, replayData, replayTrailers, setupPerTryTimeout, hu, hbuffer, htr, hcomplete]
    | true =>
      simp [replay, replayData, replayTrailers, setupPerTryTimeout, encodeTrailers, hu, hbuffer, htr,
        hcomplete]
  | some body =>
    cases htr : s.downstreamTrailers with
    | false =>
      simp [replay, replayData, replayTrailers, setupPerTryTimeout, encodeData, hu, hbuffer, htr,
        hcomplete]
    | true =>
      simp [replay, replayData, replayTrailers, setupPerTryTimeout, encodeData, encodeTrailers, hu,
        hbuffer, htr, hcomplete]

theorem replay_connected (hu : s.upstreamRequest = some u) (hencoder : u.requestEncoder = true)
    (htrailers : u.encodeTrailers = false)
    (hcomplete : u.encodeComplete = (s.decodingBuffer = none && !s.downstreamTrailers))
    (hper : u.perTryTimeout = false) : s.replay = some ({ s with upstreamRequest := some { u with
      encodeComplete := true
      encodeTrailers := s.downstreamTrailers
      perTryTimeout := 0 < s.timeout.perTryTimeout } }.send
        (replayFrames s.decodingBuffer s.downstreamTrailers)) := by
  obtain ⟨h, e, b, o, p, c, t, g⟩ := u
  simp only at hencoder htrailers hcomplete hper
  subst hencoder htrailers hper
  cases hbuffer : s.decodingBuffer with
  | none =>
    cases htr : s.downstreamTrailers with
    | false =>
      simp [replay, replayData, replayTrailers, setupPerTryTimeout, hu, hbuffer, htr, hcomplete, send,
        replayFrames]
    | true =>
      simp [replay, replayData, replayTrailers, setupPerTryTimeout, encodeTrailers, hu, hbuffer, htr,
        hcomplete, send, replayFrames]
  | some body =>
    cases htr : s.downstreamTrailers with
    | false =>
      simp [replay, replayData, replayTrailers, setupPerTryTimeout, encodeData, hu, hbuffer, htr,
        hcomplete, send, replayFrames]
    | true =>
      simp [replay, replayData, replayTrailers, setupPerTryTimeout, encodeData, encodeTrailers, hu,
        hbuffer, htr, hcomplete, send, replayFrames]

theorem backoff_of_timer (h : Stage s) (htimer : s.retryState.any RetryState.retryTimer = true) :
    ∃ r, Unanswered s ∧ s.upstreamRequest = none ∧ s.pool = false ∧ s.stream = none ∧
      s.retryState = some r ∧ r.enabled = true ∧ s.downstreamEndStream = true := by
  cases h with
  | fresh quiet =>
    rw [quiet.retryState] at htimer
    cases htimer
  | trying u un follows link timer =>
    cases hr : s.retryState with
    | none =>
      rw [hr] at htimer
      cases htimer
    | some r =>
      rw [hr, any_some, timer r hr] at htimer
      cases htimer
  | backoff r un upstreamRequest pool stream retryState timer enabled complete =>
    exact ⟨r, un, upstreamRequest, pool, stream, retryState, enabled, complete⟩
  | responding u act begun started follows l retryState =>
    rw [retryState] at htimer
    cases htimer
  | done d =>
    rw [d.retryState] at htimer
    cases htimer

def retrying (s : Filter) (r : RetryState) : Filter :=
  { s with retryState := some { r with retryTimer := false } }

theorem bare_retrying (h : Unanswered s) (hpool : s.pool = false) (hstream : s.stream = none)
    (r : RetryState) : Bare (s.retrying r) where
  decoded := h.decoded
  streamDestroyed := h.streamDestroyed
  trace := h.trace
  notStarted := h.notStarted
  pool := hpool
  stream := hstream
  timer := by
    intro r' hr'
    cases hr'
    rfl
  active := fun _ => { h with }

theorem replay_stage (hun : Unanswered s) (hend : s.downstreamEndStream = true)
    (htimer : TimerOff s) (hu : s.upstreamRequest = some u)
    (hlink : Pooled s u ∨ Connected s u false) (hbody : u.bufferedRequestBody = none)
    (htrailers : u.encodeTrailers = false)
    (hcomplete : u.encodeComplete = (s.decodingBuffer = none && !s.downstreamTrailers))
    (hper : u.perTryTimeout = false) : ∃ s', s.replay = some s' ∧ Stage s' := by
  have hopen : ∀ p : Bool, s.downstreamEndStream = false → p = false := by
    intro p hno
    rw [hend] at hno
    cases hno
  rcases hlink with l | l
  · refine ⟨_, replay_pooled hu l.encoder hbody htrailers hcomplete hper, ?_⟩
    exact .trying _ ⟨{ hun with }, hun.trace,
      hun.notStarted⟩ ⟨rfl, hend.symm, hopen _⟩ (.inl { l with }) htimer
  · refine ⟨_, replay_connected hu l.encoder htrailers hcomplete hper, ?_⟩
    exact .trying _ ⟨{ hun with }, hun.trace,
      hun.notStarted⟩ ⟨rfl, hend.symm, hopen _⟩ (.inr { l with })
      htimer

theorem onRetryTimer_stage (h : Stage s) (htimer : s.retryState.any RetryState.retryTimer = true)
    (n : Option NewStream) : ∃ s', s.onRetryTimer n i = some s' ∧ Stage s' := by
  obtain ⟨r, hun, hup, hpool, hstream, hretry, -, hend⟩ := backoff_of_timer h htimer
  rw [onRetryTimer, hretry, bind_some]
  change ∃ s', (s.retrying r).doRetry n i = some s' ∧ Stage s'
  cases n with
  | none =>
    rw [doRetry, sendNoHealthyUpstreamResponse, sendLocalReply_cleanup (s := s.retrying r) hup]
    obtain ⟨s', hs', hdone⟩ := sendLocalReply_done (s := (s.retrying r).cleanup) (i := i)
      ⟨rfl, rfl, rfl, hpool, hstream⟩ hun.streamDestroyed hun.decoded hun.trace 503
      (ascii "no healthy upstream") false
    exact ⟨s', hs', .done hdone⟩
  | some n =>
    have hguard : ¬ (((s.retrying r).responseTimeout = false ∧
        (s.retrying r).timeout.globalTimeout ≠ 0) ∨ (s.retrying r).upstreamRequest ≠ none) := by
      rintro (⟨hoff, hglobal⟩ | hbusy)
      · rcases hun.timeout hend with hon | hzero
        · change s.responseTimeout = false at hoff
          rw [hon] at hoff
          cases hoff
        · exact hglobal hzero
      · exact hbusy hup
    rw [doRetry]
    simp only [if_neg hguard]
    rcases newUpstreamRequest_begins (i := i) (bare_retrying hun hpool hstream r)
        ((s.retrying r).decodingBuffer = none && !(s.retrying r).downstreamTrailers) n with
      ⟨s₁, u, hs₁, hbegins⟩ | ⟨t, s₁, hs₁, hcut, hafter, -⟩
    · rw [hs₁, bind_some]
      obtain ⟨pool, stream, sent, poolReady, rfl⟩ := hbegins.eq
      apply replay_stage
      · exact ⟨{ hun with }, hun.trace,
          hun.notStarted⟩
      · exact hend
      · exact (bare_retrying hun hpool hstream r).timer
      · rfl
      · exact hbegins.link
      · exact hbegins.body
      · exact hbegins.trailers
      · exact hbegins.complete
      · exact hbegins.perTry
    · rw [hs₁, bind_some, replay, if_pos hafter.upstreamRequest]
      exact ⟨s₁, rfl, hafter.stage hcut⟩

end Downstream

end Filter

end Meliproxy.Envoy.Router
