import Meliproxy.Envoy.Router.FilterLog

/-!
# What a retry sends

A retry begins when the request is complete, and while a retry is possible the decoding buffer
holds the whole body. So an attempt that is a retry has the whole request at hand, whether the
pool is ready at once or later.
-/

namespace Meliproxy.Envoy.Router

open Lib List Option

namespace Filter

section Log

variable {s s' t : Filter} {u : UpstreamRequest} {i : Inputs}

/-- What passing on data or trailers changes is the upstream request, the timers and the frames
of the attempt. -/
structure Passed (s s' : Filter) : Prop where
  sent : ∀ f ∈ s'.sent, f ∈ s.sent ∨ f.1 = s.attempts
  poolReady : s'.poolReady = s.poolReady
  attempts : s'.attempts = s.attempts
  received : s'.received = s.received
  decodingBuffer : s'.decodingBuffer = s.decodingBuffer
  exceeded : s'.exceeded = s.exceeded
  decoded : s'.decoded = s.decoded
  retryState : s'.retryState = s.retryState

theorem Passed.trans (h : Passed s t) (h' : Passed t s') : Passed s s' where
  sent := by
    intro f hf
    rcases h'.sent f hf with hf | hf
    · exact h.sent f hf
    · exact .inr (hf.trans h.attempts)
  poolReady := h'.poolReady.trans h.poolReady
  attempts := h'.attempts.trans h.attempts
  received := h'.received.trans h.received
  decodingBuffer := h'.decodingBuffer.trans h.decodingBuffer
  exceeded := h'.exceeded.trans h.exceeded
  decoded := h'.decoded.trans h.decoded
  retryState := h'.retryState.trans h.retryState

theorem passed_send (s : Filter) (u : Option UpstreamRequest) (frames : List Frame) :
    Passed s ({ s with upstreamRequest := u }.send frames) := by
  refine ⟨?_, rfl, rfl, rfl, rfl, rfl, rfl, rfl⟩
  intro f hf
  rcases mem_append.mp hf with hf | hf
  · exact .inl hf
  · obtain ⟨frame, -, rfl⟩ := List.mem_map.mp hf
    exact .inr rfl

variable {data : Bytes} {endStream : Bool}

theorem passed_encodeData (hs : s.encodeData u data endStream = some s') : Passed s s' := by
  unfold encodeData at hs
  split at hs
  · cases hs
  split at hs
  · cases hs
    exact passed_send s _ _
  · cases hs
    exact ⟨fun _ hf => .inl hf, rfl, rfl, rfl, rfl, rfl, rfl, rfl⟩

theorem passed_encodeTrailers (hs : s.encodeTrailers u = some s') : Passed s s' := by
  unfold encodeTrailers at hs
  split at hs
  · cases hs
  · cases hs
    split
    · exact passed_send s _ _
    · exact ⟨fun _ hf => .inl hf, rfl, rfl, rfl, rfl, rfl, rfl, rfl⟩

theorem passed_onRequestComplete (hs : s.onRequestComplete = some s') : Passed s s' := by
  unfold onRequestComplete at hs
  simp only at hs
  split at hs
  · cases hs
    exact ⟨fun _ hf => .inl hf, rfl, rfl, rfl, rfl, rfl, rfl, rfl⟩
  · obtain ⟨t, ht, rfl⟩ := map_eq_some_iff.mp hs
    unfold setupPerTryTimeout at ht
    split at ht
    · cases ht
    · cases ht
      exact ⟨fun _ hf => .inl hf, rfl, rfl, rfl, rfl, rfl, rfl, rfl⟩

theorem passed_completeIf (hs : s.completeIf endStream = some s') : Passed s s' := by
  unfold completeIf at hs
  split at hs
  · exact passed_onRequestComplete hs
  · cases hs
    exact ⟨fun _ hf => .inl hf, rfl, rfl, rfl, rfl, rfl, rfl, rfl⟩

theorem Log.attempts_le_one (h : Log s) (hremote : s.remoteComplete = false) : s.attempts ≤ 1 := by
  by_contra hretry
  have hcomplete := h.later (by omega)
  rw [hremote] at hcomplete
  cases hcomplete

theorem Passed.sent_le (h : Passed s s') (hsent : ∀ f ∈ s.sent, f.1 ≤ s.attempts) :
    ∀ f ∈ s'.sent, f.1 ≤ s'.attempts := by
  intro f hf
  rw [h.attempts]
  rcases h.sent f hf with hf | hf
  · exact hsent f hf
  · exact Nat.le_of_eq hf

theorem Log.passed (h : Log s) (hdecoded : s.decoded = true) (hone : s.attempts ≤ 1)
    (hpassed : Passed s s') : Advances s s' where
  log := by
    apply log_first
    · exact hpassed.decoded.trans hdecoded
    · rw [hpassed.attempts]
      exact hone
    · exact hpassed.sent_le h.replays.sent_le
    · rw [hpassed.poolReady, hpassed.attempts]
      exact h.replays.ready_le
    · rw [hpassed.retryState, hpassed.decodingBuffer, hpassed.received]
      exact h.buffered
    · rw [hpassed.exceeded, hpassed.retryState]
      exact h.disabled
  stops := by
    rw [hpassed.exceeded, hpassed.attempts]
    exact fun hexceeded => ⟨hexceeded, rfl⟩

theorem Log.setRemoteComplete (h : Log s) (hdecoded : s.decoded = true) (hone : s.attempts ≤ 1)
    (complete : Bool) : Advances s (s.setRemoteComplete complete) :=
  h.passed hdecoded hone ⟨fun _ hf => .inl hf, rfl, rfl, rfl, rfl, rfl, rfl, rfl⟩

theorem onTrailers_advances (h : Log s) (hdecoded : s.decoded = true)
    (hremote : s.remoteComplete = false) (hs : s.onTrailers = some s') : Advances s s' := by
  have hone := h.attempts_le_one hremote
  unfold onTrailers at hs
  simp only at hs
  split at hs
  · cases hs
    exact h.setRemoteComplete hdecoded hone true
  · obtain ⟨u, -, hs⟩ := bind_eq_some_iff.mp hs
    obtain ⟨t, ht, hs⟩ := bind_eq_some_iff.mp hs
    apply h.passed hdecoded hone
    refine Passed.trans ?_ ((passed_encodeTrailers ht).trans (passed_onRequestComplete hs))
    exact ⟨fun _ hf => .inl hf, rfl, rfl, rfl, rfl, rfl, rfl, rfl⟩

variable {r : RetryState}

theorem receive_buffers (hr : (s.receive data).retryState = some r) (henabled : r.enabled = true) :
    s.retryState = some r ∧ s.buffers = true ∧ s.overLimit data = false := by
  simp only [receive] at hr
  split at hr
  · cases hr
  · rename_i hkeep
    have hbuffers : s.buffers = true := by
      rw [buffers, hr, any_some, henabled, Bool.true_or]
    rw [hbuffers, Bool.true_and, Bool.not_eq_true] at hkeep
    exact ⟨hr, hbuffers, hkeep⟩

theorem receive_disabled (h : Log s) (hexceeded : (s.receive data).exceeded = true)
    (hr : (s.receive data).retryState = some r) : r.enabled = false := by
  by_contra henabled
  rw [Bool.not_eq_false] at henabled
  obtain ⟨hretry, -, hlimit⟩ := receive_buffers hr henabled
  change (s.exceeded || s.overLimit data) = true at hexceeded
  rw [hlimit, Bool.or_false] at hexceeded
  rw [h.disabled hexceeded r hretry] at henabled
  cases henabled

theorem onData_advances (h : Log s) (hdecoded : s.decoded = true)
    (hremote : s.remoteComplete = false) (hs : s.onData data endStream = some s') :
    Advances s s' := by
  have hone := h.attempts_le_one hremote
  have hset := (h.setRemoteComplete hdecoded hone endStream).log
  unfold onData at hs
  simp only at hs
  split at hs
  · cases hs
    exact h.setRemoteComplete hdecoded hone endStream
  · obtain ⟨⟨t, buffering⟩, ht, rfl⟩ := map_eq_some_iff.mp hs
    obtain ⟨u, -, ht⟩ := bind_eq_some_iff.mp ht
    obtain ⟨t₁, ht₁, ht⟩ := bind_eq_some_iff.mp ht
    obtain ⟨t₂, ht₂, heq⟩ := map_eq_some_iff.mp ht
    obtain ⟨rfl, rfl⟩ := Prod.mk.inj heq
    have hpassed := (passed_encodeData ht₁).trans (passed_completeIf ht₂)
    have hover : s.exceeded = true → t₂.exceeded = true ∧ t₂.attempts = s.attempts := by
      intro hexceeded
      refine ⟨hpassed.exceeded.trans ?_, hpassed.attempts⟩
      change (s.exceeded || _) = true
      rw [hexceeded, Bool.true_or]
    have hsent := hpassed.sent_le (show ∀ f ∈ s.sent, f.1 ≤ s.attempts from h.replays.sent_le)
    have hready : ∀ p ∈ t₂.poolReady, p.1 ≤ t₂.attempts := by
      rw [hpassed.poolReady, hpassed.attempts]
      exact h.replays.ready_le
    have hdisabled : t₂.exceeded = true → ∀ r, t₂.retryState = some r → r.enabled = false := by
      rw [hpassed.exceeded, hpassed.retryState]
      exact fun hexceeded r hr => receive_disabled hset hexceeded hr
    have hone' : t₂.attempts ≤ 1 := hpassed.attempts ▸ hone
    split
    · refine ⟨log_first (hpassed.decoded.trans hdecoded) hone' hsent hready ?_ hdisabled, hover⟩
      intro r hr henabled
      change t₂.retryState = some r at hr
      rw [hpassed.retryState] at hr
      obtain ⟨hretry, -, -⟩ := receive_buffers hr henabled
      change t₂.decodingBuffer.getD [] ++ data = t₂.received
      rw [hpassed.decodingBuffer, hpassed.received]
      exact congrArg (· ++ data) (h.buffered r hretry henabled)
    · rename_i hbuffering
      refine ⟨log_first (hpassed.decoded.trans hdecoded) hone' hsent hready ?_ hdisabled, hover⟩
      intro r hr henabled
      rw [hpassed.retryState] at hr
      obtain ⟨-, hbuffers, hlimit⟩ := receive_buffers hr henabled
      rw [hbuffers, hlimit] at hbuffering
      exact absurd rfl hbuffering

variable {u' : UpstreamRequest}

theorem Log.start (h : Log s) (hdecoded : s.decoded = true)
    (hcomplete : 1 ≤ s.attempts → s.remoteComplete = true)
    (hwaiting : u'.connPoolStreamHandle = true → 1 ≤ s.attempts → u'.encodeComplete = true ∧
      u'.bufferedRequestBody = s.decodingBuffer ∧ u'.encodeTrailers = s.downstreamTrailers ∧
        s.decodingBuffer.getD [] = s.received) (pool : Bool) (stream : Option Bool) : Log { s with
      upstreamRequest := some u'
      attempts := s.attempts + 1
      pool := pool
      stream := stream } where
  fresh := by
    intro hno
    rw [hdecoded] at hno
    cases hno
  later := fun hretry => hcomplete (Nat.le_of_succ_le_succ hretry)
  replays := h.replays.next
  buffered := h.buffered
  waiting := by
    intro v hv hhandle hretry
    cases hv
    obtain ⟨hend, hbuffer, htrailers, hbody⟩ := hwaiting hhandle (Nat.le_of_succ_le_succ hretry)
    refine ⟨hend, hbuffer, htrailers, hbody, framesOf_unsent h.replays.sent_le, ?_⟩
    intro p hp
    exact Nat.ne_of_lt (Nat.lt_succ_of_le (h.replays.ready_le p hp))
  disabled := h.disabled

theorem Log.startReady (h : Log s) (hdecoded : s.decoded = true)
    (hcomplete : 1 ≤ s.attempts → s.remoteComplete = true)
    (hhandle : u'.connPoolStreamHandle = false) (frames : List Frame) (reset : Bool)
    (hframes : 1 ≤ s.attempts → Replayed frames s.received s.downstreamTrailers reset) (pool : Bool)
    (stream : Option Bool) : Log { s with
      upstreamRequest := some u'
      attempts := s.attempts + 1
      pool := pool
      stream := stream
      poolReady := s.poolReady ++ [(s.attempts + 1, reset)]
      sent := s.sent ++ frames.map fun frame => (s.attempts + 1, frame) } where
  fresh := by
    intro hno
    rw [hdecoded] at hno
    cases hno
  later := fun hretry => hcomplete (Nat.le_of_succ_le_succ hretry)
  replays := by
    apply h.replays.next.poolReady
    · exact fun _ => framesOf_unsent h.replays.sent_le
    · exact fun _ p hp => Nat.ne_of_lt (Nat.lt_succ_of_le (h.replays.ready_le p hp))
    · exact fun hretry => hframes (Nat.le_of_succ_le_succ hretry)
  buffered := h.buffered
  waiting := by
    intro v hv hpending
    cases hv
    rw [hhandle] at hpending
    cases hpending
  disabled := h.disabled

theorem newUpstreamRequest_reset (h : Log s) (hdecoded : s.decoded = true)
    (hcomplete : 1 ≤ s.attempts → s.remoteComplete = true) {reason : StreamResetReason}
    (hs : s.newUpstreamRequest endStream (.ready (some reason)) i = some s') :
    Log s' ∧ s'.attempts = s.attempts + 1 ∧ s'.decoded = true := by
  simp only [newUpstreamRequest, onPoolReady_reset] at hs
  have hkept := kept_onUpstreamReset hs
  refine ⟨Log.kept ?_ hkept, hkept.attempts, hkept.decoded.trans hdecoded⟩
  exact h.startReady hdecoded hcomplete rfl [headersFrame (newRequest endStream)] true
    (fun _ => ⟨_, rfl⟩) false none

theorem newUpstreamRequest_failure (h : Log s) (hdecoded : s.decoded = true)
    (hcomplete : 1 ≤ s.attempts → s.remoteComplete = true) {host : Bool}
    {reason : PoolFailureReason}
    (hs : s.newUpstreamRequest endStream (.failure reason host) i = some s') :
    Log s' ∧ s'.attempts = s.attempts + 1 ∧ s'.decoded = true := by
  simp only [newUpstreamRequest] at hs
  have hkept := kept_onPoolFailure rfl hs
  refine ⟨Log.kept ?_ hkept, hkept.attempts, hkept.decoded.trans hdecoded⟩
  exact h.start hdecoded hcomplete (fun hhandle => by cases hhandle) s.pool s.stream

variable {n : NewStream}

theorem newUpstreamRequest_first (h : Log s) (hdecoded : s.decoded = true) (hzero : s.attempts = 0)
    (hs : s.newUpstreamRequest endStream n i = some s') :
    Log s' ∧ s'.attempts = s.attempts + 1 ∧ s'.decoded = true := by
  have hnone : ∀ p : Prop, 1 ≤ s.attempts → p := by
    intro p hone
    omega
  cases n with
  | pending =>
    cases hs
    exact ⟨h.start hdecoded (hnone _) (fun _ => hnone _) true s.stream, rfl, hdecoded⟩
  | ready reset =>
    cases reset with
    | none =>
      cases hs
      exact ⟨h.startReady hdecoded (hnone _) rfl _ false (hnone _) false (some false), rfl, hdecoded⟩
    | some reason => exact newUpstreamRequest_reset h hdecoded (hnone _) hs
  | failure reason host => exact newUpstreamRequest_failure h hdecoded (hnone _) hs

theorem decodeHeaders_advances (h : Log s) (hdecoded : s.decoded = false) {route : Route}
    (hs : (s.accept endStream).decodeHeaders route endStream i = some s') : Advances s s' := by
  obtain ⟨hzero, hbody, hwithin⟩ := h.fresh hdecoded
  refine ⟨?_, ?_⟩
  · have haccept : Log (s.accept endStream) := by
      apply log_first
      · rfl
      · exact hzero ▸ Nat.zero_le 1
      · exact h.replays.sent_le
      · exact h.replays.ready_le
      · exact fun _ _ _ => hbody
      · exact h.disabled
    cases route with
    | noRoute | redirect | noCluster =>
      cases hs
      exact haccept.kept (kept_call _ _)
    | maintenanceMode | noHealthyUpstream => exact haccept.kept (kept_sendLocalReply hs)
    | forward timeout altResponse retry doShadowing grpcRequest n =>
      have hprepare : Log ((s.accept endStream).prepare timeout altResponse retry doShadowing
          grpcRequest) := by
        apply log_first
        · rfl
        · exact hzero ▸ Nat.zero_le 1
        · exact h.replays.sent_le
        · exact h.replays.ready_le
        · exact fun _ _ _ => hbody
        · intro hexceeded
          change s.exceeded = true at hexceeded
          rw [hwithin] at hexceeded
          cases hexceeded
      obtain ⟨t, ht, hs⟩ := bind_eq_some_iff.mp hs
      obtain ⟨hlog, hattempts, hdecoded'⟩ := newUpstreamRequest_first hprepare rfl hzero ht
      have hone : t.attempts ≤ 1 := by
        change t.attempts = s.attempts + 1 at hattempts
        omega
      exact (hlog.passed hdecoded' hone (passed_completeIf hs)).log
  · intro hexceeded
    rw [hwithin] at hexceeded
    cases hexceeded

theorem newUpstreamRequest_gone (hbare : Bare s) (hn : n ≠ .pending ∧ n ≠ .ready none)
    (hs : s.newUpstreamRequest endStream n i = some s') : s'.upstreamRequest = none := by
  cases n with
  | pending => exact absurd rfl hn.1
  | ready reset =>
    cases reset with
    | none => exact absurd rfl hn.2
    | some reason =>
      have hcut := hbare.cut { ready (newRequest endStream) with requestEncoder := false }
        (s.attempts + 1) (s.sent ++ [(s.attempts + 1, headersFrame (newRequest endStream))])
        (s.poolReady ++ [(s.attempts + 1, true)])
      obtain ⟨t, ht, hafter⟩ := onReset_after (i := i) hcut reason
      cases ht.symm.trans hs
      exact hafter.upstreamRequest
  | failure reason host =>
    have hcut := hbare.cut { newRequest endStream with upstreamHost := host } (s.attempts + 1) s.sent
      s.poolReady
    obtain ⟨t, ht, hafter⟩ := onReset_after (i := i) hcut (PoolFailureReason.toReset reason)
    simp only [newUpstreamRequest, onPoolFailure, onResetStream] at hs
    cases ht.symm.trans hs
    exact hafter.upstreamRequest

theorem replay_gone (h : s.upstreamRequest = none) : s.replay = some s := if_pos h

theorem newRequest_frames (buffer : Option Bytes) (trailers : Bool) :
    headersFrame (newRequest (buffer = none && !trailers)) ::
        bufferedFrames (newRequest (buffer = none && !trailers)) ++ replayFrames buffer trailers =
      wholeRequest buffer trailers := by
  cases buffer <;> cases trailers <;> rfl

theorem doRetry_log (h : Log s) (hbare : Bare s) (hremote : s.remoteComplete = true)
    (hbody : s.decodingBuffer.getD [] = s.received) (hs : s.doRetry (some n) i = some s') :
    Log s' := by
  have hdecoded := hbare.decoded
  have hcomplete : 1 ≤ s.attempts → s.remoteComplete = true := fun _ => hremote
  simp only [doRetry] at hs
  split at hs
  · cases hs
  obtain ⟨t, ht, hreplay⟩ := bind_eq_some_iff.mp hs
  cases n with
  | pending =>
    cases ht
    rw [replay_pooled rfl rfl rfl rfl rfl rfl] at hreplay
    cases hreplay
    exact h.start hdecoded hcomplete (fun _ _ => ⟨rfl, rfl, rfl, hbody⟩) true s.stream
  | ready reset =>
    cases reset with
    | none =>
      cases ht
      rw [replay_connected rfl rfl rfl rfl rfl] at hreplay
      cases hreplay
      simp only [send, ← map_append, append_assoc]
      apply h.startReady hdecoded hcomplete
      · rfl
      · exact fun _ => ⟨s.decodingBuffer, hbody, newRequest_frames _ _⟩
    | some reason =>
      rw [replay_gone (newUpstreamRequest_gone hbare ⟨by simp, by simp⟩ ht)] at hreplay
      cases hreplay
      exact (newUpstreamRequest_reset h hdecoded hcomplete ht).1
  | failure reason host =>
    rw [replay_gone (newUpstreamRequest_gone hbare ⟨by simp, by simp⟩ ht)] at hreplay
    cases hreplay
    exact (newUpstreamRequest_failure h hdecoded hcomplete ht).1

theorem kept_retrying (hr : s.retryState = some r) : Kept s (s.retrying r) :=
  kept_retryState hr rfl

theorem onRetryTimer_advances (h : Log s) (hstage : Stage s)
    (htimer : s.retryState.any RetryState.retryTimer = true) {n : Option NewStream}
    (hs : s.onRetryTimer n i = some s') : Advances s s' := by
  obtain ⟨r, hun, hup, hpool, hstream, hretry, henabled, hend⟩ := backoff_of_timer hstage htimer
  rw [onRetryTimer, hretry, bind_some] at hs
  have hlog := h.kept (kept_retrying hretry)
  refine ⟨?_, ?_⟩
  · cases n with
    | none =>
      obtain ⟨t, ht, rfl⟩ := map_eq_some_iff.mp hs
      exact hlog.kept ((kept_sendLocalReply ht).trans (kept_cleanup t))
    | some n =>
      apply doRetry_log hlog (bare_retrying hun hpool hstream r)
      · exact hun.complete.symm.trans hend
      · exact h.buffered r hretry henabled
      · exact hs
  · intro hexceeded
    rw [h.disabled hexceeded r hretry] at henabled
    cases henabled

theorem pending_of_pool (h : Stage s) (hpool : s.pool = true) (hu : s.upstreamRequest = some u) :
    u.connPoolStreamHandle = true := by
  have hbusy : s.pool = false → False := by
    intro hno
    rw [hpool] at hno
    cases hno
  cases h with
  | fresh quiet => exact absurd quiet.pool hbusy
  | trying v un follows link =>
    cases hu.symm.trans follows.upstreamRequest
    rcases link with l | l
    · exact l.handle
    · exact absurd l.pool hbusy
  | backoff r un upstreamRequest pool => exact absurd pool hbusy
  | responding v act begun started follows link => exact absurd link.pool hbusy
  | done d => exact absurd d.pool hbusy

theorem step_advances {e : Event} (h : Log s) (hstage : Stage s) (hpossible : Possible s e)
    (hs : step s e = some s') : Advances s s' := by
  cases e with
  | headers route endStream i => exact decodeHeaders_advances h hpossible.2 hs
  | data data endStream => exact onData_advances h hpossible.2.1 hpossible.2.2 hs
  | trailers => exact onTrailers_advances h hpossible.2.1 hpossible.2.2 hs
  | destroy => exact h.advances_kept (kept_destroyStream hs)
  | poolReady reset i =>
    obtain ⟨u, hu, hs⟩ := bind_eq_some_iff.mp hs
    exact onPoolReady_advances h hu (pending_of_pool hstage hpossible hu) hs
  | poolFailure reason host i =>
    obtain ⟨u, hu, hs⟩ := bind_eq_some_iff.mp hs
    exact h.advances_kept (kept_onPoolFailure hu hs)
  | upstreamHeaders headers endStream i => exact h.advances_kept (kept_onUpstreamHeaders hs)
  | upstreamData data endStream => exact h.advances_kept (kept_onUpstreamData hs)
  | upstreamTrailers => exact h.advances_kept (kept_onUpstreamTrailers hs)
  | upstreamReset reason i =>
    obtain ⟨u, hu, hs⟩ := bind_eq_some_iff.mp hs
    exact h.advances_kept (kept_onResetStream hu hs)
  | perTryTimeout i => exact h.advances_kept (kept_onPerTryTimeout hs)
  | responseTimeout i => exact h.advances_kept (kept_onResponseTimeout hs)
  | retryTimer n i => exact onRetryTimer_advances h hstage hpossible hs

end Log

variable {s s' : Filter} {es : List Event}

theorem log_run (h : Log s ∧ Stage s) (hmeet : AllMeet step Possible s es)
    (hrun : run step s es = some s') : Log s' ∧ Stage s' := by
  have hkeeps : ∀ t e t', (Log t ∧ Stage t) → Possible t e → step t e = some t' →
      Log t' ∧ Stage t' := by
    intro t e t' ⟨hlog, hstage⟩ hp hstep
    exact ⟨(step_advances hlog hstage hp hstep).log, stage_of_step hstage hp hstep⟩
  exact run_invariant hkeeps hmeet h hrun

theorem attempts_run (h : Log s ∧ Stage s) (hexceeded : s.exceeded = true)
    (hmeet : AllMeet step Possible s es) (hrun : run step s es = some s') :
    s'.attempts = s.attempts := by
  have hkeeps : ∀ t e t',
      ((Log t ∧ Stage t) ∧ t.exceeded = true ∧ t.attempts = s.attempts) → Possible t e →
        step t e = some t' →
        (Log t' ∧ Stage t') ∧ t'.exceeded = true ∧ t'.attempts = s.attempts := by
    intro t e t' ⟨⟨hlog, hstage⟩, hover, hsame⟩ hp hstep
    have hadvances := step_advances hlog hstage hp hstep
    obtain ⟨hover', hsame'⟩ := hadvances.stops hover
    exact ⟨⟨hadvances.log, stage_of_step hstage hp hstep⟩, hover', hsame'.trans hsame⟩
  exact (run_invariant hkeeps hmeet ⟨h, hexceeded, rfl⟩ hrun).2.2

/-- Every retry that the pool is ready for sends the whole request, with the end of the stream on
its last frame, unless the stream is reset inside `encodeHeaders`, which has then sent the headers.
Once the body is over the buffer limit there is no further attempt. -/
theorem retry_replays_request (limit : Nat) (es : List Event) (s : Filter)
    (h : AllMeet step Possible (create limit) es) (hrun : run step (create limit) es = some s) :
    (∀ attempt, 2 ≤ attempt → (attempt, false) ∈ s.poolReady →
      ∃ buffer : Option Bytes, buffer.getD [] = s.received ∧
        framesOf s.sent attempt = wholeRequest buffer s.downstreamTrailers ∧
        (framesOf s.sent attempt).map Frame.endStream =
          List.replicate ((framesOf s.sent attempt).length - 1) false ++ [true]) ∧
    (∀ attempt, 2 ≤ attempt → (attempt, true) ∈ s.poolReady →
      ∃ endStream, framesOf s.sent attempt = [.headers endStream]) ∧
    (s.exceeded = true → ∀ es' s', AllMeet step Possible s es' → run step s es' = some s' →
      s'.attempts = s.attempts) := by
  have hinv := log_run ⟨log_create limit, stage_create limit⟩ h hrun
  refine ⟨?_, ?_, ?_⟩
  · intro attempt hretry hready
    obtain ⟨buffer, hbody, hframes⟩ := hinv.1.replays.replayed _ hready hretry
    refine ⟨buffer, hbody, hframes, ?_⟩
    rw [show framesOf s.sent attempt = _ from hframes]
    exact wholeRequest_endStream buffer s.downstreamTrailers
  · intro attempt hretry hready
    exact hinv.1.replays.replayed _ hready hretry
  · intro hexceeded es' s' hmeet' hrun'
    exact attempts_run hinv hexceeded hmeet' hrun'

def refusedRequest (retry : List Event) : List Event :=
  [.headers (.forward ⟨15000, 0⟩ false (some (1, 2)) false false (.ready none)) false
    ⟨⟨true, true⟩, false⟩,
   .data [1, 2] false,
   .data [3] false,
   .trailers,
   .upstreamReset .remoteReset ⟨⟨true, true⟩, false⟩] ++ retry

def secondAttempt (s : Filter) : List (Nat × Bool) × Bytes × Bool × List Frame :=
  (s.poolReady, s.received, s.downstreamTrailers, framesOf s.sent 2)

/-- The retry waits for the pool and is then sent. -/
theorem refusedRequest_replayed : AllMeet step Possible (create 100) (refusedRequest
        [.retryTimer (some .pending) ⟨⟨true, true⟩, false⟩, .poolReady none ⟨⟨true, true⟩, false⟩]) ∧
      ∃ s, run step (create 100) (refusedRequest [.retryTimer (some .pending) ⟨⟨true, true⟩, false⟩,
           .poolReady none ⟨⟨true, true⟩, false⟩]) = some s ∧ (2, false) ∈ s.poolReady ∧
        s.received = [1, 2, 3] ∧ s.downstreamTrailers = true ∧
        ∃ buffer : Option Bytes, buffer.getD [] = s.received ∧
          framesOf s.sent 2 = wholeRequest buffer s.downstreamTrailers := by
  have hmeet : AllMeet step Possible (create 100) (refusedRequest
      [.retryTimer (some .pending) ⟨⟨true, true⟩, false⟩,
       .poolReady none ⟨⟨true, true⟩, false⟩]) := by decide +kernel
  have hsecond : (run step (create 100) (refusedRequest
      [.retryTimer (some .pending) ⟨⟨true, true⟩, false⟩,
       .poolReady none ⟨⟨true, true⟩, false⟩])).map secondAttempt =
      some ([(1, false), (2, false)], [1, 2, 3], true,
        [.headers false, .data [1, 2, 3] false, .trailers]) := by decide +kernel
  obtain ⟨s, hrun, hs⟩ := map_eq_some_iff.mp hsecond
  obtain ⟨hready, hreceived, htrailers, -⟩ : s.poolReady = _ ∧ s.received = _ ∧
      s.downstreamTrailers = _ ∧ framesOf s.sent 2 = _ := by simpa [secondAttempt] using hs
  have hmem : (2, false) ∈ s.poolReady := by
    rw [hready]
    decide
  obtain ⟨buffer, hbody, hframes, -⟩ :=
    (retry_replays_request 100 _ s hmeet hrun).1 2 (Nat.le_refl 2) hmem
  exact ⟨hmeet, s, hrun, hmem, hreceived, htrailers, buffer, hbody, hframes⟩

/-- The stream of the retry is reset inside `encodeHeaders`: the pool was ready for it, and it has
sent its headers and nothing else. -/
theorem refusedRequest_cut : AllMeet step Possible (create 100) (refusedRequest
        [.retryTimer (some (.ready (some .remoteReset))) ⟨⟨true, true⟩, false⟩]) ∧
      (run step (create 100) (refusedRequest
        [.retryTimer (some (.ready (some .remoteReset))) ⟨⟨true, true⟩, false⟩])).map secondAttempt =
        some ([(1, false), (2, true)], [1, 2, 3], true, [.headers false]) := by
  decide +kernel

end Filter

end Meliproxy.Envoy.Router
