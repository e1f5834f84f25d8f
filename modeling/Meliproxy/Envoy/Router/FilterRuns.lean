import Meliproxy.Envoy.Router.FilterDownstream

/-!
# Runs of the router

Every event that can happen takes a stage to a stage, unless a timeout is answered with a code
below 500 and no upstream host is known: `onUpstreamReset` then uses a null `upstream_host`.
-/

namespace Meliproxy.Envoy.Router

open Lib Option

namespace Filter

variable (s : Filter)

/-- No timeout fires that is answered with a code below 500 when no upstream host is known. -/
def HostKnown : Event → Prop
  | .perTryTimeout i => ¬ BadTimeout s .perTryTimeout (some .localReset) i
  | .responseTimeout i => ¬ BadTimeout s .globalTimeout none i
  | _ => True

instance decidableUnhosted (type : UpstreamResetType) (host : Bool) :
    Decidable (Unhosted s type host) := inferInstanceAs (Decidable (_ ∧ _ ∧ _ ∧ _))

instance decidableBadTimeout (type : UpstreamResetType)
    (reason : Option StreamResetReason) (i : Inputs) : Decidable (BadTimeout s type reason i) :=
  inferInstanceAs (Decidable (_ ∧ _))

instance decidableHostKnown : (e : Event) → Decidable (HostKnown s e) := by
  rintro ⟨⟩ <;> dsimp only [HostKnown] <;> infer_instance

variable {s : Filter}

theorem upstreamRequest_live (h : Stage s) (hlive : s.pool = true ∨ s.stream ≠ none) :
    ∃ u, s.upstreamRequest = some u := by
  have hquiet : ¬ (s.pool = false ∧ s.stream = none) := by
    rintro ⟨hpool, hstream⟩
    rcases hlive with h | h
    · rw [hpool] at h
      cases h
    · exact h hstream
  cases h with
  | fresh quiet => exact absurd ⟨quiet.pool, quiet.stream⟩ hquiet
  | trying u un follows => exact ⟨u, follows.upstreamRequest⟩
  | backoff r un upstreamRequest pool stream => exact absurd ⟨pool, stream⟩ hquiet
  | responding u act begun started follows => exact ⟨u, follows.upstreamRequest⟩
  | done d => exact absurd ⟨d.pool, d.stream⟩ hquiet

theorem upstreamRequest_of_perTry (h : s.upstreamRequest.any UpstreamRequest.perTryTimeout = true) :
    ∃ u, s.upstreamRequest = some u := by
  cases hu : s.upstreamRequest with
  | none =>
    rw [hu] at h
    cases h
  | some u => exact ⟨u, rfl⟩

variable {e : Event}

theorem stage_step (h : Stage s) (hpossible : Possible s e) (hhost : HostKnown s e) :
    ∃ s', step s e = some s' ∧ Stage s' := by
  cases e with
  | headers route endStream i =>
    exact decodeHeaders_stage h hpossible.1 hpossible.2 route endStream
  | data data endStream =>
    exact onData_stage h hpossible.1 hpossible.2.1 hpossible.2.2 data endStream
  | trailers => exact onTrailers_stage h hpossible.1 hpossible.2.1 hpossible.2.2
  | destroy =>
    obtain ⟨s', hs', hdone⟩ := destroyStream_done h
    exact ⟨s', hs', .done hdone⟩
  | poolReady reset i =>
    obtain ⟨u, hu⟩ := upstreamRequest_live h (.inl hpossible)
    rw [step, hu, bind_some]
    exact onPoolReady_stage h hu hpossible reset
  | poolFailure reason host i =>
    obtain ⟨u, hu⟩ := upstreamRequest_live h (.inl hpossible)
    rw [step, hu, bind_some]
    exact onPoolFailure_stage h hu hpossible reason host
  | upstreamHeaders headers endStream i => exact onUpstreamHeaders_stage h hpossible headers endStream
  | upstreamData data endStream => exact onUpstreamData_stage h hpossible data endStream
  | upstreamTrailers => exact onUpstreamTrailers_stage h hpossible
  | upstreamReset reason i =>
    obtain ⟨u, hu⟩ := upstreamRequest_live h (.inr hpossible)
    rw [step, hu, bind_some]
    exact onResetStream_stage h hu hpossible reason
  | perTryTimeout i =>
    obtain ⟨u, hu⟩ := upstreamRequest_of_perTry hpossible
    exact (onPerTryTimeout_stage h hu).1 hhost
  | responseTimeout i => exact (onResponseTimeout_stage h hpossible).1 hhost
  | retryTimer n i => exact onRetryTimer_stage h hpossible n

/-- The condition is exact: without it a step goes through a null pointer. -/
theorem step_none (h : Stage s) (hpossible : Possible s e) (hhost : ¬ HostKnown s e) :
    step s e = none := by
  cases e with
  | perTryTimeout i =>
    obtain ⟨u, hu⟩ := upstreamRequest_of_perTry hpossible
    exact (onPerTryTimeout_stage h hu).2 (Classical.not_not.mp hhost)
  | responseTimeout i => exact (onResponseTimeout_stage h hpossible).2 (Classical.not_not.mp hhost)
  | _ => exact absurd trivial hhost

theorem stage_of_step {s' : Filter} (h : Stage s) (hpossible : Possible s e)
    (hstep : step s e = some s') : Stage s' := by
  by_cases hhost : HostKnown s e
  · obtain ⟨t, ht, hstage⟩ := stage_step h hpossible hhost
    cases ht.symm.trans hstep
    exact hstage
  · rw [step_none h hpossible hhost] at hstep
    cases hstep

theorem stage_run {s : Filter} {es : List Event} (hs : Stage s)
    (h : AllMeet step (fun s e => Possible s e ∧ HostKnown s e) s es) :
    ∃ s', run step s es = some s' ∧ Stage s' :=
  run_safe (fun _ _ hs h => stage_step hs h.1 h.2) hs h

theorem hostKnown_of_step {s' : Filter} (h : Stage s) (hpossible : Possible s e)
    (hstep : step s e = some s') : HostKnown s e := by
  by_contra hhost
  rw [step_none h hpossible hhost] at hstep
  cases hstep

theorem Stage.done_of_ended (h : Stage s) (hended : ∃ c ∈ s.trace, c.ends = true ∨ c = .onDestroy) :
    Done s := by
  obtain ⟨c, hc, hend⟩ := hended
  have hempty : s.trace ≠ [] := by
    intro hnil
    rw [hnil] at hc
    cases hc
  cases h with
  | fresh quiet notDecoded trace => exact absurd trace hempty
  | trying u un => exact absurd un.trace hempty
  | backoff r un => exact absurd un.trace hempty
  | responding u act begun =>
    obtain ⟨hgoes, hthere⟩ := begun.goesOn c hc
    rcases hend with h | h
    · rw [hgoes] at h
      cases h
    · exact absurd h hthere
  | done d => exact d

theorem Stage.answered (h : Stage s) : Answered s.trace := by
  cases h with
  | fresh quiet notDecoded trace =>
    rw [trace]
    exact answered_nil
  | trying u un =>
    rw [un.trace]
    exact answered_nil
  | backoff r un =>
    rw [un.trace]
    exact answered_nil
  | responding u act begun => exact begun.answered
  | done d => exact d.answered

/-- The request is answered as it should be, and nothing of the filter is left once the
response has ended or was reset or the stream is destroyed. -/
structure AnsweredAndClean (s : Filter) : Prop where
  answered : Answered s.trace
  clean : (∃ c ∈ s.trace, c.ends = true ∨ c = .onDestroy) → Quiet s

theorem Stage.answeredAndClean (h : Stage s) : AnsweredAndClean s :=
  ⟨h.answered, fun hended => (h.done_of_ended hended).toQuiet⟩

/-- Whatever happens, the request is answered and cleaned up, exactly when a host is known
whenever a timeout needs one: otherwise a step goes through a null pointer. -/
theorem answered_and_clean (limit : Nat) (es : List Event)
    (h : AllMeet step Possible (create limit) es) :
    (∃ s, run step (create limit) es = some s ∧ AnsweredAndClean s) ↔
      AllMeet step HostKnown (create limit) es := by
  constructor
  · rintro ⟨s, hrun, -⟩
    have hknown : ∀ s e s', Stage s → Possible s e → step s e = some s' →
        HostKnown s e ∧ Stage s' :=
      fun _ _ _ hs hp hstep => ⟨hostKnown_of_step hs hp hstep, stage_of_step hs hp hstep⟩
    exact allMeet_of_run hknown (stage_create limit) h hrun
  · intro hhost
    obtain ⟨s, hrun, hstage⟩ := stage_run (stage_create limit) (allMeet_and h hhost)
    exact ⟨s, hrun, hstage.answeredAndClean⟩

def retriedRequest : List Event :=
  [.headers (.forward ⟨15000, 0⟩ false (some (1, 1)) false false .pending) false ⟨⟨true, true⟩, false⟩,
   .data [1, 2] false,
   .poolReady none ⟨⟨true, true⟩, false⟩,
   .data [3] true,
   .upstreamHeaders ⟨503, false, none⟩ true ⟨⟨true, true⟩, false⟩,
   .retryTimer (some (.ready none)) ⟨⟨true, true⟩, false⟩,
   .upstreamHeaders ⟨200, false, none⟩ false ⟨⟨true, true⟩, false⟩,
   .upstreamData [4] true,
   .destroy]

theorem retriedRequest_answered :
    ∃ s, run step (create 100) retriedRequest = some s ∧ AnsweredAndClean s :=
  (answered_and_clean 100 retriedRequest (by decide +kernel)).mpr (by decide +kernel)

/-- The only attempt runs into its timeout while the pool has not found a host, and the filter
is to answer the timeout with 204. -/
def altAttempt : List Event :=
  [.headers (.forward ⟨15000, 100⟩ true none false false .pending) true ⟨⟨true, true⟩, false⟩,
   .perTryTimeout ⟨⟨true, true⟩, false⟩]

theorem altAttempt_unanswered : ¬ ∀ limit es, AllMeet step Possible (create limit) es →
      ∃ s, run step (create limit) es = some s ∧ AnsweredAndClean s := by
  intro hall
  obtain ⟨s, hrun, -⟩ := hall 0 altAttempt (by decide)
  have hnone : run step (create 0) altAttempt = none := rfl
  rw [hnone] at hrun
  cases hrun

/-- In a run in which a host is known when a timeout needs one, no step goes through a null
pointer. -/
theorem run_of_hostKnown (limit : Nat) (es : List Event)
    (h : AllMeet step (fun s e => Possible s e ∧ HostKnown s e) (create limit) es) :
    ∃ s, run step (create limit) es = some s := by
  obtain ⟨s, hrun, -⟩ := stage_run (stage_create limit) h
  exact ⟨s, hrun⟩

def altRequest : Event :=
  .headers (.forward ⟨15000, 0⟩ true none false false .pending) true ⟨⟨true, true⟩, false⟩

/-- The global timeout fires before the pool has found a host. -/
theorem altRequest_null_host :
    AllMeet step Possible (create 0) [altRequest, .responseTimeout ⟨⟨true, true⟩, false⟩] ∧
      run step (create 0) [altRequest, .responseTimeout ⟨⟨true, true⟩, false⟩] = none :=
  ⟨by decide, rfl⟩

theorem altRequest_with_host :
    ∃ s, run step (create 0) [altRequest, .poolReady none ⟨⟨true, true⟩, false⟩,
      .responseTimeout ⟨⟨true, true⟩, false⟩] = some s := run_of_hostKnown 0 _ (by decide)

/-!
## What the upstream side leaves alone

Most of the steps of the router send nothing and receive nothing. They leave the history, the
buffered body and the policy of the retry state as they are.
-/

/-- A request that waits for the pool keeps what it has buffered. -/
structure Holds (u u' : UpstreamRequest) : Prop where
  handle : u.connPoolStreamHandle = true
  body : u'.bufferedRequestBody = u.bufferedRequestBody
  complete : u'.encodeComplete = u.encodeComplete
  trailers : u'.encodeTrailers = u.encodeTrailers

/-- What a step leaves alone that sends nothing and receives nothing. The retry state keeps its
policy, and no request goes back to the pool. -/
structure Kept (s s' : Filter) : Prop where
  sent : s'.sent = s.sent
  poolReady : s'.poolReady = s.poolReady
  attempts : s'.attempts = s.attempts
  received : s'.received = s.received
  decodingBuffer : s'.decodingBuffer = s.decodingBuffer
  downstreamTrailers : s'.downstreamTrailers = s.downstreamTrailers
  exceeded : s'.exceeded = s.exceeded
  decoded : s'.decoded = s.decoded
  remoteComplete : s'.remoteComplete = s.remoteComplete
  retryState : ∀ r', s'.retryState = some r' → ∃ r, s.retryState = some r ∧ r'.retryOn = r.retryOn
  pending : ∀ u', s'.upstreamRequest = some u' → u'.connPoolStreamHandle = true →
    ∃ u, s.upstreamRequest = some u ∧ Holds u u'

section Kept

variable {s s' t : Filter} {u : UpstreamRequest} {i : Inputs}

theorem Kept.refl (s : Filter) : Kept s s :=
  ⟨rfl, rfl, rfl, rfl, rfl, rfl, rfl, rfl, rfl, fun r h => ⟨r, h, rfl⟩,
    fun u h hhandle => ⟨u, h, hhandle, rfl, rfl, rfl⟩⟩

theorem Kept.trans (h : Kept s t) (h' : Kept t s') : Kept s s' where
  sent := h'.sent.trans h.sent
  poolReady := h'.poolReady.trans h.poolReady
  attempts := h'.attempts.trans h.attempts
  received := h'.received.trans h.received
  decodingBuffer := h'.decodingBuffer.trans h.decodingBuffer
  downstreamTrailers := h'.downstreamTrailers.trans h.downstreamTrailers
  exceeded := h'.exceeded.trans h.exceeded
  decoded := h'.decoded.trans h.decoded
  remoteComplete := h'.remoteComplete.trans h.remoteComplete
  retryState := by
    intro r' hr'
    obtain ⟨r₁, hr₁, hon₁⟩ := h'.retryState r' hr'
    obtain ⟨r, hr, hon⟩ := h.retryState r₁ hr₁
    exact ⟨r, hr, hon₁.trans hon⟩
  pending := by
    intro u' hu' hhandle
    obtain ⟨u₁, hu₁, hold₁⟩ := h'.pending u' hu' hhandle
    obtain ⟨u, hu, hold⟩ := h.pending u₁ hu₁ hold₁.handle
    exact ⟨u, hu, hold.handle, hold₁.body.trans hold.body, hold₁.complete.trans hold.complete,
      hold₁.trailers.trans hold.trailers⟩

theorem kept_cleanup (s : Filter) : Kept s s.cleanup :=
  ⟨rfl, rfl, rfl, rfl, rfl, rfl, rfl, rfl, rfl, (fun _ h => by cases h),
    (fun _ h => by cases h)⟩

theorem kept_call (s : Filter) (c : Call) : Kept s (s.call c) :=
  ⟨rfl, rfl, rfl, rfl, rfl, rfl, rfl, rfl, rfl, fun r h => ⟨r, h, rfl⟩,
    fun u h hhandle => ⟨u, h, hhandle, rfl, rfl, rfl⟩⟩

theorem kept_retryState {r r' : RetryState} (hr : s.retryState = some r)
    (hon : r'.retryOn = r.retryOn) : Kept s { s with retryState := some r' } := by
  refine ⟨rfl, rfl, rfl, rfl, rfl, rfl, rfl, rfl, rfl, ?_,
    fun u h hhandle => ⟨u, h, hhandle, rfl, rfl, rfl⟩⟩
  rintro _ ⟨⟩
  exact ⟨r, hr, hon⟩

theorem kept_unlinked (s : Filter) : Kept s { s with upstreamRequest := none } :=
  ⟨rfl, rfl, rfl, rfl, rfl, rfl, rfl, rfl, rfl, fun r h => ⟨r, h, rfl⟩, (fun _ h => by cases h)⟩

theorem kept_resetStream (hs : s.resetStream u = some s') : Kept s s' := by
  unfold resetStream at hs
  split at hs
  · cases hs
  · cases hs
    refine ⟨rfl, rfl, rfl, rfl, rfl, rfl, rfl, rfl, rfl, fun r h => ⟨r, h, rfl⟩, ?_⟩
    intro u' hu' hhandle
    cases hu'
    cases hhandle

theorem kept_destroyStream (hs : s.destroyStream = some s') : Kept s s' := by
  have hend : ∀ t : Filter, Kept t ({ t.cleanup with streamDestroyed := true }.call .onDestroy) :=
    fun t => ⟨rfl, rfl, rfl, rfl, rfl, rfl, rfl, rfl, rfl, (fun _ h => by cases h),
      (fun _ h => by cases h)⟩
  cases hu : s.upstreamRequest with
  | none =>
    rw [destroyStream_none hu] at hs
    cases hs
    exact hend s
  | some u =>
    rw [destroyStream_some hu] at hs
    obtain ⟨t, ht, rfl⟩ := map_eq_some_iff.mp hs
    exact (kept_resetStream ht).trans (hend t)

theorem kept_sendLocalReply {code : Nat} {body : Bytes} {overloaded : Bool}
    (hs : s.sendLocalReply code body overloaded i = some s') : Kept s s' := by
  obtain ⟨t, ht, rfl⟩ := map_eq_some_iff.mp hs
  have hreply : Kept s t := by
    split at ht
    · exact (kept_call s _).trans (kept_destroyStream ht)
    · cases ht
      exact kept_call s _
  split
  · exact hreply.trans (kept_call t _)
  · exact hreply

variable {type : UpstreamResetType} {reason : Option StreamResetReason} {host : Bool}

theorem kept_finishReset (hs : s.finishReset type reason host i = some s') : Kept s s' := by
  unfold finishReset at hs
  split at hs
  · split at hs
    · cases hs
    · cases hs
      exact (kept_cleanup s).trans (kept_call _ _)
  · simp only at hs
    split at hs
    · cases hs
    · exact (kept_cleanup s).trans (kept_sendLocalReply hs)

theorem kept_onUpstreamReset (hs : s.onUpstreamReset type reason i = some s') : Kept s s' := by
  unfold onUpstreamReset at hs
  split at hs
  · cases hs
  · simp only at hs
    split at hs
    · split at hs
      · exact kept_finishReset hs
      · rename_i r hr
        have hretry : Kept s { s with retryState := some (retryReset r reason i).1 } :=
          kept_retryState hr (RetryState.shouldRetry_retryOn _ _)
        split at hs
        · cases hs
          exact hretry.trans (kept_unlinked _)
        · exact hretry.trans (kept_finishReset hs)
    · exact kept_finishReset hs

theorem kept_onResetStream (hu : s.upstreamRequest = some u) {reason : StreamResetReason}
    (hs : s.onResetStream u reason i = some s') : Kept s s' := by
  refine Kept.trans ?_ (kept_onUpstreamReset hs)
  refine ⟨rfl, rfl, rfl, rfl, rfl, rfl, rfl, rfl, rfl, fun r h => ⟨r, h, rfl⟩, ?_⟩
  intro u' hu' hhandle
  cases hu'
  exact ⟨u, hu, hhandle, rfl, rfl, rfl⟩

theorem kept_onPoolFailure (hu : s.upstreamRequest = some u) {reason : PoolFailureReason}
    (hs : s.onPoolFailure u reason host i = some s') : Kept s s' := by
  unfold onPoolFailure onResetStream at hs
  refine Kept.trans ?_ (kept_onUpstreamReset hs)
  refine ⟨rfl, rfl, rfl, rfl, rfl, rfl, rfl, rfl, rfl, fun r h => ⟨r, h, rfl⟩, ?_⟩
  intro u' hu' hhandle
  cases hu'
  exact ⟨u, hu, hhandle, rfl, rfl, rfl⟩

theorem kept_onUpstreamComplete (hs : s.onUpstreamComplete u = some s') : Kept s s' := by
  obtain ⟨t, ht, rfl⟩ := map_eq_some_iff.mp hs
  split at ht
  · cases ht
    exact kept_cleanup s
  · exact (kept_resetStream ht).trans (kept_cleanup t)

theorem kept_responseEnds (s : Filter) (u : UpstreamRequest) (endStream : Bool) :
    Kept s (s.responseEnds u endStream) :=
  ⟨rfl, rfl, rfl, rfl, rfl, rfl, rfl, rfl, rfl, fun r h => ⟨r, h, rfl⟩,
    fun u h hhandle => ⟨u, h, hhandle, rfl, rfl, rfl⟩⟩

variable {headers : ResponseHeaders} {endStream : Bool}

theorem kept_startResponse (hu : s.upstreamRequest = some u)
    (hs : s.startResponse u headers endStream = some s') : Kept s s' := by
  obtain ⟨t, ht, rfl⟩ := map_eq_some_iff.mp hs
  refine Kept.trans ?_ (kept_call t _)
  have hstart : Kept s { s with
      retryState := none
      upstreamRequest := some (s.handleNon5xxResponseHeaders u headers endStream)
      downstreamResponseStarted := true } := by
    refine ⟨rfl, rfl, rfl, rfl, rfl, rfl, rfl, rfl, rfl, (fun _ h => by cases h), ?_⟩
    intro u' hu' hhandle
    cases hu'
    refine ⟨u, hu, ?_⟩
    unfold handleNon5xxResponseHeaders at hhandle ⊢
    split at hhandle
    · rename_i hgrpc
      rw [if_pos hgrpc]
      exact ⟨hhandle, rfl, rfl, rfl⟩
    · rename_i hgrpc
      rw [if_neg hgrpc]
      exact ⟨hhandle, rfl, rfl, rfl⟩
  split at ht
  · exact hstart.trans (kept_onUpstreamComplete ht)
  · cases ht
    exact hstart

theorem kept_onUpstreamHeaders (hs : s.onUpstreamHeaders headers endStream i = some s') :
    Kept s s' := by
  obtain ⟨u, hu, hs⟩ := bind_eq_some_iff.mp hs
  split at hs
  · cases hs
  · refine (kept_responseEnds s u endStream).trans ?_
    simp only at hs
    split at hs
    · exact kept_startResponse (s := s.responseEnds u endStream) hu hs
    · rename_i r hr
      split at hs
      · obtain ⟨t, ht, rfl⟩ := map_eq_some_iff.mp hs
        have hretry : Kept (s.responseEnds u endStream) { s.responseEnds u endStream with
            retryState := some (r.shouldRetry (r.wouldRetryHeaders headers) i.retry).1 } :=
          kept_retryState hr (RetryState.shouldRetry_retryOn _ _)
        split at ht
        · cases ht
          exact hretry.trans (kept_unlinked _)
        · exact (hretry.trans (kept_resetStream ht)).trans (kept_unlinked t)
      · exact kept_startResponse (s := s.responseEnds u endStream) hu hs

theorem kept_onUpstreamData {data : Bytes} (hs : s.onUpstreamData data endStream = some s') :
    Kept s s' := by
  obtain ⟨u, hu, hs⟩ := bind_eq_some_iff.mp hs
  obtain ⟨t, ht, rfl⟩ := map_eq_some_iff.mp hs
  refine Kept.trans ?_ (kept_call t _)
  refine (kept_responseEnds s u endStream).trans ?_
  split at ht
  · split at ht
    · cases ht
    · exact kept_onUpstreamComplete ht
  · cases ht
    exact Kept.refl _

theorem kept_onUpstreamTrailers (hs : s.onUpstreamTrailers = some s') : Kept s s' := by
  obtain ⟨u, hu, hs⟩ := bind_eq_some_iff.mp hs
  simp only at hs
  split at hs
  · cases hs
  · obtain ⟨t, ht, rfl⟩ := map_eq_some_iff.mp hs
    exact ((kept_responseEnds s u true).trans (kept_onUpstreamComplete ht)).trans (kept_call t _)

theorem kept_onPerTryTimeout (hs : s.onPerTryTimeout i = some s') : Kept s s' := by
  obtain ⟨u, hu, hs⟩ := bind_eq_some_iff.mp hs
  obtain ⟨t, ht, hs⟩ := bind_eq_some_iff.mp hs
  exact (kept_resetStream ht).trans (kept_onUpstreamReset hs)

theorem kept_onResponseTimeout (hs : s.onResponseTimeout i = some s') : Kept s s' := by
  obtain ⟨t, ht, hs⟩ := bind_eq_some_iff.mp hs
  split at ht
  · cases ht
    exact kept_onUpstreamReset hs
  · exact (kept_resetStream ht).trans (kept_onUpstreamReset hs)

end Kept

end Filter

end Meliproxy.Envoy.Router
