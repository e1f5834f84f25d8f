import Meliproxy.Envoy.Router.FilterStages

/-!
# The router and the upstream

What the pool, the upstream codec and the timeouts make of a stage. A reset cuts the filter off
from the pool and the codec, and then the request ends or waits for the back-off timer.
-/

namespace Meliproxy.Envoy.Router

open Lib Option

namespace Filter

section Upstream

variable {s s' : Filter} {u : UpstreamRequest} {i : Inputs}

def cut (s : Filter) (u : UpstreamRequest) : Filter :=
  { s with
    upstreamRequest := some u
    pool := false
    stream := none }

theorem resetStream_pooled (h : Pooled s u) :
    s.resetStream u = some (s.cut { u with connPoolStreamHandle := false }) := by
  simp [resetStream, cut, h.handle, h.encoder, h.stream]

theorem resetStream_connected {seen : Bool} (h : Connected s u seen) :
    s.resetStream u = some (s.cut { u with connPoolStreamHandle := false }) := by
  simp [resetStream, cut, h.handle, h.encoder, h.pool]

theorem cleanup_done (hpool : s.pool = false) (hstream : s.stream = none) {c : Call}
    (hanswered : Answered (s.trace ++ [c]))
    (hends : s.streamDestroyed = false → s.decoded = true ∧ c.ends = true) :
    Done (s.cleanup.call c) where
  upstreamRequest := rfl
  retryState := rfl
  responseTimeout := rfl
  pool := hpool
  stream := hstream
  answered := hanswered
  open_ends := by
    intro hopen
    obtain ⟨hdecoded, hc⟩ := hends hopen
    refine ⟨hdecoded, ?_⟩
    change (s.trace ++ [c]).any Call.ends = true
    simp [hc]

theorem destroyStream_done (h : Stage s) : ∃ s', s.destroyStream = some s' ∧ Done s' := by
  have hfinish : ∀ t : Filter, t.pool = false → t.stream = none → Answered t.trace →
      Done ({ t.cleanup with streamDestroyed := true }.call .onDestroy) := by
    intro t hpool hstream htrace
    exact ⟨⟨rfl, rfl, rfl, hpool, hstream⟩, answered_destroy htrace, fun h => by cases h⟩
  cases h with
  | fresh quiet decoded trace =>
    rw [destroyStream_none quiet.upstreamRequest]
    exact ⟨_, rfl, hfinish s quiet.pool quiet.stream (trace ▸ answered_nil)⟩
  | trying u unanswered follows link timer =>
    have hreset : s.resetStream u = some (s.cut { u with connPoolStreamHandle := false }) := by
      rcases link with h | h
      · exact resetStream_pooled h
      · exact resetStream_connected h
    rw [destroyStream_some follows.upstreamRequest, hreset]
    exact ⟨_, rfl, hfinish (s.cut _) rfl rfl (unanswered.trace ▸ answered_nil)⟩
  | backoff r unanswered upstreamRequest pool stream =>
    rw [destroyStream_none upstreamRequest]
    exact ⟨_, rfl, hfinish s pool stream (unanswered.trace ▸ answered_nil)⟩
  | responding u active begun started follows link retryState =>
    rw [destroyStream_some follows.upstreamRequest, resetStream_connected link]
    exact ⟨_, rfl, hfinish (s.cut _) rfl rfl begun.answered⟩
  | done done =>
    rw [destroyStream_none done.upstreamRequest]
    exact ⟨_, rfl, hfinish s done.pool done.stream done.answered⟩

theorem cut_trying (h : Unanswered s) (u : UpstreamRequest) : Cut (s.cut u) where
  decoded := h.decoded
  streamDestroyed := h.streamDestroyed
  pool := rfl
  stream := rfl
  trace := .inl ⟨h.notStarted, h.trace⟩
  host := by
    intro hstarted
    rw [show (s.cut u).downstreamResponseStarted = s.downstreamResponseStarted from rfl,
      h.notStarted] at hstarted
    cases hstarted
  active := fun _ => { h with }

theorem cut_responding (h : Active s) (hbegun : Begun s.trace)
    (hstarted : s.downstreamResponseStarted = true) (hhost : u.upstreamHost = true) :
    Cut (s.cut u) where
  decoded := h.decoded
  streamDestroyed := h.streamDestroyed
  pool := rfl
  stream := rfl
  trace := .inr ⟨hstarted, hbegun⟩
  host := fun _ => ⟨u, rfl, hhost⟩
  active := fun _ => { h with }

theorem not_badTimeout_reset (reason : Option StreamResetReason) : ¬ BadTimeout s .reset reason i :=
  fun h => h.1.2.1 rfl

theorem onReset_after (hcut : Cut (s.cut u)) (reason : StreamResetReason) :
    ∃ s', (s.cut u).onUpstreamReset .reset (some reason) i = some s' ∧ After (s.cut u) s' :=
  onUpstreamReset_after hcut (fun _ h => by cases h) (not_badTimeout_reset _)

theorem onReset_stage (hcut : Cut (s.cut u)) (reason : StreamResetReason) :
    ∃ s', (s.cut u).onUpstreamReset .reset (some reason) i = some s' ∧ Stage s' :=
  onUpstreamReset_stage hcut (fun _ h => by cases h) (not_badTimeout_reset _)

theorem onResetStream_stage (h : Stage s) (hu : s.upstreamRequest = some u) (hstream : s.stream ≠ none)
    (reason : StreamResetReason) : ∃ s', s.onResetStream u reason i = some s' ∧ Stage s' := by
  have heq : ∀ seen, Connected s u seen →
      s.onResetStream u reason i =
        (s.cut { u with requestEncoder := false }).onUpstreamReset .reset (some reason) i := by
    intro seen hlink
    rw [onResetStream, cut, hlink.pool]
  cases h with
  | fresh quiet => exact absurd quiet.stream hstream
  | trying v unanswered follows link timer =>
    cases follows.upstreamRequest.symm.trans hu
    rcases link with h | h
    · exact absurd h.stream hstream
    · rw [heq false h]
      exact onReset_stage (cut_trying unanswered _) reason
  | backoff r unanswered upstreamRequest pool stream => exact absurd stream hstream
  | responding v active begun started follows link retryState =>
    cases follows.upstreamRequest.symm.trans hu
    rw [heq true link]
    exact onReset_stage (cut_responding active begun started link.host) reason
  | done done => exact absurd done.stream hstream

def ready (u : UpstreamRequest) : UpstreamRequest :=
  { u with
    upstreamHost := true
    connPoolStreamHandle := false
    requestEncoder := true }

theorem onPoolReady_ready (s : Filter) (u : UpstreamRequest) :
    s.onPoolReady u none i = some ({ s with
      pool := false
      stream := some false
      upstreamRequest := some (ready u)
      poolReady := s.poolReady ++ [(s.attempts, false)] }.send (headersFrame u :: bufferedFrames u)) :=
  rfl

theorem onPoolReady_reset (s : Filter) (u : UpstreamRequest) (reason : StreamResetReason) :
    s.onPoolReady u (some reason) i =
      (({ s with poolReady := s.poolReady ++ [(s.attempts, true)] }.send [headersFrame u]).cut
        { ready u with requestEncoder := false }).onUpstreamReset .reset (some reason) i := rfl

theorem trying_of_pool (h : Stage s) (hu : s.upstreamRequest = some u) (hpool : s.pool = true) :
    Unanswered s ∧ Follows s u ∧ TimerOff s := by
  cases h with
  | fresh quiet =>
    rw [quiet.pool] at hpool
    cases hpool
  | trying v unanswered follows link timer =>
    cases follows.upstreamRequest.symm.trans hu
    exact ⟨unanswered, follows, timer⟩
  | backoff r unanswered upstreamRequest =>
    rw [upstreamRequest] at hu
    cases hu
  | responding v active begun started follows link =>
    rw [link.pool] at hpool
    cases hpool
  | done done =>
    rw [done.pool] at hpool
    cases hpool

theorem onPoolReady_stage (h : Stage s) (hu : s.upstreamRequest = some u) (hpool : s.pool = true)
    (reset : Option StreamResetReason) : ∃ s', s.onPoolReady u reset i = some s' ∧ Stage s' := by
  obtain ⟨unanswered, follows, timer⟩ := trying_of_pool h hu hpool
  cases reset with
  | none =>
    refine ⟨_, onPoolReady_ready s u, .trying (ready u) ?_ ⟨rfl, follows.complete, follows.perTry⟩
      (.inr ⟨rfl, rfl, rfl, rfl, rfl⟩) timer⟩
    exact ⟨{ unanswered with }, unanswered.trace, unanswered.notStarted⟩
  | some reason =>
    rw [onPoolReady_reset]
    apply onReset_stage
    apply cut_trying
    exact ⟨{ unanswered with }, unanswered.trace, unanswered.notStarted⟩

theorem onPoolFailure_stage (h : Stage s) (hu : s.upstreamRequest = some u) (hpool : s.pool = true)
    (reason : PoolFailureReason) (host : Bool) :
    ∃ s', s.onPoolFailure u reason host i = some s' ∧ Stage s' :=
  onReset_stage (cut_trying (trying_of_pool h hu hpool).1 _) _

def ended (s : Filter) : Filter :=
  { s.cleanup with
    pool := false
    stream := none }

theorem ended_done (hdecoded : s.decoded = true) {c : Call} (hanswered : Answered (s.trace ++ [c]))
    (hc : c.ends = true) : Done (s.ended.call c) :=
  cleanup_done (s := { s with
    pool := false
    stream := none }) rfl rfl hanswered fun _ => ⟨hdecoded, hc⟩

theorem onUpstreamComplete_eq (hhandle : u.connPoolStreamHandle = false)
    (hencoder : u.requestEncoder = true) (hpool : s.pool = false)
    (hstream : s.downstreamEndStream = true → s.stream = none) :
    s.onUpstreamComplete u = some s.ended := by
  unfold onUpstreamComplete
  cases hend : s.downstreamEndStream with
  | true => simp [ended, cleanup, hpool, hstream hend]
  | false => simp [resetStream, ended, cleanup, hhandle, hencoder, hpool]

theorem responseEnds_complete (hcomplete : u.encodeComplete = s.downstreamEndStream)
    (hend : s.downstreamEndStream = true) : (s.responseEnds u true).stream = none := by
  simp [responseEnds, hcomplete, hend]

theorem startResponse_stage (hun : Unanswered s) (hfollows : Follows s u)
    (hlink : Connected s u false) (headers : ResponseHeaders) (endStream : Bool) :
    ∃ s', (s.responseEnds u endStream).startResponse u headers endStream = some s' ∧ Stage s' := by
  cases endStream with
  | true =>
    have hkeep : ∀ t : Filter, t.handleNon5xxResponseHeaders u headers true = u := by
      intro t
      simp [handleNon5xxResponseHeaders]
    have hend := onUpstreamComplete_eq (s := { s.responseEnds u true with
      retryState := none
      upstreamRequest := some u
      downstreamResponseStarted := true }) hlink.handle hlink.encoder hlink.pool
        (responseEnds_complete hfollows.complete)
    simp only [startResponse, hkeep, if_true, hend, map_some]
    refine ⟨_, rfl, .done ?_⟩
    apply ended_done
    · exact hun.decoded
    · change Answered (s.trace ++ [_])
      rw [hun.trace]
      exact answered_start _ _
    · rfl
  | false =>
    refine ⟨_, rfl, .responding ((s.responseEnds u false).handleNon5xxResponseHeaders u headers false)
      { hun with } ?_ rfl ?_ ?_ rfl⟩
    · change Begun (s.trace ++ [_])
      rw [hun.trace]
      exact begun_start headers
    · refine ⟨rfl, ?_, ?_⟩
      · rw [handleNon5xxResponseHeaders]
        split
        · exact hfollows.complete
        · exact hfollows.complete
      · intro hopen
        rw [handleNon5xxResponseHeaders]
        split
        · exact hfollows.perTry hopen
        · exact hfollows.perTry hopen
    · rw [handleNon5xxResponseHeaders]
      split
      · exact { hlink with stream := rfl }
      · exact { hlink with stream := rfl }

theorem setupRetry_eq (hlink : Connected s u false) (hcomplete : u.encodeComplete = true)
    (r : RetryState) (endStream : Bool) :
    { s.responseEnds u endStream with retryState := some r }.setupRetry u endStream =
      some { s with
        retryState := some r
        upstreamRequest := none
        stream := none } := by
  cases endStream with
  | true => simp [setupRetry, responseEnds, hcomplete]
  | false => simp [setupRetry, responseEnds, resetStream, hlink.handle, hlink.encoder]

theorem onUpstreamHeaders_stage (h : Stage s) (hstream : s.stream = some false)
    (headers : ResponseHeaders) (endStream : Bool) :
    ∃ s', s.onUpstreamHeaders headers endStream i = some s' ∧ Stage s' := by
  cases h with
  | fresh quiet =>
    rw [quiet.stream] at hstream
    cases hstream
  | trying u hun hfollows link timer =>
    have hlink : Connected s u false := by
      rcases link with h | h
      · rw [h.stream] at hstream
        cases hstream
      · exact h
    have hguard : ¬ (s.downstreamResponseStarted || !u.upstreamHost) = true := by
      rw [hun.notStarted, hlink.host]
      exact Bool.false_ne_true
    obtain ⟨s', hs', hstage⟩ := startResponse_stage hun hfollows hlink headers endStream
    simp only [onUpstreamHeaders, hfollows.upstreamRequest, bind_some, if_neg hguard]
    cases hr : s.retryState with
    | none =>
      rw [show (s.responseEnds u endStream).retryState = none from hr]
      exact ⟨s', hs', hstage⟩
    | some r =>
      rw [show (s.responseEnds u endStream).retryState = some r from hr]
      by_cases hretry : (r.shouldRetry (r.wouldRetryHeaders headers) i.retry).2 = .yes ∧
          (s.responseEnds u endStream).downstreamEndStream = true
      · obtain ⟨hyes, hend⟩ := hretry
        obtain ⟨hwould, htimer⟩ := RetryState.shouldRetry_yes hyes
        have henabled : (r.shouldRetry (r.wouldRetryHeaders headers) i.retry).1.enabled = true := by
          have h := RetryState.wouldRetryHeaders_enabled hwould
          unfold RetryState.enabled at h ⊢
          rw [RetryState.shouldRetry_retryOn]
          exact h
        simp only [if_pos (And.intro hyes hend)]
        refine ⟨_, setupRetry_eq hlink (hfollows.complete.trans hend) _ _,
          .backoff _ ?_ rfl hlink.pool rfl rfl htimer henabled hend⟩
        exact ⟨{ hun with }, hun.trace,
          hun.notStarted⟩
      · simp only [if_neg hretry]
        exact ⟨s', hs', hstage⟩
  | backoff r hun upstreamRequest pool stream =>
    rw [stream] at hstream
    cases hstream
  | responding u active begun started follows link =>
    rw [link.stream] at hstream
    cases hstream
  | done done =>
    rw [done.stream] at hstream
    cases hstream

theorem responding_of_stream (h : Stage s) (hstream : s.stream = some true) :
    ∃ u, Active s ∧ Begun s.trace ∧ s.downstreamResponseStarted = true ∧ Follows s u ∧
      Connected s u true ∧ s.retryState = none := by
  cases h with
  | fresh quiet =>
    rw [quiet.stream] at hstream
    cases hstream
  | trying u hun hfollows link timer =>
    rcases link with h | h
    · rw [h.stream] at hstream
      cases hstream
    · rw [h.stream] at hstream
      cases hstream
  | backoff r hun upstreamRequest pool stream =>
    rw [stream] at hstream
    cases hstream
  | responding u active begun started follows link retryState =>
    exact ⟨u, active, begun, started, follows, link, retryState⟩
  | done done =>
    rw [done.stream] at hstream
    cases hstream

theorem onUpstreamComplete_stage (active : Active s) (follows : Follows s u)
    (link : Connected s u true) {c : Call} (hanswered : Answered (s.trace ++ [c]))
    (hc : c.ends = true) :
    ∃ s', ((s.responseEnds u true).onUpstreamComplete u).map (fun s => s.call c) = some s' ∧
      Stage s' := by
  have hend := onUpstreamComplete_eq (s := s.responseEnds u true) link.handle link.encoder link.pool
    (responseEnds_complete follows.complete)
  rw [hend]
  exact ⟨_, rfl, .done (ended_done active.decoded hanswered hc)⟩

theorem onUpstreamData_stage (h : Stage s) (hstream : s.stream = some true) (data : Bytes)
    (endStream : Bool) : ∃ s', s.onUpstreamData data endStream = some s' ∧ Stage s' := by
  obtain ⟨u, active, begun, started, follows, link, retryState⟩ := responding_of_stream h hstream
  simp only [onUpstreamData, follows.upstreamRequest, bind_some]
  cases endStream with
  | true =>
    simp only [if_true, link.host, Bool.not_true, Bool.and_false, Bool.false_eq_true, if_false]
    exact onUpstreamComplete_stage active follows link (begun.answered_body rfl) rfl
  | false =>
    refine ⟨_, rfl, .responding u { active with } (begun.data data) started
      { follows with }
      { link with stream := rfl } retryState⟩

theorem onUpstreamTrailers_stage (h : Stage s) (hstream : s.stream = some true) :
    ∃ s', s.onUpstreamTrailers = some s' ∧ Stage s' := by
  obtain ⟨u, active, begun, started, follows, link, retryState⟩ := responding_of_stream h hstream
  simp only [onUpstreamTrailers, follows.upstreamRequest, bind_some, link.host, Bool.not_true,
    Bool.and_false, Bool.false_eq_true, if_false]
  exact onUpstreamComplete_stage active follows link (begun.answered_body rfl) rfl

theorem resetStream_stage (h : Stage s) (hu : s.upstreamRequest = some u) :
    s.resetStream u = some (s.cut { u with connPoolStreamHandle := false }) ∧
      Cut (s.cut { u with connPoolStreamHandle := false }) := by
  cases h with
  | fresh quiet =>
    rw [quiet.upstreamRequest] at hu
    cases hu
  | trying v unanswered follows link timer =>
    cases follows.upstreamRequest.symm.trans hu
    refine ⟨?_, cut_trying unanswered _⟩
    rcases link with h | h
    · exact resetStream_pooled h
    · exact resetStream_connected h
  | backoff r unanswered upstreamRequest =>
    rw [upstreamRequest] at hu
    cases hu
  | responding v active begun started follows link =>
    cases follows.upstreamRequest.symm.trans hu
    exact ⟨resetStream_connected link, cut_responding active begun started link.host⟩
  | done done =>
    rw [done.upstreamRequest] at hu
    cases hu

theorem badTimeout_cut (hu : s.upstreamRequest = some u) (type : UpstreamResetType)
    (reason : Option StreamResetReason) :
    BadTimeout (s.cut { u with connPoolStreamHandle := false }) type reason i ↔
      BadTimeout s type reason i := by
  unfold BadTimeout Unhosted
  rw [hu]
  exact Iff.rfl

theorem onPerTryTimeout_stage (h : Stage s) (hu : s.upstreamRequest = some u) :
    (¬ BadTimeout s .perTryTimeout (some .localReset) i →
      ∃ s', s.onPerTryTimeout i = some s' ∧ Stage s') ∧
    (BadTimeout s .perTryTimeout (some .localReset) i → s.onPerTryTimeout i = none) := by
  obtain ⟨hreset, hcut⟩ := resetStream_stage h hu
  simp only [onPerTryTimeout, hu, bind_some, hreset]
  refine ⟨?_, ?_⟩
  · intro hgood
    apply onUpstreamReset_stage hcut
    · exact fun _ hnone => by cases hnone
    · rw [badTimeout_cut hu]
      exact hgood
  · intro hbad
    apply onUpstreamReset_bad
    · exact fun _ hnone => by cases hnone
    · rw [badTimeout_cut hu]
      exact hbad

theorem cut_backoff (h : Unanswered s) (hpool : s.pool = false) (hstream : s.stream = none) : Cut s where
  decoded := h.decoded
  streamDestroyed := h.streamDestroyed
  pool := hpool
  stream := hstream
  trace := .inl ⟨h.notStarted, h.trace⟩
  host := by
    intro hstarted
    rw [h.notStarted] at hstarted
    cases hstarted
  active := fun _ => h.toActive

theorem onResponseTimeout_stage (h : Stage s) (htimer : s.responseTimeout = true) :
    (¬ BadTimeout s .globalTimeout none i → ∃ s', s.onResponseTimeout i = some s' ∧ Stage s') ∧
    (BadTimeout s .globalTimeout none i → s.onResponseTimeout i = none) := by
  cases hu : s.upstreamRequest with
  | none =>
    have hcut : Cut s := by
      cases h with
      | fresh quiet =>
        rw [quiet.responseTimeout] at htimer
        cases htimer
      | trying u unanswered follows =>
        rw [follows.upstreamRequest] at hu
        cases hu
      | backoff r unanswered upstreamRequest pool stream => exact cut_backoff unanswered pool stream
      | responding u active begun started follows =>
        rw [follows.upstreamRequest] at hu
        cases hu
      | done done =>
        rw [done.responseTimeout] at htimer
        cases htimer
    simp only [onResponseTimeout, hu, bind_some]
    refine ⟨?_, ?_⟩
    · exact onUpstreamReset_stage hcut fun hne => absurd rfl hne
    · exact onUpstreamReset_bad fun hne => absurd rfl hne
  | some u =>
    obtain ⟨hreset, hcut⟩ := resetStream_stage h hu
    simp only [onResponseTimeout, hu, hreset, bind_some]
    rw [← badTimeout_cut hu]
    refine ⟨?_, ?_⟩
    · exact onUpstreamReset_stage hcut fun hne => absurd rfl hne
    · exact onUpstreamReset_bad fun hne => absurd rfl hne

end Upstream

end Filter

end Meliproxy.Envoy.Router
