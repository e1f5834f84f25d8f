import Meliproxy.Envoy.Router.Filter

/-!
# The stages of a request in the router

Between two events a request is in one of six stages: not decoded yet, waiting for the pool,
waiting for the response headers, waiting for the back-off timer of a retry, in the middle of
a response, or done. In each of them it is known which of the pool, the codec and the timers
can still call the filter, and when it is done nothing can.
-/

namespace Meliproxy.Envoy.Router

open Lib List Option

/-- A request is answered as it should be: there is one start of a response, its body comes
after it, and nothing comes after its end or after the end of the stream. -/
def Answered (trace : List Call) : Prop :=
  ∀ before c after, trace = before ++ c :: after →
    (c.isStart = true → ∀ b ∈ before, b.isStart = false) ∧
    (c.isBody = true → ∃ b ∈ before, b.isStart = true) ∧
    (c ≠ .onDestroy → ∀ b ∈ before, b.ends = false ∧ b ≠ .onDestroy)

theorem answered_nil : Answered [] := by
  intro before c after h
  cases before <;> cases h

variable {trace : List Call}

theorem answered_concat {c : Call} (h : Answered trace)
    (hstart : c.isStart = true → ∀ b ∈ trace, b.isStart = false)
    (hbody : c.isBody = true → ∃ b ∈ trace, b.isStart = true)
    (hopen : c ≠ .onDestroy → ∀ b ∈ trace, b.ends = false ∧ b ≠ .onDestroy) :
    Answered (trace ++ [c]) := by
  intro before c' after heq
  rcases eq_nil_or_concat after with rfl | ⟨after, last, rfl⟩
  · obtain ⟨rfl, hc⟩ := append_inj' heq rfl
    obtain rfl : c = c' := by simpa using hc
    exact ⟨hstart, hbody, hopen⟩
  · have hsplit : trace ++ [c] = (before ++ c' :: after) ++ [last] := by
      rw [heq, concat_eq_append, append_assoc, cons_append]
    obtain ⟨rfl, -⟩ := append_inj' hsplit rfl
    exact h before c' after rfl

/-- A response that has started and not ended. -/
structure Begun (trace : List Call) : Prop where
  answered : Answered trace
  start : ∃ b ∈ trace, b.isStart = true
  goesOn : ∀ b ∈ trace, b.ends = false ∧ b ≠ .onDestroy

theorem begun_start (headers : ResponseHeaders) : Begun [.encodeHeaders headers false] where
  answered := answered_concat answered_nil (fun _ _ hb => by cases hb) (fun hc => by cases hc)
    (fun _ _ hb => by cases hb)
  start := ⟨_, mem_singleton_self _, rfl⟩
  goesOn := by
    intro b hb
    obtain rfl := mem_singleton.mp hb
    exact ⟨rfl, fun h => by cases h⟩

theorem Begun.answered_body (h : Begun trace) {c : Call} (hc : c.isStart = false) :
    Answered (trace ++ [c]) := by
  apply answered_concat h.answered
  · intro hstart
    rw [hc] at hstart
    cases hstart
  · exact fun _ => h.start
  · exact fun _ => h.goesOn

theorem Begun.data (h : Begun trace) (data : Bytes) :
    Begun (trace ++ [.encodeData data false]) where
  answered := h.answered_body rfl
  start := by
    obtain ⟨b, hb, hstart⟩ := h.start
    exact ⟨b, mem_append_left _ hb, hstart⟩
  goesOn := by
    intro b hb
    rcases mem_append.mp hb with hb | hb
    · exact h.goesOn b hb
    · obtain rfl := mem_singleton.mp hb
      exact ⟨rfl, fun h => by cases h⟩

theorem answered_destroy (h : Answered trace) : Answered (trace ++ [.onDestroy]) :=
  answered_concat h (fun hc => by cases hc) (fun hc => by cases hc) (fun hc => absurd rfl hc)

theorem answered_start (headers : ResponseHeaders) (endStream : Bool) :
    Answered [.encodeHeaders headers endStream] :=
  answered_concat answered_nil (fun _ _ hb => by cases hb) (fun hc => by cases hc)
    (fun _ _ hb => by cases hb)

namespace Filter

variable (s : Filter)

/-- Nothing outside the filter refers to it but the connection manager. -/
structure Quiet : Prop where
  upstreamRequest : s.upstreamRequest = none
  retryState : s.retryState = none
  responseTimeout : s.responseTimeout = false
  pool : s.pool = false
  stream : s.stream = none

/-- The end of a request. If the stream is still there, the response has ended. -/
structure Done : Prop extends Quiet s where
  answered : Answered s.trace
  open_ends : s.streamDestroyed = false → s.decoded = true ∧ s.localComplete = true

/-- The stream is there, and the end of the request has set the timer. -/
structure Active : Prop where
  decoded : s.decoded = true
  streamDestroyed : s.streamDestroyed = false
  complete : s.downstreamEndStream = s.remoteComplete
  timeout : s.downstreamEndStream = true → s.responseTimeout = true ∨ s.timeout.globalTimeout = 0

structure Unanswered : Prop extends Active s where
  trace : s.trace = []
  notStarted : s.downstreamResponseStarted = false

variable (u : UpstreamRequest)

/-- The upstream request waits for the pool. -/
structure Pooled : Prop where
  handle : u.connPoolStreamHandle = true
  encoder : u.requestEncoder = false
  pool : s.pool = true
  stream : s.stream = none

/-- The upstream request has its encoder; `seen` says whether the response headers have
arrived. -/
structure Connected (seen : Bool) : Prop where
  handle : u.connPoolStreamHandle = false
  encoder : u.requestEncoder = true
  host : u.upstreamHost = true
  pool : s.pool = false
  stream : s.stream = some seen

/-- The upstream request is as far as the request from downstream. -/
structure Follows : Prop where
  upstreamRequest : s.upstreamRequest = some u
  complete : u.encodeComplete = s.downstreamEndStream
  perTry : s.downstreamEndStream = false → u.perTryTimeout = false

def TimerOff : Prop := ∀ r, s.retryState = some r → r.retryTimer = false

inductive Stage (s : Filter) : Prop
  | fresh (quiet : Quiet s) (decoded : s.decoded = false) (trace : s.trace = [])
      (streamDestroyed : s.streamDestroyed = false) (notStarted : s.downstreamResponseStarted = false)
      (notComplete : s.downstreamEndStream = false)
  | trying (u : UpstreamRequest) (unanswered : Unanswered s) (follows : Follows s u)
      (link : Pooled s u ∨ Connected s u false) (timer : TimerOff s)
  | backoff (r : RetryState) (unanswered : Unanswered s) (upstreamRequest : s.upstreamRequest = none)
      (pool : s.pool = false) (stream : s.stream = none) (retryState : s.retryState = some r)
      (timer : r.retryTimer = true) (enabled : r.enabled = true)
      (complete : s.downstreamEndStream = true)
  | responding (u : UpstreamRequest) (active : Active s) (begun : Begun s.trace)
      (started : s.downstreamResponseStarted = true) (follows : Follows s u)
      (link : Connected s u true) (retryState : s.retryState = none)
  | done (done : Done s)

theorem stage_create (bufferLimit : Nat) : Stage (create bufferLimit) :=
  .fresh ⟨rfl, rfl, rfl, rfl, rfl⟩ rfl rfl rfl rfl rfl

section End

variable {s s' : Filter} {i : Inputs}

theorem resetStream_call (s : Filter) (c : Call) (u : UpstreamRequest) :
    (s.call c).resetStream u = (s.resetStream u).map fun s => s.call c := by
  unfold resetStream
  split
  · rfl
  · rfl

theorem destroyStream_none (h : s.upstreamRequest = none) :
    s.destroyStream = some ({ s.cleanup with streamDestroyed := true }.call .onDestroy) := by
  have hcall : (s.call .onDestroy).upstreamRequest = none := h
  rw [destroyStream, onDestroy, hcall]
  rfl

theorem destroyStream_some {u : UpstreamRequest} (h : s.upstreamRequest = some u) :
    s.destroyStream = (s.resetStream u).map fun s =>
      { s.cleanup with streamDestroyed := true }.call .onDestroy := by
  have hcall : (s.call .onDestroy).upstreamRequest = some u := h
  rw [destroyStream, onDestroy, hcall]
  dsimp only
  rw [resetStream_call, Option.map_map]
  rfl

theorem sendLocalReply_cleanup (h : s.upstreamRequest = none) (code : Nat) (body : Bytes)
    (overloaded : Bool) : (s.sendLocalReply code body overloaded i).map cleanup =
      s.cleanup.sendLocalReply code body overloaded i := by
  have hdestroy := destroyStream_none (s := s.call (.encodeHeaders ⟨code, overloaded, none⟩ (body = []))) h
  have hdestroy' := destroyStream_none
    (s := s.cleanup.call (.encodeHeaders ⟨code, overloaded, none⟩ (body = []))) rfl
  simp only [sendLocalReply, hdestroy, hdestroy']
  by_cases hd : i.destroys = true
  · rw [if_pos hd, if_pos hd, map_some, map_some, map_some]
    congr 1
    rw [apply_ite cleanup]
    rfl
  · rw [if_neg hd, if_neg hd, map_some, map_some, map_some]
    congr 1
    rw [apply_ite cleanup]
    rfl

theorem sendLocalReply_done (hquiet : Quiet s) (hdestroyed : s.streamDestroyed = false)
    (hdecoded : s.decoded = true) (htrace : s.trace = []) (code : Nat) (body : Bytes)
    (overloaded : Bool) : ∃ s', s.sendLocalReply code body overloaded i = some s' ∧ Done s' := by
  have hdestroy := destroyStream_none
    (s := s.call (.encodeHeaders ⟨code, overloaded, none⟩ (body = []))) hquiet.upstreamRequest
  simp only [sendLocalReply, hdestroy]
  by_cases hd : i.destroys = true
  · rw [if_pos hd, map_some]
    refine ⟨_, rfl, ?_⟩
    rw [if_neg (fun h => by cases h.2)]
    refine ⟨⟨rfl, rfl, rfl, hquiet.pool, hquiet.stream⟩, ?_, fun h => by cases h⟩
    change Answered (s.trace ++ [_] ++ [_])
    rw [htrace]
    exact answered_destroy (answered_start _ _)
  · rw [if_neg hd, map_some]
    refine ⟨_, rfl, ?_⟩
    by_cases hbody : body = []
    · rw [if_neg (fun h => h.1 hbody)]
      refine ⟨{ hquiet with }, ?_, fun _ => ⟨hdecoded, ?_⟩⟩
      · change Answered (s.trace ++ [_])
        rw [htrace]
        exact answered_start _ _
      · change (s.trace ++ [_]).any Call.ends = true
        simp [htrace, Call.ends, hbody]
    · rw [if_pos ⟨hbody, hdestroyed⟩]
      refine ⟨{ hquiet with }, ?_, fun _ => ⟨hdecoded, ?_⟩⟩
      · change Answered (s.trace ++ [_] ++ [_])
        rw [htrace, decide_eq_false hbody]
        exact (begun_start _).answered_body rfl
      · change (s.trace ++ [_] ++ [_]).any Call.ends = true
        simp [htrace, Call.ends]

/-- A request whose upstream side is gone. -/
structure Cut (s : Filter) : Prop where
  decoded : s.decoded = true
  streamDestroyed : s.streamDestroyed = false
  pool : s.pool = false
  stream : s.stream = none
  trace : (s.downstreamResponseStarted = false ∧ s.trace = []) ∨
    (s.downstreamResponseStarted = true ∧ Begun s.trace)
  host : s.downstreamResponseStarted = true →
    ∃ u, s.upstreamRequest = some u ∧ u.upstreamHost = true
  active : s.downstreamEndStream = true → Active s

/-- A timeout whose reply is not a 5xx, when no host is known. -/
def Unhosted (s : Filter) (type : UpstreamResetType) (host : Bool) : Prop :=
  s.downstreamResponseStarted = false ∧ type ≠ .reset ∧ is5xx s.timeoutResponseCode = false ∧
    host = false

variable {type : UpstreamResetType} {host : Bool}

theorem finishReset_done (hcut : Cut s) (hhost : ¬ Unhosted s type host)
    (reason : Option StreamResetReason) :
    ∃ s', s.finishReset type reason host i = some s' ∧ Done s' := by
  unfold finishReset
  rcases hcut.trace with ⟨hstarted, htrace⟩ | ⟨hstarted, hbegun⟩
  · have hcode : (!is5xx (s.resetReply type reason).1 && !host) ≠ true := by
      intro hbad
      obtain ⟨hcode, hnone⟩ : is5xx (s.resetReply type reason).1 = false ∧ host = false := by
        simpa using hbad
      by_cases htype : type = .reset
      · rw [resetReply, if_pos htype] at hcode
        cases hcode
      · rw [resetReply, if_neg htype] at hcode
        exact hhost ⟨hstarted, htype, hcode, hnone⟩
    rw [if_neg (by rw [hstarted]; exact Bool.false_ne_true)]
    simp only [if_neg hcode]
    exact sendLocalReply_done (s := s.cleanup) ⟨rfl, rfl, rfl, hcut.pool, hcut.stream⟩
      hcut.streamDestroyed hcut.decoded htrace _ _ _
  · obtain ⟨u, hu, huhost⟩ := hcut.host hstarted
    rw [if_pos hstarted, if_neg (by simp [hu, huhost])]
    refine ⟨_, rfl, ⟨rfl, rfl, rfl, hcut.pool, hcut.stream⟩, ?_, fun _ => ⟨hcut.decoded, ?_⟩⟩
    · exact hbegun.answered_body rfl
    · change (s.trace ++ [_]).any Call.ends = true
      simp [Call.ends]

theorem finishReset_none (h : Unhosted s type host) (reason : Option StreamResetReason) :
    s.finishReset type reason host i = none := by
  obtain ⟨hstarted, htype, hcode, hnone⟩ := h
  simp [finishReset, hstarted, resetReply, htype, hcode, hnone]

def retried (s : Filter) (reason : Option StreamResetReason) (i : Inputs) : Bool :=
  s.downstreamEndStream && s.retryState.any fun r => (retryReset r reason i).2 = .yes

variable {reason : Option StreamResetReason}

theorem retryReset_yes {r : RetryState} (h : (retryReset r reason i).2 = .yes) :
    (retryReset r reason i).1.retryTimer = true ∧ (retryReset r reason i).1.enabled = true := by
  obtain ⟨hwould, htimer⟩ := RetryState.shouldRetry_yes h
  refine ⟨htimer, ?_⟩
  cases reason with
  | none => cases hwould
  | some reason =>
    have henabled := RetryState.wouldRetryReset_enabled hwould
    unfold RetryState.enabled at henabled ⊢
    rw [retryReset, RetryState.shouldRetry_retryOn]
    exact henabled

theorem onUpstreamReset_retry (htype : type ≠ .globalTimeout) (hup : s.upstreamRequest ≠ none)
    (hstarted : s.downstreamResponseStarted = false) (hretried : s.retried reason i = true) :
    ∃ r, s.onUpstreamReset type reason i =
        some { s with retryState := some r, upstreamRequest := none } ∧
      r.retryTimer = true ∧ r.enabled = true ∧ s.downstreamEndStream = true := by
  obtain ⟨hend, hany⟩ : s.downstreamEndStream = true ∧
      (s.retryState.any fun r => (retryReset r reason i).2 = .yes) = true := by
    simpa [retried] using hretried
  cases hr : s.retryState with
  | none =>
    rw [hr] at hany
    cases hany
  | some r =>
    have hyes : (retryReset r reason i).2 = .yes := by simpa [hr] using hany
    refine ⟨(retryReset r reason i).1, ?_, (retryReset_yes hyes).1, (retryReset_yes hyes).2, hend⟩
    simp [onUpstreamReset, htype, hup, hstarted, hr, hyes, hend]

theorem finishReset_setRetryState (r : Option RetryState) (type : UpstreamResetType)
    (reason : Option StreamResetReason) (host : Bool) :
    { s with retryState := r }.finishReset type reason host i =
      s.finishReset type reason host i := rfl

theorem onUpstreamReset_finish (hup : type ≠ .globalTimeout → s.upstreamRequest ≠ none)
    (hretried : type = .globalTimeout ∨ s.downstreamResponseStarted = true ∨
      s.retried reason i = false) : s.onUpstreamReset type reason i =
      s.finishReset type reason (s.upstreamRequest.any UpstreamRequest.upstreamHost) i := by
  unfold onUpstreamReset
  by_cases hglobal : type = .globalTimeout
  · simp [hglobal]
  · by_cases hstarted : s.downstreamResponseStarted = true
    · simp [hglobal, hup hglobal, hstarted]
    · rcases hretried with h | h | h
      · exact absurd h hglobal
      · exact absurd h hstarted
      · cases hr : s.retryState with
        | none => simp [hglobal, hup hglobal, hstarted]
        | some r =>
          have hno : ¬ ((retryReset r reason i).2 = .yes ∧ s.downstreamEndStream = true) := by
            intro hyes
            simp [retried, hr, hyes] at h
          have hfirst : ¬ (type ≠ .globalTimeout ∧ s.upstreamRequest = none) :=
            fun hnone => hup hnone.1 hnone.2
          have hsecond : type ≠ .globalTimeout ∧ s.downstreamResponseStarted = false :=
            ⟨hglobal, Bool.eq_false_iff.mpr hstarted⟩
          simp only [if_neg hfirst, if_pos hsecond, if_neg hno]
          exact finishReset_setRetryState _ _ _ _

/-- A timeout that is answered with a code below 500 when no host is known. -/
def BadTimeout (s : Filter) (type : UpstreamResetType) (reason : Option StreamResetReason)
    (i : Inputs) : Prop :=
  Unhosted s type (s.upstreamRequest.any UpstreamRequest.upstreamHost) ∧
    (type = .globalTimeout ∨ s.retried reason i = false)

/-- A reset ends the request or leaves it to the back-off timer. -/
inductive After (s s' : Filter) : Prop
  | ends (done : Done s')
  | retries (r : RetryState) (eq : s' = { s with retryState := some r, upstreamRequest := none })
      (notStarted : s.downstreamResponseStarted = false) (timer : r.retryTimer = true)
      (enabled : r.enabled = true) (complete : s.downstreamEndStream = true)

theorem After.upstreamRequest (h : After s s') : s'.upstreamRequest = none := by
  cases h with
  | ends done => exact done.upstreamRequest
  | retries r eq =>
    rw [eq]

theorem After.stage (h : After s s') (hcut : Cut s) : Stage s' := by
  cases h with
  | ends done => exact .done done
  | retries r eq notStarted timer enabled complete =>
    subst eq
    have hactive := hcut.active complete
    refine .backoff r ⟨⟨hcut.decoded, hcut.streamDestroyed, hactive.complete, hactive.timeout⟩, ?_,
      notStarted⟩ rfl hcut.pool hcut.stream rfl timer enabled complete
    rcases hcut.trace with ⟨-, htrace⟩ | ⟨hbegun, -⟩
    · exact htrace
    · rw [notStarted] at hbegun
      cases hbegun

theorem onUpstreamReset_after (hcut : Cut s)
    (hup : type ≠ .globalTimeout → s.upstreamRequest ≠ none) (hgood : ¬ BadTimeout s type reason i)
    : ∃ s', s.onUpstreamReset type reason i = some s' ∧ After s s' := by
  by_cases hfinish : type = .globalTimeout ∨ s.downstreamResponseStarted = true ∨
      s.retried reason i = false
  · have hhost : ¬ Unhosted s type (s.upstreamRequest.any UpstreamRequest.upstreamHost) := by
      intro hbad
      apply hgood
      refine ⟨hbad, ?_⟩
      rcases hfinish with h | h | h
      · exact .inl h
      · rw [hbad.1] at h
        cases h
      · exact .inr h
    obtain ⟨s', hs', hdone⟩ := finishReset_done (i := i) hcut hhost reason
    rw [onUpstreamReset_finish hup hfinish]
    exact ⟨s', hs', .ends hdone⟩
  · simp only [not_or, Bool.not_eq_true, Bool.not_eq_false] at hfinish
    obtain ⟨htype, hstarted, hretried⟩ := hfinish
    obtain ⟨r, hs', htimer, henabled, hend⟩ :=
      onUpstreamReset_retry htype (hup htype) hstarted hretried
    exact ⟨_, hs', .retries r rfl hstarted htimer henabled hend⟩

theorem onUpstreamReset_stage (hcut : Cut s)
    (hup : type ≠ .globalTimeout → s.upstreamRequest ≠ none) (hgood : ¬ BadTimeout s type reason i)
    : ∃ s', s.onUpstreamReset type reason i = some s' ∧ Stage s' := by
  obtain ⟨s', hs', hafter⟩ := onUpstreamReset_after hcut hup hgood
  exact ⟨s', hs', hafter.stage hcut⟩

theorem onUpstreamReset_bad (hup : type ≠ .globalTimeout → s.upstreamRequest ≠ none)
    (hbad : BadTimeout s type reason i) : s.onUpstreamReset type reason i = none := by
  obtain ⟨hunhosted, hretried⟩ := hbad
  have hfinish : type = .globalTimeout ∨ s.downstreamResponseStarted = true ∨
      s.retried reason i = false := by
    rcases hretried with h | h
    · exact .inl h
    · exact .inr (.inr h)
  rw [onUpstreamReset_finish hup hfinish]
  exact finishReset_none hunhosted reason

end End

end Filter

end Meliproxy.Envoy.Router
