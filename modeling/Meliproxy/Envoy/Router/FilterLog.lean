import Meliproxy.Envoy.Router.FilterRuns

/-!
# The log of the attempts

The attempts are numbered from one, and those from two on are the retries. `Log` is what a run
knows about them: what they have sent, and that a retry which waits for the pool has the whole
request.
-/

namespace Meliproxy.Envoy.Router

open Lib List

def Frame.endStream : Frame → Bool
  | .headers endStream => endStream
  | .data _ endStream => endStream
  | .trailers => true

namespace Filter

def framesOf (sent : List (Nat × Frame)) (attempt : Nat) : List Frame :=
  (sent.filter fun f => f.1 = attempt).map Prod.snd

def wholeRequest (body : Option Bytes) (trailers : Bool) : List Frame :=
  .headers (body = none && !trailers) :: replayFrames body trailers

/-- The end of the stream is set on the last frame and on no other. -/
theorem wholeRequest_endStream (body : Option Bytes) (trailers : Bool) :
    (wholeRequest body trailers).map Frame.endStream =
      List.replicate ((wholeRequest body trailers).length - 1) false ++ [true] := by
  cases body <;> cases trailers <;> rfl

section Frames

variable {sent : List (Nat × Frame)} {ready : List (Nat × Bool)} {attempts attempt : Nat}
  {frames : List Frame} {body : Bytes} {trailers reset : Bool}

theorem framesOf_concat_self : framesOf (sent ++ frames.map fun frame => (attempt, frame)) attempt =
      framesOf sent attempt ++ frames := by
  simp [framesOf, filter_map, Function.comp_def]

theorem framesOf_concat_ne {other : Nat} (h : other ≠ attempt) :
    framesOf (sent ++ frames.map fun frame => (other, frame)) attempt = framesOf sent attempt := by
  simp [framesOf, filter_map, Function.comp_def, h]

theorem framesOf_unsent (h : ∀ f ∈ sent, f.1 ≤ attempts) : framesOf sent (attempts + 1) = [] := by
  rw [framesOf, map_eq_nil_iff, filter_eq_nil_iff]
  intro f hf
  have hle := h f hf
  simp only [decide_eq_true_eq]
  omega

/-- The frames of a retry that the pool was ready for: the whole request, or only its headers if
the stream was reset inside `encodeHeaders`. -/
def Replayed (frames : List Frame) (body : Bytes) (trailers reset : Bool) : Prop :=
  if reset then ∃ endStream, frames = [.headers endStream]
  else ∃ buffer : Option Bytes, buffer.getD [] = body ∧ frames = wholeRequest buffer trailers

/-- No frame is of an attempt to come, and every retry has sent what it should. -/
structure Replays (sent : List (Nat × Frame)) (ready : List (Nat × Bool)) (attempts : Nat)
    (body : Bytes) (trailers : Bool) : Prop where
  sent_le : ∀ f ∈ sent, f.1 ≤ attempts
  ready_le : ∀ p ∈ ready, p.1 ≤ attempts
  replayed : ∀ p ∈ ready, 2 ≤ p.1 → Replayed (framesOf sent p.1) body trailers p.2

theorem Replays.next (h : Replays sent ready attempts body trailers) :
    Replays sent ready (attempts + 1) body trailers where
  sent_le f hf := Nat.le_succ_of_le (h.sent_le f hf)
  ready_le p hp := Nat.le_succ_of_le (h.ready_le p hp)
  replayed := h.replayed

theorem replays_first (hone : attempts ≤ 1) (hsent : ∀ f ∈ sent, f.1 ≤ attempts)
    (hready : ∀ p ∈ ready, p.1 ≤ attempts) : Replays sent ready attempts body trailers where
  sent_le := hsent
  ready_le := hready
  replayed := by
    intro p hp hretry
    have hle := hready p hp
    omega

theorem Replays.poolReady (h : Replays sent ready attempts body trailers)
    (hunsent : 2 ≤ attempts → framesOf sent attempts = [])
    (hnew : 2 ≤ attempts → ∀ p ∈ ready, p.1 ≠ attempts)
    (hframes : 2 ≤ attempts → Replayed frames body trailers reset) :
    Replays (sent ++ frames.map fun frame => (attempts, frame)) (ready ++ [(attempts, reset)])
      attempts body trailers where
  sent_le := by
    intro f hf
    rcases mem_append.mp hf with hf | hf
    · exact h.sent_le f hf
    · obtain ⟨frame, -, rfl⟩ := mem_map.mp hf
      exact Nat.le_refl attempts
  ready_le := by
    intro p hp
    rcases mem_append.mp hp with hp | hp
    · exact h.ready_le p hp
    · obtain rfl := mem_singleton.mp hp
      exact Nat.le_refl attempts
  replayed := by
    intro p hp hretry
    rcases mem_append.mp hp with hp | hp
    · have hne : p.1 ≠ attempts := by
        intro heq
        exact hnew (heq ▸ hretry) p hp heq
      rw [framesOf_concat_ne (Ne.symm hne)]
      exact h.replayed p hp hretry
    · obtain rfl := mem_singleton.mp hp
      rw [framesOf_concat_self, hunsent hretry, nil_append]
      exact hframes hretry

end Frames

/-- A retry that waits for the pool has the whole request. -/
structure Waiting (s : Filter) (u : UpstreamRequest) : Prop where
  complete : u.encodeComplete = true
  buffer : u.bufferedRequestBody = s.decodingBuffer
  trailers : u.encodeTrailers = s.downstreamTrailers
  body : s.decodingBuffer.getD [] = s.received
  unsent : framesOf s.sent s.attempts = []
  new : ∀ p ∈ s.poolReady, p.1 ≠ s.attempts

/-- What a run knows about the retries. -/
structure Log (s : Filter) : Prop where
  fresh : s.decoded = false →
    s.attempts = 0 ∧ s.decodingBuffer.getD [] = s.received ∧ s.exceeded = false
  later : 2 ≤ s.attempts → s.remoteComplete = true
  replays : Replays s.sent s.poolReady s.attempts s.received s.downstreamTrailers
  buffered : ∀ r, s.retryState = some r → r.enabled = true → s.decodingBuffer.getD [] = s.received
  waiting : ∀ u, s.upstreamRequest = some u → u.connPoolStreamHandle = true → 2 ≤ s.attempts →
    Waiting s u
  disabled : s.exceeded = true → ∀ r, s.retryState = some r → r.enabled = false

/-- A step keeps the log, and over the buffer limit it starts no attempt. -/
structure Advances (s s' : Filter) : Prop where
  log : Log s'
  stops : s.exceeded = true → s'.exceeded = true ∧ s'.attempts = s.attempts

section Log

variable {s s' : Filter} {u : UpstreamRequest} {i : Inputs}

theorem log_create (bufferLimit : Nat) : Log (create bufferLimit) where
  fresh := fun _ => ⟨rfl, rfl, rfl⟩
  later := by
    intro h
    cases h
  replays := replays_first (Nat.zero_le 1) (fun _ hf => by cases hf) (fun _ hp => by cases hp)
  buffered := by
    intro r hr
    cases hr
  waiting := by
    intro u hu
    cases hu
  disabled := by
    intro h
    cases h

theorem Log.kept (h : Log s) (hkept : Kept s s') : Log s' where
  fresh := by
    rw [hkept.decoded, hkept.attempts, hkept.decodingBuffer, hkept.received, hkept.exceeded]
    exact h.fresh
  later := by
    rw [hkept.attempts, hkept.remoteComplete]
    exact h.later
  replays := by
    rw [hkept.sent, hkept.poolReady, hkept.attempts, hkept.received, hkept.downstreamTrailers]
    exact h.replays
  buffered := by
    intro r' hr' henabled
    obtain ⟨r, hr, hon⟩ := hkept.retryState r' hr'
    rw [hkept.decodingBuffer, hkept.received]
    apply h.buffered r hr
    unfold RetryState.enabled at henabled ⊢
    rw [← hon]
    exact henabled
  waiting := by
    intro u' hu' hhandle hretry
    obtain ⟨u, hu, hold⟩ := hkept.pending u' hu' hhandle
    rw [hkept.attempts] at hretry
    have hwait := h.waiting u hu hold.handle hretry
    refine ⟨hold.complete.trans hwait.complete, ?_, ?_, ?_, ?_, ?_⟩
    · rw [hkept.decodingBuffer]
      exact hold.body.trans hwait.buffer
    · rw [hkept.downstreamTrailers]
      exact hold.trailers.trans hwait.trailers
    · rw [hkept.decodingBuffer, hkept.received]
      exact hwait.body
    · rw [hkept.sent, hkept.attempts]
      exact hwait.unsent
    · rw [hkept.poolReady, hkept.attempts]
      exact hwait.new
  disabled := by
    intro hexceeded r' hr'
    obtain ⟨r, hr, hon⟩ := hkept.retryState r' hr'
    rw [hkept.exceeded] at hexceeded
    have hoff := h.disabled hexceeded r hr
    unfold RetryState.enabled at hoff ⊢
    rw [hon]
    exact hoff

theorem Log.advances_kept (h : Log s) (hkept : Kept s s') : Advances s s' where
  log := h.kept hkept
  stops := by
    rw [hkept.exceeded, hkept.attempts]
    exact fun hexceeded => ⟨hexceeded, rfl⟩

theorem log_first (hdecoded : s.decoded = true) (hone : s.attempts ≤ 1)
    (hsent : ∀ f ∈ s.sent, f.1 ≤ s.attempts) (hready : ∀ p ∈ s.poolReady, p.1 ≤ s.attempts)
    (hbuffered : ∀ r, s.retryState = some r → r.enabled = true →
      s.decodingBuffer.getD [] = s.received)
    (hdisabled : s.exceeded = true → ∀ r, s.retryState = some r → r.enabled = false) : Log s where
  fresh := by
    intro h
    rw [hdecoded] at h
    cases h
  later := by
    intro h
    omega
  replays := replays_first hone hsent hready
  buffered := hbuffered
  waiting := by
    intro u _ _ h
    omega
  disabled := hdisabled

theorem Waiting.frames (h : Waiting s u) :
    headersFrame u :: bufferedFrames u = wholeRequest s.decodingBuffer s.downstreamTrailers := by
  unfold headersFrame bufferedFrames wholeRequest replayFrames
  rw [h.complete, h.buffer, h.trailers]
  cases s.decodingBuffer with
  | none => simp only [Bool.and_true]
  | some body => simp only [Bool.and_true, Bool.true_and]

theorem Log.poolReady (h : Log s) (hu : s.upstreamRequest = some u)
    (hhandle : u.connPoolStreamHandle = true) {u' : UpstreamRequest}
    (hhandle' : u'.connPoolStreamHandle = false) {frames : List Frame} (reset : Bool)
    (hframes : Waiting s u → Replayed frames s.received s.downstreamTrailers reset) (pool : Bool)
    (stream : Option Bool) : Log ({ s with
      pool := pool
      stream := stream
      upstreamRequest := some u'
      poolReady := s.poolReady ++ [(s.attempts, reset)] }.send frames) where
  fresh := h.fresh
  later := h.later
  replays := by
    apply h.replays.poolReady
    · exact fun hretry => (h.waiting u hu hhandle hretry).unsent
    · exact fun hretry => (h.waiting u hu hhandle hretry).new
    · exact fun hretry => hframes (h.waiting u hu hhandle hretry)
  buffered := h.buffered
  waiting := by
    intro v hv hpending
    cases hv
    rw [hhandle'] at hpending
    cases hpending
  disabled := h.disabled

theorem onPoolReady_advances (h : Log s) (hu : s.upstreamRequest = some u)
    (hhandle : u.connPoolStreamHandle = true) {reset : Option StreamResetReason}
    (hs : s.onPoolReady u reset i = some s') : Advances s s' := by
  cases reset with
  | none =>
    rw [onPoolReady_ready] at hs
    cases hs
    refine ⟨?_, fun hexceeded => ⟨hexceeded, rfl⟩⟩
    apply h.poolReady hu hhandle rfl false
    intro hwait
    exact ⟨s.decodingBuffer, hwait.body, hwait.frames⟩
  | some reason =>
    rw [onPoolReady_reset] at hs
    have hkept := kept_onUpstreamReset hs
    refine ⟨Log.kept ?_ hkept, ?_⟩
    · exact h.poolReady hu hhandle rfl true (fun _ => ⟨_, rfl⟩) false none
    · intro hexceeded
      exact ⟨hkept.exceeded.trans hexceeded, hkept.attempts⟩

end Log

end Filter

end Meliproxy.Envoy.Router
