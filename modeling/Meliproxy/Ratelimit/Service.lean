import Meliproxy.Ratelimit.Pipeline
import Meliproxy.Ratelimit.Config

/-!
# `ShouldRateLimit` and the runs of the service

A call reads the current configuration once and touches Redis once, with one pipeline.
So a run of the service, whatever its goroutines do, is a list of calls in the order of
their pipelines, each with the configuration and the clock that it saw.
-/

namespace Meliproxy.Ratelimit

open Lib

variable {σ : Type}

/-- What one call of `ShouldRateLimit` reads from outside: its request, the
configuration current at its start, the outcome of `pool.Get`, the clock and the
jitter. -/
structure Call where
  request : Pb.RateLimitRequest
  config : Option Config.RateLimitConfigImpl
  connect : Except Bytes Unit
  now : Int
  jitter : Nat → Int

def finalCode (statuses : List Pb.DescriptorStatus) : Pb.Code :=
  statuses.foldl (fun code status => if status.code = .overLimit then status.code else code) .ok

def limitsToCheck (config : Config.RateLimitConfigImpl) (request : Pb.RateLimitRequest) :
    List (Option Config.RateLimit) :=
  request.descriptors.map (Config.getLimit config request.domain)

variable (server : Server σ) (cache : RateLimitCacheImpl)

/-- The rest of `shouldRateLimitWorker`, once the limits are known. -/
def answer (call : Call) (limits : List (Option Config.RateLimit)) (w : World σ) :
    Except Panic Pb.RateLimitResponse × World σ :=
  let ended := doLimit server cache call.connect call.request limits call.now call.jitter w
  match ended.result with
  | .error e => (.error e, ended.world)
  | .ok statuses =>
    if limits.length ≠ statuses.length then
      (.error (.runtime (ascii "assertion failed")), ended.world)
    else (.ok ⟨finalCode statuses, statuses⟩, ended.world)

def shouldRateLimitWorker (call : Call) (w : World σ) : Except Panic Pb.RateLimitResponse × World σ :=
  if call.request.domain = [] then
    (.error (.serviceError (ascii "rate limit domain must not be empty")), w)
  else if call.request.descriptors = [] then
    (.error (.serviceError (ascii "rate limit descriptor list must not be empty")), w)
  else
    match call.config with
    | none => (.error (.serviceError (ascii "no rate limit configuration loaded")), w)
    | some snappedConfig =>
      answer server cache call (limitsToCheck snappedConfig call.request) w

/-- The deferred function of `ShouldRateLimit`: errors of Redis and of the service become the error
of the reply, any other panic goes on. -/
def recoverCall : Except Panic Pb.RateLimitResponse × World σ →
    Except Panic (Except Bytes Pb.RateLimitResponse) × World σ
  | (.ok response, w) => (.ok (.ok response), w)
  | (.error (.redisError text), w) =>
    (.ok (.error text), w.addStat (ascii "call.should_rate_limit.redis_error") 1)
  | (.error (.serviceError text), w) =>
    (.ok (.error text), w.addStat (ascii "call.should_rate_limit.service_error") 1)
  | (.error e, w) => (.error e, w)

def shouldRateLimit (call : Call) (w : World σ) :
    Except Panic (Except Bytes Pb.RateLimitResponse) × World σ :=
  recoverCall (shouldRateLimitWorker server cache call w)

def sentCmds (cache : RateLimitCacheImpl) (call : Call) : List Cmd :=
  match call.config, call.connect with
  | some config, .ok _ =>
    if call.request.domain = [] ∨ call.request.descriptors = [] then []
    else callCmds cache call.request (limitsToCheck config call.request) call.now call.jitter
  | _, _ => []

/-- The outcome of a call, as far as the server and the statuses go. -/
def Outcome (call : Call) (s : σ) :
    Except Panic (Except Bytes Pb.RateLimitResponse) × World σ → Prop
  | (.error _, _) => False
  | (.ok (.error _), w) => w.server = (server.pipeline s (sentCmds cache call)).1
  | (.ok (.ok response), w) => w.server = (server.pipeline s (sentCmds cache call)).1 ∧
      ∃ config, call.config = some config ∧
        sentCmds cache call =
          callCmds cache call.request (limitsToCheck config call.request) call.now call.jitter ∧
        Attributed (max 1 call.request.hitsAddend)
          (callItems call.request (limitsToCheck config call.request) call.now)
          (server.pipeline s (sentCmds cache call)).2 response.statuses

theorem length_limitsToCheck (config : Config.RateLimitConfigImpl) (request : Pb.RateLimitRequest) :
    request.descriptors.length = (limitsToCheck config request).length := by
  simp [limitsToCheck]

theorem pipeline_nil (server : Server σ) (s : σ) : server.pipeline s [] = (s, []) := rfl

theorem shouldRateLimit_outcome (call : Call) (w : World σ) :
    Outcome server cache call w.server (shouldRateLimit server cache call w) := by
  by_cases hdomain : call.request.domain = []
  · have hsent : sentCmds cache call = [] := by
      cases hconfig : call.config <;> cases hconnect : call.connect <;>
        simp [sentCmds, hconfig, hconnect, hdomain]
    simp [shouldRateLimit, shouldRateLimitWorker, recoverCall, hdomain, Outcome, hsent, pipeline_nil,
      World.addStat]
  by_cases hempty : call.request.descriptors = []
  · have hsent : sentCmds cache call = [] := by
      cases hconfig : call.config <;> cases hconnect : call.connect <;>
        simp [sentCmds, hconfig, hconnect, hempty]
    simp [shouldRateLimit, shouldRateLimitWorker, recoverCall, hdomain, hempty, Outcome, hsent, pipeline_nil,
      World.addStat]
  cases hconfig : call.config with
  | none =>
    simp [shouldRateLimit, shouldRateLimitWorker, recoverCall, hdomain, hempty, hconfig, Outcome, sentCmds,
      pipeline_nil, World.addStat]
  | some config =>
    have hlen := length_limitsToCheck config call.request
    cases hconnect : call.connect with
    | error text =>
      simp [shouldRateLimit, shouldRateLimitWorker, recoverCall, answer, hdomain, hempty, hconfig,
        hconnect, doLimit, Outcome, sentCmds, pipeline_nil, World.addStat]
    | ok u =>
      obtain ⟨unread, hran⟩ := doLimit_ran server cache call.request
        (limitsToCheck config call.request) call.now call.jitter w hlen
      have hsent : sentCmds cache call = callCmds cache call.request
          (limitsToCheck config call.request) call.now call.jitter := by
        simp [sentCmds, hconfig, hconnect, hdomain, hempty]
      have hserver := hran.server_eq
      rw [← hsent] at hserver
      rcases hran.result with ⟨statuses, hok, -, hat⟩ | ⟨text, herr, -⟩
      · have hcount : (limitsToCheck config call.request).length = statuses.length := by
          rw [hat.length_eq, length_callItems _ _ _ hlen, hlen]
        simp only [shouldRateLimit, shouldRateLimitWorker, recoverCall, answer, hdomain, hempty,
          hconfig, hconnect, if_false, hok, hcount, ne_eq, not_true_eq_false, Outcome]
        refine ⟨hserver, config, rfl, hsent, ?_⟩
        rw [hsent]
        exact hat
      · simp only [shouldRateLimit, shouldRateLimitWorker, recoverCall, answer, hdomain, hempty,
          hconfig, hconnect, if_false, herr, Outcome]
        exact hserver

/-- A run of the service: the outcomes of its calls, in the order of their pipelines. -/
def serve : World σ → List Call →
    List (Call × Except Panic (Except Bytes Pb.RateLimitResponse))
  | _, [] => []
  | w, call :: calls =>
    let (outcome, w) := shouldRateLimit server cache call w
    (call, outcome) :: serve w calls

end Meliproxy.Ratelimit
