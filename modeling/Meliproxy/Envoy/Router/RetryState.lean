import Meliproxy.Envoy.Network.Connection
import Mathlib.Data.UInt

/-!
# The retry state of a request

`RetryStateImpl` counts the retries that a request has left and keeps the back-off timer
and the callback of the retry it has granted. What the resource manager and the runtime
answer is an input of `shouldRetry`.
-/

namespace Meliproxy.Envoy.Router

/-- What the router reads of response headers or trailers. -/
structure ResponseHeaders where
  status : Nat
  overloaded : Bool
  grpcStatus : Option Nat

def is5xx (code : Nat) : Bool := 500 ≤ code && code < 600

namespace RetryPolicy

def retryOn5xx : UInt32 := 0x1
def retryOnConnectFailure : UInt32 := 0x2
def retryOnRetriable4xx : UInt32 := 0x4
def retryOnRefusedStream : UInt32 := 0x8
def retryOnGrpcCancelled : UInt32 := 0x10
def retryOnGrpcDeadlineExceeded : UInt32 := 0x20
def retryOnGrpcResourceExhausted : UInt32 := 0x40

end RetryPolicy

inductive RetryStatus where
  | no
  | noOverflow
  | yes
  deriving DecidableEq

structure RetryState where
  retryOn : UInt32
  retriesRemaining : UInt32
  callback : Bool
  retryTimer : Bool

/-- What `shouldRetry` asks others about: `retries().canCreate()` and the runtime key
`upstream.use_retry`. -/
structure RetryInputs where
  canCreate : Bool
  useRetry : Bool

namespace RetryState

def create (retryOn retriesRemaining : UInt32) : RetryState := ⟨retryOn, retriesRemaining, false, false⟩

variable (r : RetryState)

def enabled : Bool := r.retryOn ≠ 0

def has (flag : UInt32) : Bool := r.retryOn &&& flag ≠ 0

/-- The `grpc-status` values 1, 4 and 8 are `Canceled`, `DeadlineExceeded` and
`ResourceExhausted`. -/
def wouldRetryGrpc (headers : ResponseHeaders) : Bool :=
  (headers.grpcStatus = some 1 && r.has RetryPolicy.retryOnGrpcCancelled) ||
    (headers.grpcStatus = some 4 && r.has RetryPolicy.retryOnGrpcDeadlineExceeded) ||
      (headers.grpcStatus = some 8 && r.has RetryPolicy.retryOnGrpcResourceExhausted)

def wouldRetryHeaders (headers : ResponseHeaders) : Bool :=
  !headers.overloaded &&
    ((r.has RetryPolicy.retryOn5xx && is5xx headers.status) ||
      (r.has RetryPolicy.retryOnRetriable4xx && headers.status = 409) ||
        r.wouldRetryGrpc headers)

def wouldRetryReset (reason : StreamResetReason) : Bool :=
  reason ≠ .overflow &&
    (r.has RetryPolicy.retryOn5xx ||
      (r.has RetryPolicy.retryOnRefusedStream && reason = .remoteRefusedStreamReset) ||
        (r.has RetryPolicy.retryOnConnectFailure && reason = .connectionFailure))

def shouldRetry (would : Bool) (i : RetryInputs) : RetryState × RetryStatus :=
  let r := { r with callback := false }
  if r.retriesRemaining = 0 then (r, .no)
  else
    let r := { r with retriesRemaining := r.retriesRemaining - 1 }
    if !would then (r, .no)
    else if !i.canCreate then (r, .noOverflow)
    else if !i.useRetry then (r, .no)
    else
      ({ r with
        callback := true
        retryTimer := true }, .yes)

variable {r : RetryState}

theorem has_eq_false (h : r.enabled = false) (flag : UInt32) : r.has flag = false := by
  have hzero : r.retryOn = 0 := by simpa [enabled] using h
  simp [has, hzero]

theorem wouldRetryHeaders_enabled {headers : ResponseHeaders}
    (h : r.wouldRetryHeaders headers = true) : r.enabled = true := by
  by_contra hne
  have hoff := has_eq_false (Bool.eq_false_iff.mpr hne)
  simp [wouldRetryHeaders, wouldRetryGrpc, hoff] at h

theorem wouldRetryReset_enabled {reason : StreamResetReason}
    (h : r.wouldRetryReset reason = true) : r.enabled = true := by
  by_contra hne
  have hoff := has_eq_false (Bool.eq_false_iff.mpr hne)
  simp [wouldRetryReset, hoff] at h

theorem shouldRetry_retryOn (would : Bool) (i : RetryInputs) :
    (r.shouldRetry would i).1.retryOn = r.retryOn := by
  simp only [shouldRetry]
  split
  · rfl
  split
  · rfl
  split
  · rfl
  split <;> rfl

theorem shouldRetry_yes {would : Bool} {i : RetryInputs} (h : (r.shouldRetry would i).2 = .yes) :
    would = true ∧ (r.shouldRetry would i).1.retryTimer = true := by
  simp only [shouldRetry] at h ⊢
  split at h
  · cases h
  split at h
  · cases h
  split at h
  · cases h
  split at h
  · cases h
  · rename_i hleft hwould hcan huse
    refine ⟨by simpa using hwould, ?_⟩
    rw [if_neg hleft, if_neg hwould, if_neg hcan, if_neg huse]

end RetryState

end Meliproxy.Envoy.Router
