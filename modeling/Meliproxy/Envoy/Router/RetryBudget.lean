import Meliproxy.Lib.Runs
import Meliproxy.Envoy.Common.DecimalText
import Meliproxy.Envoy.Router.RetryState
import Mathlib.Data.Nat.Prime.Basic

/-!
# The retries of a request

`RetryStateImpl` with what its constructor reads, the back-off timer, and the `retries` resource of
the cluster, which other requests take and release too. `errno` is what an earlier call has left.
-/

namespace Meliproxy.Envoy.Router

open Lib List Option Bool

/-- The headers of the request and the policy of the route. -/
structure RetryRequest where
  retryOn : Option Bytes
  retryGrpcOn : Option Bytes
  maxRetries : Option Bytes
  routeRetryOn : UInt32
  numRetries : UInt32
  errno : Bool

namespace RetryRequest

def retryOnFlag (retryOn : Bytes) : UInt32 :=
  if retryOn = ascii "5xx" then RetryPolicy.retryOn5xx
  else if retryOn = ascii "connect-failure" then RetryPolicy.retryOnConnectFailure
  else if retryOn = ascii "retriable-4xx" then RetryPolicy.retryOnRetriable4xx
  else if retryOn = ascii "refused-stream" then RetryPolicy.retryOnRefusedStream
  else 0

def retryGrpcOnFlag (retryOn : Bytes) : UInt32 :=
  if retryOn = ascii "cancelled" then RetryPolicy.retryOnGrpcCancelled
  else if retryOn = ascii "deadline-exceeded" then RetryPolicy.retryOnGrpcDeadlineExceeded
  else if retryOn = ascii "resource-exhausted" then RetryPolicy.retryOnGrpcResourceExhausted
  else 0

def parseFlags (flag : Bytes → UInt32) (config : Bytes) : UInt32 :=
  (StringUtil.split (cStr config) [44]).foldl (fun ret word => ret ||| flag word) 0

variable (request : RetryRequest)

def headerRetryOn : UInt32 :=
  (request.retryOn.map (parseFlags retryOnFlag)).getD 0 |||
    (request.retryGrpcOn.map (parseFlags retryGrpcOnFlag)).getD 0

/-- The value of `x-envoy-max-retries` as far as it is read, and 1 by default. -/
def headerRetries : UInt32 :=
  match request.maxRetries with
  | none => 1
  | some maxRetries =>
    if request.headerRetryOn ≠ 0 then
      match StringUtil.atoul request.errno maxRetries 10 with
      | some temp => temp.toUInt32
      | none => 1
    else 1

def construct : RetryState :=
  .create (request.headerRetryOn ||| request.routeRetryOn)
    (max request.headerRetries request.numRetries)

end RetryRequest

/-- Either response headers or a reason of a reset. -/
inductive RetryAnswer where
  | headers (headers : ResponseHeaders)
  | reset (reason : StreamResetReason)

def RetryState.wouldRetry (r : RetryState) : RetryAnswer → Bool
  | .headers headers => r.wouldRetryHeaders headers
  | .reset reason => r.wouldRetryReset reason

/-- The delay, with `none` where `(1 << current_retry_) - 1` overflows or the modulus is zero. -/
def backoff (currentRetry : UInt32) (base random : UInt64) : Option UInt64 :=
  if currentRetry < 31 then
    let multiplier : UInt32 := (1 <<< currentRetry) - 1
    let modulus := base * multiplier.toUInt64
    if modulus = 0 then none else some (random % modulus)
  else none

/-- What a granted retry has found: the answer of `canCreate`, and the values of its back-off. -/
structure Grant where
  canCreate : Bool
  base : UInt64
  delay : Option UInt64

/-- `retries` is the count of the resource, `others` of those taken by other requests, and `grants`
is a history. -/
structure RetryObject where
  retry : RetryState
  currentRetry : UInt32
  retries : Nat
  others : Nat
  grants : List Grant
  destroyed : Bool

namespace RetryObject

def start (request : RetryRequest) : RetryObject := ⟨request.construct, 0, 0, 0, [], false⟩

/-- The values of the runtime that a call reads: the maximum of the resource, `upstream.use_retry`
and `upstream.base_retry_backoff_ms`, and the number that is drawn. -/
structure RetryCall where
  answer : RetryAnswer
  max : Nat
  useRetry : Bool
  base : UInt64
  random : UInt64

inductive Event where
  | shouldRetry (call : RetryCall)
  | takeOther
  | releaseOther
  | destroy

variable (s : RetryObject)

def resetRetry : RetryObject :=
  if s.retry.callback then
    { s with
      retries := s.retries - 1
      retry := { s.retry with callback := false } }
  else s

def enableBackoffTimer (canCreate : Bool) (base random : UInt64) : RetryObject :=
  { s with
    currentRetry := s.currentRetry + 1
    grants := s.grants ++ [⟨canCreate, base, backoff (s.currentRetry + 1) base random⟩] }

def shouldRetry (call : RetryCall) : RetryObject × RetryStatus :=
  let s := s.resetRetry
  let canCreate : Bool := s.retries < call.max
  let (retry, status) :=
    s.retry.shouldRetry (s.retry.wouldRetry call.answer) ⟨canCreate, call.useRetry⟩
  if status = .yes then
    let s := { s with
      retry := retry
      retries := s.retries + 1 }
    (s.enableBackoffTimer canCreate call.base call.random, status)
  else ({ s with retry := retry }, status)

def step : Event → Option RetryObject
  | .shouldRetry call => if s.destroyed then none else some (s.shouldRetry call).1
  | .takeOther =>
    some { s with
      retries := s.retries + 1
      others := s.others + 1 }
  | .releaseOther =>
    if s.others = 0 then none
    else
      some { s with
        retries := s.retries - 1
        others := s.others - 1 }
  | .destroy => if s.destroyed then none else some { s.resetRetry with destroyed := true }

end RetryObject

/-! ## What is wanted -/

def RetryRequest.maxRetriesValue (request : RetryRequest) : Option Int :=
  request.maxRetries.bind fun maxRetries => StringUtil.decimalValue (cStr maxRetries)

structure RetryObject.KeepsBudget (s : RetryObject) (request : RetryRequest) : Prop where
  granted : (s.grants.length : Int) ≤ max (request.maxRetriesValue.getD 1) request.numRetries.toNat
  contribution : s.retries = s.others + if s.retry.callback then 1 else 0
  destroyed : s.destroyed = true → s.retry.callback = false
  canCreate : ∀ grant ∈ s.grants, grant.canCreate = true

def RetryState.retriesAny (r : RetryState) : Bool :=
  r.has RetryPolicy.retryOn5xx || r.has RetryPolicy.retryOnConnectFailure ||
    r.has RetryPolicy.retryOnRetriable4xx || r.has RetryPolicy.retryOnRefusedStream ||
      r.has RetryPolicy.retryOnGrpcCancelled || r.has RetryPolicy.retryOnGrpcDeadlineExceeded ||
        r.has RetryPolicy.retryOnGrpcResourceExhausted

/-- The header is looked at, and its number is one that `atoul` takes. -/
def RetryRequest.TakesHeader (request : RetryRequest) (value : Int) : Prop :=
  request.headerRetryOn ≠ 0 ∧ StringUtil.TakesValue request.errno value

/-- No answer would be retried, the header has no number, or its number is kept: one that is taken
is not negative, or small enough modulo `2 ^ 32`, and with one that is not taken a default of one
retry is allowed. -/
def RetryRequest.Regular (request : RetryRequest) : Prop :=
  request.construct.retriesAny = true → ∀ value ∈ request.maxRetriesValue,
    (request.TakesHeader value → 0 ≤ value ∨ value % 2 ^ 32 ≤ request.numRetries.toNat) ∧
      (¬request.TakesHeader value → 1 ≤ value ∨ 1 ≤ request.numRetries)

/-!
## Runs of the retry state

How many retries a request is granted, what it adds to the resource of the cluster, and when the
back-off of a retry is defined.
-/

namespace RetryRequest

variable {request : RetryRequest}

def allowed (request : RetryRequest) : Int :=
  max (request.maxRetriesValue.getD 1) request.numRetries.toNat

theorem headerRetries_of_none (h : request.maxRetriesValue = none) : request.headerRetries = 1 := by
  rw [maxRetriesValue] at h
  rw [headerRetries]
  cases hheader : request.maxRetries with
  | none => rfl
  | some maxRetries =>
    rw [hheader, bind_some] at h
    simp only [StringUtil.atoul_ten, h, bind_none]
    split <;> rfl

theorem headerRetries_of_some {value : Int} (h : request.maxRetriesValue = some value) :
    (request.TakesHeader value → (request.headerRetries.toNat : Int) = value % 2 ^ 32) ∧
      (¬request.TakesHeader value → request.headerRetries = 1) := by
  obtain ⟨maxRetries, hheader, hvalue⟩ := bind_eq_some_iff.mp h
  simp only [headerRetries, hheader, StringUtil.atoul_ten, hvalue, bind_some]
  constructor
  · rintro ⟨hpolicy, htakes⟩
    simp only [if_pos hpolicy, if_pos htakes]
    rw [Nat.toUInt32, UInt32.toNat_ofNat', StringUtil.ulongMax]
    omega
  · intro hnot
    split
    · rename_i hpolicy
      rw [if_neg fun htakes => hnot ⟨hpolicy, htakes⟩]
    · rfl

theorem toNat_max (a b : UInt32) : (max a b).toNat = max a.toNat b.toNat := by
  change (if a ≤ b then b else a).toNat = _
  split
  · rename_i hle
    exact (Nat.max_eq_right (UInt32.le_iff_toNat_le.mp hle)).symm
  · rename_i hlt
    have hlt := UInt32.lt_iff_toNat_lt.mp (UInt32.not_le.mp hlt)
    exact (Nat.max_eq_left (Nat.le_of_lt hlt)).symm

theorem construct_le_allowed_iff :
    (request.construct.retriesRemaining.toNat : Int) ≤ request.allowed ↔
      ∀ value ∈ request.maxRetriesValue,
        (request.TakesHeader value → 0 ≤ value ∨ value % 2 ^ 32 ≤ request.numRetries.toNat) ∧
          (¬request.TakesHeader value → 1 ≤ value ∨ 1 ≤ request.numRetries) := by
  have hremaining : request.construct.retriesRemaining.toNat =
      max request.headerRetries.toNat request.numRetries.toNat := toNat_max _ _
  have hone : (1 : UInt32) ≤ request.numRetries ↔ 1 ≤ request.numRetries.toNat :=
    UInt32.le_iff_toNat_le
  rw [hremaining, allowed]
  cases hvalue : request.maxRetriesValue with
  | none =>
    have hdefault := congrArg UInt32.toNat (headerRetries_of_none hvalue)
    change _ = 1 at hdefault
    rw [getD_none]
    apply iff_of_true (by omega)
    intro value hmem
    cases hmem
  | some value =>
    obtain ⟨htaken, hnotTaken⟩ := headerRetries_of_some hvalue
    rw [getD_some]
    simp only [mem_some_iff, forall_eq']
    by_cases htakes : request.TakesHeader value
    · have hheader := htaken htakes
      rw [and_iff_left fun hnot => absurd htakes hnot, forall_prop_of_true htakes]
      omega
    · have hheader := congrArg UInt32.toNat (hnotTaken htakes)
      rw [and_iff_right fun h => absurd h htakes, forall_prop_of_true htakes, hone]
      change _ = 1 at hheader
      omega

end RetryRequest

namespace RetryState

variable {r : RetryState} {answer : RetryAnswer}

theorem retriesAny_congr {r' : RetryState} (h : r'.retryOn = r.retryOn) :
    r'.retriesAny = r.retriesAny := by
  simp only [retriesAny, has, h]

theorem retriesAny_of_wouldRetry (h : r.wouldRetry answer = true) : r.retriesAny = true := by
  cases answer with
  | headers headers =>
    simp only [wouldRetry, wouldRetryHeaders, wouldRetryGrpc, and_eq_true,
      or_eq_true] at h
    simp only [retriesAny, or_eq_true]
    tauto
  | reset reason =>
    simp only [wouldRetry, wouldRetryReset, and_eq_true, or_eq_true] at h
    simp only [retriesAny, or_eq_true]
    tauto

theorem exists_wouldRetry (h : r.retriesAny = true) : ∃ answer, r.wouldRetry answer = true := by
  simp only [retriesAny, or_eq_true] at h
  rcases h with (((((h5xx | hconnect) | h4xx) | hrefused) | hcancelled) | hdeadline) | hexhausted
  · exact ⟨.reset .connectionFailure, by simp [wouldRetry, wouldRetryReset, h5xx]⟩
  · exact ⟨.reset .connectionFailure, by simp [wouldRetry, wouldRetryReset, hconnect]⟩
  · exact ⟨.headers ⟨409, false, none⟩, by simp [wouldRetry, wouldRetryHeaders, h4xx]⟩
  · exact ⟨.reset .remoteRefusedStreamReset, by simp [wouldRetry, wouldRetryReset, hrefused]⟩
  · exact ⟨.headers ⟨200, false, some 1⟩,
      by simp [wouldRetry, wouldRetryHeaders, wouldRetryGrpc, hcancelled]⟩
  · exact ⟨.headers ⟨200, false, some 4⟩,
      by simp [wouldRetry, wouldRetryHeaders, wouldRetryGrpc, hdeadline]⟩
  · exact ⟨.headers ⟨200, false, some 8⟩,
      by simp [wouldRetry, wouldRetryHeaders, wouldRetryGrpc, hexhausted]⟩

theorem one_le_of_ne_zero {n : UInt32} (h : n ≠ 0) : 1 ≤ n := by
  apply UInt32.le_iff_toNat_le.mpr
  have hne : n.toNat ≠ 0 := fun hzero => h (UInt32.toNat_inj.mp hzero)
  exact Nat.one_le_iff_ne_zero.mpr hne

theorem shouldRetry_cases (r : RetryState) (would : Bool) (i : RetryInputs) :
    ((r.shouldRetry would i).2 ≠ .yes ∧ (r.shouldRetry would i).1.callback = false ∧
        (r.shouldRetry would i).1.retriesRemaining ≤ r.retriesRemaining) ∨
      (would = true ∧ i.canCreate = true ∧ r.retriesRemaining ≠ 0 ∧
        r.shouldRetry would i = ({ r with
          retriesRemaining := r.retriesRemaining - 1
          callback := true
          retryTimer := true }, .yes)) := by
  have hless : r.retriesRemaining ≠ 0 → r.retriesRemaining - 1 ≤ r.retriesRemaining := by
    intro hne
    apply UInt32.le_iff_toNat_le.mpr
    rw [UInt32.toNat_sub_of_le _ _ (one_le_of_ne_zero hne)]
    exact Nat.sub_le _ _
  simp only [shouldRetry]
  by_cases hleft : r.retriesRemaining = 0
  · rw [if_pos hleft]
    exact .inl ⟨by simp, rfl, UInt32.le_refl _⟩
  rw [if_neg hleft]
  cases would with
  | false => exact .inl ⟨by simp, rfl, hless hleft⟩
  | true =>
    obtain ⟨canCreate, useRetry⟩ := i
    cases canCreate with
    | false => exact .inl ⟨by simp, rfl, hless hleft⟩
    | true =>
      cases useRetry with
      | false => exact .inl ⟨by simp, rfl, hless hleft⟩
      | true => exact .inr ⟨rfl, rfl, hleft, rfl⟩

end RetryState

namespace RetryObject

variable {s s' : RetryObject} {request : RetryRequest}

theorem resetRetry_eq : ∃ retries, s.resetRetry = { s with
    retry := { s.retry with callback := false }
    retries := retries } := by
  unfold resetRetry
  split
  · exact ⟨s.retries - 1, rfl⟩
  · rename_i hnone
    have hretry : { s.retry with callback := false } = s.retry := by
      rw [← eq_false_iff.mpr hnone]
    exact ⟨s.retries, by rw [hretry]⟩

theorem resetRetry_retries (h : s.retries = s.others + if s.retry.callback then 1 else 0) :
    s.resetRetry.retries = s.others := by
  unfold resetRetry
  split
  · rename_i hcallback
    rw [if_pos hcallback] at h
    change s.retries - 1 = s.others
    omega
  · rename_i hnone
    rw [if_neg hnone] at h
    exact h

structure Inv (request : RetryRequest) (s : RetryObject) : Prop where
  retryOn : s.retry.retryOn = request.construct.retryOn
  budget : s.grants.length + s.retry.retriesRemaining.toNat ≤
    request.construct.retriesRemaining.toNat
  policy : s.grants ≠ [] → request.construct.retriesAny = true
  current : s.currentRetry.toNat = s.grants.length
  contribution : s.retries = s.others + if s.retry.callback then 1 else 0
  destroyed : s.destroyed = true → s.retry.callback = false
  canCreate : ∀ grant ∈ s.grants, grant.canCreate = true
  delays : ∀ i grant, s.grants[i]? = some grant → i + 1 < 2 ^ 32 ∧
    ∃ random, grant.delay = backoff (i + 1).toUInt32 grant.base random

theorem Inv.start (request : RetryRequest) : Inv request (start request) where
  retryOn := rfl
  budget := Nat.le_of_eq (Nat.zero_add _)
  policy := fun h => absurd rfl h
  current := rfl
  contribution := rfl
  destroyed := nofun
  canCreate := nofun
  delays := nofun

variable (s)

def grant (call : RetryCall) : RetryObject :=
  { s with
    retry := { s.retry with
      retriesRemaining := s.retry.retriesRemaining - 1
      callback := true
      retryTimer := true }
    retries := s.resetRetry.retries + 1
    currentRetry := s.currentRetry + 1
    grants := s.grants ++
      [⟨true, call.base, backoff (s.currentRetry + 1) call.base call.random⟩] }

def refuse (retry : RetryState) : RetryObject :=
  { s with
    retry := retry
    retries := s.resetRetry.retries }

theorem shouldRetry_cases (call : RetryCall) :
    (∃ retry : RetryState, retry.callback = false ∧
        retry.retriesRemaining ≤ s.retry.retriesRemaining ∧ retry.retryOn = s.retry.retryOn ∧
        (s.shouldRetry call).1 = s.refuse retry) ∨
      (s.retry.wouldRetry call.answer = true ∧ s.retry.retriesRemaining ≠ 0 ∧
        s.resetRetry.retries < call.max ∧ (s.shouldRetry call).1 = s.grant call) := by
  obtain ⟨retries, hreset⟩ := resetRetry_eq (s := s)
  have hon := RetryState.shouldRetry_retryOn (r := { s.retry with callback := false })
    (s.retry.wouldRetry call.answer) ⟨decide (retries < call.max), call.useRetry⟩
  have hwouldReset : RetryState.wouldRetry { s.retry with callback := false } call.answer =
      s.retry.wouldRetry call.answer := rfl
  rw [shouldRetry, hreset]
  simp only [hwouldReset]
  rcases RetryState.shouldRetry_cases { s.retry with callback := false }
    (s.retry.wouldRetry call.answer) ⟨decide (retries < call.max), call.useRetry⟩ with
    ⟨hstatus, hcallback, hless⟩ | ⟨hwould, hcreate, hleft, hanswer⟩
  · refine .inl ⟨_, hcallback, hless, hon, ?_⟩
    rw [if_neg hstatus, refuse, hreset]
  · have hcanCreate := of_decide_eq_true hcreate
    refine .inr ⟨hwould, hleft, hcanCreate, ?_⟩
    rw [hanswer, if_pos rfl, grant, hreset, enableBackoffTimer]
    simp only [decide_eq_true hcanCreate]

variable {s}

theorem shouldRetry_grants (call : RetryCall) (hwould : s.retry.wouldRetry call.answer = true)
    (hleft : s.retry.retriesRemaining ≠ 0) (hcreate : s.resetRetry.retries < call.max)
    (huse : call.useRetry = true) : (s.shouldRetry call).1 = s.grant call := by
  obtain ⟨retries, hreset⟩ := resetRetry_eq (s := s)
  have hanswer : RetryState.shouldRetry { s.retry with callback := false } true ⟨true, true⟩ =
      ({ s.retry with
        retriesRemaining := s.retry.retriesRemaining - 1
        callback := true
        retryTimer := true }, .yes) := by
    simp only [RetryState.shouldRetry, if_neg hleft]
    rfl
  have hwouldReset : RetryState.wouldRetry { s.retry with callback := false } call.answer = true :=
    hwould
  rw [hreset] at hcreate
  rw [shouldRetry, hreset]
  simp [hwouldReset, decide_eq_true hcreate, huse, hanswer, grant, hreset, enableBackoffTimer]

theorem Inv.refuse (h : Inv request s) {retry : RetryState} (hcallback : retry.callback = false)
    (hless : retry.retriesRemaining ≤ s.retry.retriesRemaining)
    (hon : retry.retryOn = s.retry.retryOn) : Inv request (s.refuse retry) where
  retryOn := hon.trans h.retryOn
  budget := by
    have hless := UInt32.le_iff_toNat_le.mp hless
    have hbudget := h.budget
    change s.grants.length + retry.retriesRemaining.toNat ≤ _
    omega
  policy := h.policy
  current := h.current
  contribution := by
    change s.resetRetry.retries = s.others + if retry.callback then 1 else 0
    rw [resetRetry_retries h.contribution, hcallback]
    rfl
  destroyed := fun _ => hcallback
  canCreate := h.canCreate
  delays := h.delays

theorem Inv.grant (h : Inv request s) (call : RetryCall) (hgone : s.destroyed = false)
    (hwould : s.retry.wouldRetry call.answer = true) (hleft : s.retry.retriesRemaining ≠ 0) :
    Inv request (s.grant call) := by
  have hone := UInt32.le_iff_toNat_le.mp (RetryState.one_le_of_ne_zero hleft)
  have hremaining : (s.retry.retriesRemaining - 1).toNat = s.retry.retriesRemaining.toNat - 1 :=
    UInt32.toNat_sub_of_le _ _ (RetryState.one_le_of_ne_zero hleft)
  have hlimit := request.construct.retriesRemaining.toNat_lt
  have hbudget := h.budget
  change 1 ≤ _ at hone
  have hcurrent : (s.currentRetry + 1).toNat = s.grants.length + 1 := by
    rw [UInt32.toNat_add, h.current]
    change (s.grants.length + 1) % 2 ^ 32 = _
    omega
  constructor
  · exact h.retryOn
  · change (s.grants ++ [_]).length + (s.retry.retriesRemaining - 1).toNat ≤ _
    rw [hremaining, length_append, length_singleton]
    omega
  · intro _
    rw [← RetryState.retriesAny_congr h.retryOn]
    exact RetryState.retriesAny_of_wouldRetry hwould
  · change (s.currentRetry + 1).toNat = (s.grants ++ [_]).length
    rw [hcurrent, length_append, length_singleton]
  · change s.resetRetry.retries + 1 = s.others + 1
    rw [resetRetry_retries h.contribution]
  · intro hdestroyed
    exact absurd hdestroyed (by rw [RetryObject.grant, hgone]; decide)
  · intro grant hgrant
    rcases mem_append.mp hgrant with hbefore | hnew
    · exact h.canCreate grant hbefore
    · rw [mem_singleton.mp hnew]
  · intro i grant hgrant
    rcases entry_of_concat hgrant with hbefore | ⟨rfl, rfl⟩
    · exact h.delays i grant hbefore
    · have hindex : (s.grants.length + 1).toUInt32 = s.currentRetry + 1 := by
        apply UInt32.toNat_inj.mp
        rw [hcurrent, Nat.toUInt32, UInt32.toNat_ofNat_of_lt' (by rw [UInt32.size]; omega)]
      exact ⟨by omega, call.random, by rw [hindex]⟩

theorem Inv.step (h : Inv request s) {e : Event} (hstep : s.step e = some s') : Inv request s' := by
  cases e with
  | shouldRetry call =>
    simp only [RetryObject.step] at hstep
    split at hstep
    · cases hstep
    rename_i hgone
    cases hstep
    rcases shouldRetry_cases s call with
      ⟨retry, hcallback, hless, hon, heq⟩ | ⟨hwould, hleft, -, heq⟩
    · rw [heq]
      exact h.refuse hcallback hless hon
    · rw [heq]
      exact h.grant call (eq_false_iff.mpr hgone) hwould hleft
  | takeOther =>
    cases hstep
    refine { h with contribution := ?_ }
    have hcontribution := h.contribution
    change s.retries + 1 = s.others + 1 + if s.retry.callback then 1 else 0
    omega
  | releaseOther =>
    simp only [RetryObject.step] at hstep
    split at hstep
    · cases hstep
    cases hstep
    refine { h with contribution := ?_ }
    have hcontribution := h.contribution
    change s.retries - 1 = s.others - 1 + if s.retry.callback then 1 else 0
    omega
  | destroy =>
    simp only [RetryObject.step] at hstep
    split at hstep
    · cases hstep
    cases hstep
    obtain ⟨retries, hreset⟩ := resetRetry_eq (s := s)
    have hretries := resetRetry_retries h.contribution
    rw [hreset] at hretries ⊢
    exact { h with
      contribution := hretries
      destroyed := fun _ => rfl }

theorem exists_grants {n : Nat} (h : Inv request s) (hgone : s.destroyed = false)
    (hothers : s.others = 0) (hany : request.construct.retriesAny = true)
    (hn : n ≤ s.retry.retriesRemaining.toNat) :
    ∃ events s', run step s events = some s' ∧ s'.grants.length = s.grants.length + n := by
  induction n generalizing s with
  | zero => exact ⟨[], s, rfl, rfl⟩
  | succ n ih =>
    have hany' := hany
    rw [← RetryState.retriesAny_congr h.retryOn] at hany'
    obtain ⟨answer, hwould⟩ := RetryState.exists_wouldRetry hany'
    have hleft : s.retry.retriesRemaining ≠ 0 := by
      intro hzero
      rw [hzero] at hn
      cases hn
    have hcreate : s.resetRetry.retries < 1 := by
      rw [resetRetry_retries h.contribution, hothers]
      exact Nat.one_pos
    have hgrants := shouldRetry_grants ⟨answer, 1, true, 1, 0⟩ hwould hleft hcreate rfl
    have hremaining : (s.retry.retriesRemaining - 1).toNat = s.retry.retriesRemaining.toNat - 1 :=
      UInt32.toNat_sub_of_le _ _ (RetryState.one_le_of_ne_zero hleft)
    have hn' : n ≤ (s.retry.retriesRemaining - 1).toNat := by omega
    obtain ⟨events, s', hrun, hlength⟩ :=
      ih (h.grant ⟨answer, 1, true, 1, 0⟩ hgone hwould hleft) hgone hothers hn'
    refine ⟨.shouldRetry ⟨answer, 1, true, 1, 0⟩ :: events, s', ?_, ?_⟩
    · rw [run, RetryObject.step, if_neg (eq_false_iff.mp hgone), bind_some, hgrants]
      exact hrun
    · rw [hlength]
      change (s.grants ++ [_]).length + n = _
      rw [length_append, length_singleton]
      omega

/-- Every run keeps the budget if and only if the number in the header is kept. -/
theorem run_keepsBudget_iff (request : RetryRequest) :
    (∀ events s, run step (start request) events = some s → s.KeepsBudget request) ↔
      request.Regular := by
  constructor
  · intro hkeeps hany
    apply RetryRequest.construct_le_allowed_iff.mp
    obtain ⟨events, s, hrun, hlength⟩ :=
      exists_grants (Inv.start request) rfl rfl hany (Nat.le_refl _)
    have hgranted := (hkeeps events s hrun).granted
    rw [hlength] at hgranted
    change ((0 + request.construct.retriesRemaining.toNat : Nat) : Int) ≤ request.allowed
      at hgranted
    omega
  · intro hregular events s hrun
    have hinv : Inv request s := run_keeps (fun s e s' h hstep => Inv.step h hstep)
      (Inv.start request) hrun
    refine { hinv with granted := ?_ }
    by_cases hnone : s.grants = []
    · rw [hnone]
      change (0 : Int) ≤ request.allowed
      have hpos : (0 : Int) ≤ request.numRetries.toNat := Int.natCast_nonneg _
      rw [RetryRequest.allowed]
      omega
    · have hallowed := RetryRequest.construct_le_allowed_iff.mpr (hregular (hinv.policy hnone))
      have hbudget := hinv.budget
      change (s.grants.length : Int) ≤ request.allowed
      omega

section Sample

/-- A header that asks for -2 retries, which `strtoul` reads as `2 ^ 64 - 2`. -/
def sampleRequest : RetryRequest := ⟨some (ascii "5xx"), none, some (ascii "-2"), 0, 0, false⟩

def sampleCall : RetryCall := ⟨.reset .connectionFailure, 3, true, 25, 7⟩

theorem sample_granted : ∃ s, run step (start sampleRequest) [.shouldRetry sampleCall] = some s ∧
      ¬s.KeepsBudget sampleRequest := by
  have hview : (run step (start sampleRequest) [.shouldRetry sampleCall]).map
      (fun s => s.grants.length) = some 1 := by decide +kernel
  obtain ⟨s, hrun, hlength⟩ := map_eq_some_iff.mp hview
  refine ⟨s, hrun, ?_⟩
  intro hkeeps
  have hgranted := hkeeps.granted
  rw [hlength] at hgranted
  exact absurd hgranted (by decide +kernel)

end Sample

end RetryObject

theorem multiplier_toNat {n : Nat} (hn : n < 31) :
    (((1 : UInt32) <<< n.toUInt32) - 1).toUInt64.toNat = 2 ^ n - 1 := by
  have hpow : 2 ^ n < 2 ^ 32 := Nat.pow_lt_pow_right (by omega) (by omega)
  have hn' : n.toUInt32.toNat = n := UInt32.toNat_ofNat_of_lt' (Nat.lt_trans hn (by decide))
  have hshift : ((1 : UInt32) <<< n.toUInt32).toNat = 2 ^ n := by
    rw [UInt32.toNat_shiftLeft, hn', Nat.mod_eq_of_lt (show n < 32 by omega)]
    change 1 <<< n % 2 ^ 32 = _
    rw [Nat.one_shiftLeft, Nat.mod_eq_of_lt hpow]
  have hone : (1 : UInt32) ≤ (1 : UInt32) <<< n.toUInt32 := by
    apply UInt32.le_iff_toNat_le.mpr
    rw [hshift]
    exact Nat.one_le_two_pow
  rw [UInt32.toNat_toUInt64, UInt32.toNat_sub_of_le _ _ hone, hshift]
  rfl

theorem modulus_eq_zero_iff {n : Nat} (hpos : 0 < n) (hn : n < 31) (base : UInt64) :
    base * (((1 : UInt32) <<< n.toUInt32) - 1).toUInt64 = 0 ↔ base = 0 := by
  have hodd : Nat.Coprime 2 (2 ^ n - 1) := by
    obtain ⟨k, rfl⟩ : ∃ k, n = k + 1 := ⟨n - 1, by omega⟩
    have hk : 0 < 2 ^ k := Nat.two_pow_pos k
    rw [Nat.coprime_two_left, Nat.odd_iff, Nat.pow_succ]
    omega
  constructor
  · intro hzero
    have hproduct := congrArg UInt64.toNat hzero
    rw [UInt64.toNat_mul, multiplier_toNat hn, UInt64.toNat_zero] at hproduct
    have hdvd : 2 ^ 64 ∣ base.toNat :=
      (hodd.pow_left 64).dvd_of_dvd_mul_right (Nat.dvd_of_mod_eq_zero hproduct)
    apply UInt64.toNat_inj.mp
    exact Nat.eq_zero_of_dvd_of_lt hdvd base.toNat_lt
  · rintro rfl
    exact UInt64.zero_mul

/-- The shift and the modulus of the `n`th retry are defined, and the delay is below the bound. -/
def BackoffDefined (n : Nat) (base : UInt64) (delay : Option UInt64) : Prop :=
  ∃ value, delay = some value ∧ value.toNat < base.toNat * (2 ^ n - 1)

theorem backoffDefined_iff {n : Nat} (hpos : 0 < n) (hlt : n < 2 ^ 32) (base random : UInt64) :
    BackoffDefined n base (backoff n.toUInt32 base random) ↔ n < 31 ∧ base ≠ 0 := by
  have hcount : n.toUInt32 < 31 ↔ n < 31 := by
    rw [UInt32.lt_iff_toNat_lt, Nat.toUInt32, UInt32.toNat_ofNat_of_lt' hlt]
    rfl
  by_cases hn : n < 31
  · have hzero := modulus_eq_zero_iff hpos hn base
    have hproduct : (base * (((1 : UInt32) <<< n.toUInt32) - 1).toUInt64).toNat ≤
        base.toNat * (2 ^ n - 1) := by
      rw [UInt64.toNat_mul, multiplier_toNat hn]
      exact Nat.mod_le _ _
    simp only [backoff, if_pos (hcount.mpr hn), hzero]
    split
    · rename_i hbase
      apply iff_of_false
      · rintro ⟨value, hvalue, -⟩
        cases hvalue
      · exact fun h => h.2 hbase
    · rename_i hbase
      refine iff_of_true ⟨_, rfl, ?_⟩ ⟨hn, hbase⟩
      rw [UInt64.toNat_mod]
      refine Nat.lt_of_lt_of_le (Nat.mod_lt _ ?_) hproduct
      apply Nat.pos_of_ne_zero
      exact fun h => hbase (hzero.mp (UInt64.toNat_inj.mp h))
  · simp only [backoff, if_neg fun h => hn (hcount.mp h)]
    apply iff_of_false
    · rintro ⟨value, hvalue, -⟩
      cases hvalue
    · exact fun h => hn h.1

namespace RetryObject

/-- The back-off of a retry is defined if and only if it is not past the 30th and the base is not
zero. -/
theorem run_backoffDefined_iff (request : RetryRequest) (events : List Event) (s : RetryObject)
    (hrun : run step (start request) events = some s) (i : Nat) (grant : Grant)
    (hgrant : s.grants[i]? = some grant) :
    BackoffDefined (i + 1) grant.base grant.delay ↔ i + 1 < 31 ∧ grant.base ≠ 0 := by
  have hinv : Inv request s := run_keeps (fun s e s' h hstep => Inv.step h hstep)
    (Inv.start request) hrun
  obtain ⟨hlt, random, hdelay⟩ := hinv.delays i grant hgrant
  rw [hdelay]
  exact backoffDefined_iff (Nat.succ_pos i) hlt grant.base random

section Sample

def firstGrant (s : RetryObject) : Option (UInt64 × Option UInt64) :=
  s.grants.head?.map fun grant => (grant.base, grant.delay)

theorem exists_firstGrant (request : RetryRequest) (events : List Event) (base : UInt64)
    (delay : Option UInt64)
    (h : (run step (start request) events).map firstGrant = some (some (base, delay))) :
    ∃ s grant, run step (start request) events = some s ∧ s.grants[0]? = some grant ∧
      grant.base = base ∧ grant.delay = delay := by
  obtain ⟨s, hrun, hview⟩ := map_eq_some_iff.mp h
  obtain ⟨grant, hgrant, hpair⟩ := map_eq_some_iff.mp hview
  obtain ⟨hbase, hdelay⟩ := Prod.mk.inj hpair
  exact ⟨s, grant, hrun, (head?_eq_getElem?).symm.trans hgrant, hbase, hdelay⟩

theorem run_backoffDefined_iff_sample :
    ∃ s grant, run step (start sampleRequest) [.shouldRetry sampleCall] = some s ∧
      s.grants[0]? = some grant ∧
        (BackoffDefined 1 grant.base grant.delay ↔ 1 < 31 ∧ grant.base ≠ 0) := by
  obtain ⟨s, grant, hrun, hgrant, -⟩ :=
    exists_firstGrant sampleRequest [.shouldRetry sampleCall] 25 (some 7) (by decide +kernel)
  exact ⟨s, grant, hrun, hgrant, run_backoffDefined_iff sampleRequest _ s hrun 0 grant hgrant⟩

/-- A base of zero divides by zero in the first retry. -/
theorem sample_backoffUndefined :
    ∃ s grant, run step (start sampleRequest) [.shouldRetry { sampleCall with base := 0 }] =
      some s ∧ s.grants[0]? = some grant ∧ ¬BackoffDefined 1 grant.base grant.delay := by
  obtain ⟨s, grant, hrun, hgrant, -, hdelay⟩ :=
    exists_firstGrant sampleRequest [.shouldRetry { sampleCall with base := 0 }] 0 none
      (by decide +kernel)
  refine ⟨s, grant, hrun, hgrant, ?_⟩
  rintro ⟨value, hvalue, -⟩
  rw [hdelay] at hvalue
  cases hvalue

end Sample

end RetryObject

end Meliproxy.Envoy.Router
