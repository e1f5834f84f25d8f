import Meliproxy.Envoy.RateLimit.Policy
import Meliproxy.Lib.Runs

/-!
# The HTTP rate limit filter

The filter asks the rate limit service before it lets a request through. The answer may come
inside of the call, later, or never, if the stream is destroyed first. The connection manager
destroys the stream at a time of its own or inside of a call that the filter makes.

`held`, `request`, `answer`, `destroyed` and `trace` are the history: whether the last callback has
stopped the request, the request that was decoded, what the service has answered, whether the stream
is gone, and the calls.
-/

namespace Meliproxy.Envoy.RateLimit

open Lib Http

inductive LimitStatus where
  | ok
  | error
  | overLimit
  deriving DecidableEq

/-- `RateLimitResponse::Code`. -/
inductive OverallCode where
  | unknown
  | ok
  | overLimit
  deriving DecidableEq

/-- What the gRPC client tells its callbacks in the end: the code of the response, or that the
call has failed. -/
inductive Completion where
  | onSuccess (overallCode : OverallCode)
  | onFailure
  deriving DecidableEq

def Completion.status : Completion → LimitStatus
  | .onSuccess .unknown => .ok
  | .onSuccess .ok => .ok
  | .onSuccess .overLimit => .overLimit
  | .onFailure => .error

/-- `callbacks` says whether `callbacks_` is set, `request` whether the call behind `request_`
goes on. -/
structure GrpcClientImpl where
  callbacks : Bool
  request : Bool

inductive FilterRequestType where
  | internal
  | external
  | both
  deriving DecidableEq

/-- `FilterConfig` with what it reads of the local info. -/
structure FilterConfig where
  domain : Bytes
  stage : Nat
  requestType : FilterRequestType
  localServiceCluster : Bytes

/-- A request, and what `initiateCall` finds out about it: the route, the clusters that exist,
the runtime keys that are enabled and the downstream address. Every check of a key draws a random
number of its own: `featureEnabled i` is for the check at the `i`-th rate limit. -/
structure Request where
  headers : HeaderMap
  route : Option (Option RouteEntry)
  clusters : Bytes → Bool
  featureEnabled : Nat → Bytes → Bool
  downstreamAddress : Bytes

inductive FilterState where
  | notStarted
  | calling
  | complete
  | responded
  deriving DecidableEq

inductive FilterStatus where
  | continueIteration
  | stopIteration
  deriving DecidableEq

/-- What the filter does that others see. `passes` is the return of `Continue` from
`decodeHeaders`. -/
inductive Act where
  | limit (domain : Bytes) (descriptors : List Descriptor)
  | passes
  | continueDecoding
  | encodeHeaders (status : Nat)
  | cancel
  | onDestroy

structure HttpFilter where
  state : FilterState
  initiatingCall : Bool
  client : GrpcClientImpl
  localComplete : Bool
  destroyed : Bool
  held : Bool
  request : Option Request
  answer : Option (LimitStatus × Bool)
  trace : List Act

namespace HttpFilter

def create : HttpFilter where
  state := .notStarted
  initiatingCall := false
  client := ⟨false, false⟩
  localComplete := false
  destroyed := false
  held := false
  request := none
  answer := none
  trace := []

variable (s : HttpFilter)

def act (a : Act) : HttpFilter := { s with trace := s.trace ++ [a] }

variable (config : FilterConfig)

/-- `populated` has the number of the next rate limit and the descriptors. -/
def populateRateLimitDescriptors (r : Request) (routeEntry : RouteEntry)
    (policy : RateLimitPolicy) (populated : Nat × List Descriptor) : Nat × List Descriptor :=
  (policy.getApplicableRateLimit config.stage).foldl (fun (i, descriptors) rateLimit => (i + 1,
    if rateLimit.disableKey ≠ [] ∧
        r.featureEnabled i (ascii "ratelimit." ++ rateLimit.disableKey ++
          ascii ".http_filter_enabled") = false then descriptors
    else
      rateLimit.populateDescriptors ⟨routeEntry.clusterName, config.localServiceCluster, r.headers,
        r.downstreamAddress⟩ descriptors)) populated

def isInternalRequest (headers : HeaderMap) : Bool :=
  (headers.value .envoyInternalRequest).any fun value => value.cStr = ascii "true"

/-- The descriptors that `initiateCall` makes of a request. It makes none where it returns early. -/
def descriptors (r : Request) : List Descriptor :=
  if (isInternalRequest r.headers ∧ config.requestType = .external) ∨
      (isInternalRequest r.headers = false ∧ config.requestType = .internal) then []
  else
    match r.route.bind id with
    | none => []
    | some routeEntry =>
      if r.clusters routeEntry.clusterName then
        let populated :=
          populateRateLimitDescriptors config r routeEntry routeEntry.rateLimitPolicy (0, [])
        if routeEntry.includeVirtualHostRateLimits then
          (populateRateLimitDescriptors config r routeEntry routeEntry.virtualHostRateLimitPolicy
            populated).2
        else populated.2
      else []

/-- `GrpcClientImpl::cancel`, which asserts `callbacks_` and calls `request_`. -/
def cancel (s : HttpFilter) : Option HttpFilter :=
  if s.client.callbacks && s.client.request then
    some ({ s with client := ⟨false, false⟩ }.act .cancel)
  else none

def onDestroy (s : HttpFilter) : Option HttpFilter :=
  if s.state = .calling then { s with state := .complete }.cancel else some s

/-- The connection manager destroys the stream. -/
def destroyStream : Option HttpFilter := ({ s with destroyed := true }.act .onDestroy).onDestroy

def destroyIf (destroys : Bool) : Option HttpFilter :=
  if destroys then s.destroyStream else some s

/-- `Filter::complete`. The stream may be destroyed inside of the call that it makes. -/
def complete (s : HttpFilter) (status : LimitStatus) (featureEnabled : Bytes → Bool)
    (destroys : Bool) : Option HttpFilter :=
  let enforcing := featureEnabled (ascii "ratelimit.http_filter_enforcing")
  let s := { s with state := .complete }
  if status = .overLimit ∧ enforcing then
    ({ s with
      state := .responded
      localComplete := true }.act (.encodeHeaders 429)).destroyIf destroys
  else if s.initiatingCall then some s
  else ({ s with held := false }.act .continueDecoding).destroyIf destroys

def onCompletion (completion : Completion) (featureEnabled : Bytes → Bool)
    (destroys : Bool) : Option HttpFilter :=
  let s := { s with client := { s.client with request := false } }
  let completed :=
    match completion with
    | .onSuccess .unknown => none
    | .onSuccess .ok => s.complete .ok featureEnabled destroys
    | .onSuccess .overLimit => s.complete .overLimit featureEnabled destroys
    | .onFailure => s.complete .error featureEnabled destroys
  completed.map fun s => { s with client := { s.client with callbacks := false } }

/-- The service answers, or the call fails. -/
def answerWith (completion : Completion) (featureEnabled : Bytes → Bool) (destroys : Bool) :
    Option HttpFilter :=
  { s with
    answer := some (completion.status, featureEnabled (ascii "ratelimit.http_filter_enforcing"))
    }.onCompletion completion featureEnabled destroys

def limit (s : HttpFilter) (domain : Bytes) (descriptors : List Descriptor)
    (completion : Option Completion) (featureEnabled : Bytes → Bool) (destroys : Bool) :
    Option HttpFilter :=
  if s.client.callbacks then none
  else
    let s := { s with client := ⟨true, true⟩ }.act (.limit domain descriptors)
    match completion with
    | none => some s
    | some completion => s.answerWith completion featureEnabled destroys

def initiateCall (r : Request)
    (completion : Option Completion) (destroys : Bool) : Option HttpFilter :=
  if descriptors config r = [] then some s
  else
    let s := { s with
      state := .calling
      initiatingCall := true }
    (s.limit config.domain (descriptors config r) completion (r.featureEnabled 0) destroys).map
      fun s => { s with initiatingCall := false }

def returns (status : FilterStatus) : HttpFilter :=
  { s with held := status = .stopIteration }

def decodeHeaders (r : Request)
    (completion : Option Completion) (destroys : Bool) : Option HttpFilter :=
  if r.featureEnabled 0 (ascii "ratelimit.http_filter_enabled") = false then
    some ((s.act .passes).returns .continueIteration)
  else
    (s.initiateCall config r completion destroys).map fun s =>
      if s.state = .calling ∨ s.state = .responded then s.returns .stopIteration
      else (s.act .passes).returns .continueIteration

/-- What the connection manager and `decodeData` and `decodeTrailers` have in common: it calls
the filter while the response is not complete. -/
def decodeMore : Option HttpFilter :=
  if s.localComplete then some s
  else if s.state = .responded then none
  else some (s.returns (if s.state = .calling then .stopIteration else .continueIteration))

def decodeData : Option HttpFilter := s.decodeMore

def decodeTrailers : Option HttpFilter := s.decodeMore

end HttpFilter

/-- `destroys` says whether the connection manager destroys the stream inside of a call that
the filter makes. -/
inductive HttpFilterEvent where
  | decodeHeaders (request : Request) (completion : Option Completion) (destroys : Bool)
  | decodeData
  | decodeTrailers
  | completion (completion : Completion) (featureEnabled : Bytes → Bool) (destroys : Bool)
  | onDestroy

namespace HttpFilter

def step (config : FilterConfig) (s : HttpFilter) : HttpFilterEvent → Option HttpFilter
  | .decodeHeaders r completion destroys =>
    { s with request := some r }.decodeHeaders config r completion destroys
  | .decodeData => s.decodeData
  | .decodeTrailers => s.decodeTrailers
  | .completion completion featureEnabled destroys => s.answerWith completion featureEnabled destroys
  | .onDestroy => s.destroyStream

/-- The connection manager decodes the headers once, then data and trailers, and destroys the
stream once. The service answers while a call goes on, with a code that is known. -/
def Possible (s : HttpFilter) : HttpFilterEvent → Prop
  | .decodeHeaders _ completion _ =>
    s.request.isNone = true ∧ s.destroyed = false ∧ completion ≠ some (.onSuccess .unknown)
  | .decodeData => s.request.isSome = true ∧ s.destroyed = false
  | .decodeTrailers => s.request.isSome = true ∧ s.destroyed = false
  | .completion completion _ _ => s.client.request = true ∧ completion ≠ .onSuccess .unknown
  | .onDestroy => s.destroyed = false

end HttpFilter

end Meliproxy.Envoy.RateLimit
