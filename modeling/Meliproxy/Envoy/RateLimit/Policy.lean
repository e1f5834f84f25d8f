import Meliproxy.Envoy.Http.ConnManager
import Meliproxy.Envoy.Http.HeaderMapOps

/-!
# Rate limit policies

The rate limits of a route and of its virtual host, and the descriptors that they make of a
request (`router_ratelimit.cc`). The regular expressions of a header matcher are a parameter.
-/

namespace Meliproxy.Envoy.RateLimit

open Lib Http

abbrev Descriptor := List DescriptorEntry

/-- `ConfigUtility::HeaderData`. -/
structure HeaderData where
  name : LowerCaseString
  value : Bytes
  isRegex : Bool
  regexMatch : Bytes → Bool

def HeaderData.matches (data : HeaderData) (headers : HeaderMap) : Bool :=
  match headers.get data.name with
  | none => false
  | some header =>
    if data.value = [] then true
    else if data.isRegex then data.regexMatch header.value.cStr
    else header.value.cStr = cStr data.value

def matchHeaders (headers : HeaderMap) : List HeaderData → Bool
  | [] => true
  | data :: rest => data.matches headers && matchHeaders headers rest

inductive RateLimitAction where
  | sourceCluster
  | destinationCluster
  | requestHeaders (headerName : LowerCaseString) (descriptorKey : Bytes)
  | remoteAddress
  | genericKey (descriptorValue : Bytes)
  | headerValueMatch (descriptorValue : Bytes) (expectMatch : Bool) (actionHeaders : List HeaderData)

/-- What `populateDescriptors` is given beside the descriptors. -/
structure Subject where
  routeCluster : Bytes
  localServiceCluster : Bytes
  headers : HeaderMap
  remoteAddress : Bytes

/-- `populateDescriptor` of the action, with `none` for a descriptor that is given up. -/
def RateLimitAction.populateDescriptor (s : Subject) (descriptor : Descriptor) :
    RateLimitAction → Option Descriptor
  | .sourceCluster => some (descriptor ++ [⟨ascii "source_cluster", s.localServiceCluster⟩])
  | .destinationCluster => some (descriptor ++ [⟨ascii "destination_cluster", s.routeCluster⟩])
  | .requestHeaders headerName descriptorKey =>
    (s.headers.get headerName).map fun header =>
      descriptor ++ [⟨descriptorKey, header.value.cStr⟩]
  | .remoteAddress => populateRemoteAddress s.remoteAddress descriptor
  | .genericKey descriptorValue => some (descriptor ++ [⟨ascii "generic_key", descriptorValue⟩])
  | .headerValueMatch descriptorValue expectMatch actionHeaders =>
    if expectMatch = matchHeaders s.headers actionHeaders then
      some (descriptor ++ [⟨ascii "header_match", descriptorValue⟩])
    else none

structure RateLimitPolicyEntry where
  disableKey : Bytes
  stage : Nat
  actions : List RateLimitAction

/-- An action that gives up ends the loop, and the descriptor is dropped. -/
def RateLimitPolicyEntry.populateDescriptors (entry : RateLimitPolicyEntry) (s : Subject)
    (descriptors : List Descriptor) : List Descriptor :=
  match entry.actions.foldlM (fun descriptor action => action.populateDescriptor s descriptor) [] with
  | some descriptor => descriptors ++ [descriptor]
  | none => descriptors

/-- `RateLimitPolicyImpl::MAX_STAGE_NUMBER`. -/
def maxStageNumber : Nat := 10

structure RateLimitPolicy where
  entries : List RateLimitPolicyEntry
  stages : ∀ entry ∈ entries, entry.stage ≤ maxStageNumber

def RateLimitPolicy.getApplicableRateLimit (policy : RateLimitPolicy) (stage : Nat) :
    List RateLimitPolicyEntry := policy.entries.filter fun entry => entry.stage = stage

/-- What the rate limit filter reads of a route entry. -/
structure RouteEntry where
  clusterName : Bytes
  rateLimitPolicy : RateLimitPolicy
  includeVirtualHostRateLimits : Bool
  virtualHostRateLimitPolicy : RateLimitPolicy

end Meliproxy.Envoy.RateLimit
