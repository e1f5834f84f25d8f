import Meliproxy.Envoy.Common.StringUtil

/-!
# The header map

`HeaderMapImpl` keeps its headers in a list, and for each inline header a pointer to its
entry in that list. The address of an entry is its `id`. Keys and values are compared and
looked up as C strings.
-/

namespace Meliproxy.Envoy.Http

open Lib

structure LowerCaseString where
  get : Bytes
  lower : get.map StringUtil.toLower = get
  deriving DecidableEq

inductive Storage where
  | inline
  | reference
  | dynamic
  deriving DecidableEq

structure HeaderString where
  type : Storage
  bytes : Bytes
  deriving DecidableEq

namespace HeaderString

def new : HeaderString := ⟨.inline, []⟩

def inlineCapacity : Nat := 128

variable (s : HeaderString)

def append (data : Bytes) : HeaderString :=
  let s := if s.type = .reference then new else s
  if s.type = .inline ∧ data.length + 1 + s.bytes.length ≤ inlineCapacity then
    ⟨.inline, s.bytes ++ data⟩
  else ⟨.dynamic, s.bytes ++ data⟩

def setCopy (data : Bytes) : HeaderString :=
  if s.type ≠ .dynamic ∧ data.length + 1 ≤ inlineCapacity then ⟨.inline, data⟩ else ⟨.dynamic, data⟩

def setReference (data : Bytes) : HeaderString := ⟨.reference, data⟩

def empty : Bool := s.bytes = []

def cStr : Bytes := Envoy.cStr s.bytes

end HeaderString

theorem setCopy_bytes (s : HeaderString) (data : Bytes) : (s.setCopy data).bytes = data := by
  unfold HeaderString.setCopy
  split <;> rfl

inductive InlineHeader where
  | accessControlRequestHeaders
  | accessControlRequestMethod
  | accessControlAllowOrigin
  | accessControlAllowHeaders
  | accessControlAllowMethods
  | accessControlAllowCredentials
  | accessControlExposeHeaders
  | accessControlMaxAge
  | authorization
  | clientTraceId
  | connection
  | contentLength
  | contentType
  | date
  | envoyDecoratorOperation
  | envoyDownstreamServiceCluster
  | envoyDownstreamServiceNode
  | envoyExpectedRequestTimeoutMs
  | envoyExternalAddress
  | envoyForceTrace
  | envoyImmediateHealthCheckFail
  | envoyInternalRequest
  | envoyMaxRetries
  | envoyOriginalPath
  | envoyOverloaded
  | envoyRetryOn
  | envoyRetryGrpcOn
  | envoyUpstreamAltStatName
  | envoyUpstreamCanary
  | envoyUpstreamHealthCheckedCluster
  | envoyUpstreamRequestPerTryTimeoutMs
  | envoyUpstreamRequestTimeoutAltResponse
  | envoyUpstreamRequestTimeoutMs
  | envoyUpstreamServiceTime
  | expect
  | forwardedClientCert
  | forwardedFor
  | forwardedProto
  | grpcAcceptEncoding
  | grpcMessage
  | grpcStatus
  | host
  | keepAlive
  | method
  | origin
  | otSpanContext
  | path
  | proxyConnection
  | requestId
  | scheme
  | server
  | status
  | te
  | transferEncoding
  | upgrade
  | userAgent
  | xB3TraceId
  | xB3SpanId
  | xB3ParentSpanId
  | xB3Sampled
  | xB3Flags
  deriving DecidableEq

namespace InlineHeader

def key : InlineHeader → Bytes
  | .accessControlRequestHeaders => ascii "access-control-request-headers"
  | .accessControlRequestMethod => ascii "access-control-request-method"
  | .accessControlAllowOrigin => ascii "access-control-allow-origin"
  | .accessControlAllowHeaders => ascii "access-control-allow-headers"
  | .accessControlAllowMethods => ascii "access-control-allow-methods"
  | .accessControlAllowCredentials => ascii "access-control-allow-credentials"
  | .accessControlExposeHeaders => ascii "access-control-expose-headers"
  | .accessControlMaxAge => ascii "access-control-max-age"
  | .authorization => ascii "authorization"
  | .clientTraceId => ascii "x-client-trace-id"
  | .connection => ascii "connection"
  | .contentLength => ascii "content-length"
  | .contentType => ascii "content-type"
  | .date => ascii "date"
  | .envoyDecoratorOperation => ascii "x-envoy-decorator-operation"
  | .envoyDownstreamServiceCluster => ascii "x-envoy-downstream-service-cluster"
  | .envoyDownstreamServiceNode => ascii "x-envoy-downstream-service-node"
  | .envoyExpectedRequestTimeoutMs => ascii "x-envoy-expected-rq-timeout-ms"
  | .envoyExternalAddress => ascii "x-envoy-external-address"
  | .envoyForceTrace => ascii "x-envoy-force-trace"
  | .envoyImmediateHealthCheckFail => ascii "x-envoy-immediate-health-check-fail"
  | .envoyInternalRequest => ascii "x-envoy-internal"
  | .envoyMaxRetries => ascii "x-envoy-max-retries"
  | .envoyOriginalPath => ascii "x-envoy-original-path"
  | .envoyOverloaded => ascii "x-envoy-overloaded"
  | .envoyRetryOn => ascii "x-envoy-retry-on"
  | .envoyRetryGrpcOn => ascii "x-envoy-retry-grpc-on"
  | .envoyUpstreamAltStatName => ascii "x-envoy-upstream-alt-stat-name"
  | .envoyUpstreamCanary => ascii "x-envoy-upstream-canary"
  | .envoyUpstreamHealthCheckedCluster => ascii "x-envoy-upstream-healthchecked-cluster"
  | .envoyUpstreamRequestPerTryTimeoutMs => ascii "x-envoy-upstream-rq-per-try-timeout-ms"
  | .envoyUpstreamRequestTimeoutAltResponse => ascii "x-envoy-upstream-rq-timeout-alt-response"
  | .envoyUpstreamRequestTimeoutMs => ascii "x-envoy-upstream-rq-timeout-ms"
  | .envoyUpstreamServiceTime => ascii "x-envoy-upstream-service-time"
  | .expect => ascii "expect"
  | .forwardedClientCert => ascii "x-forwarded-client-cert"
  | .forwardedFor => ascii "x-forwarded-for"
  | .forwardedProto => ascii "x-forwarded-proto"
  | .grpcAcceptEncoding => ascii "grpc-accept-encoding"
  | .grpcMessage => ascii "grpc-message"
  | .grpcStatus => ascii "grpc-status"
  | .host => ascii ":authority"
  | .keepAlive => ascii "keep-alive"
  | .method => ascii ":method"
  | .origin => ascii "origin"
  | .otSpanContext => ascii "x-ot-span-context"
  | .path => ascii ":path"
  | .proxyConnection => ascii "proxy-connection"
  | .requestId => ascii "x-request-id"
  | .scheme => ascii ":scheme"
  | .server => ascii "server"
  | .status => ascii ":status"
  | .te => ascii "te"
  | .transferEncoding => ascii "transfer-encoding"
  | .upgrade => ascii "upgrade"
  | .userAgent => ascii "user-agent"
  | .xB3TraceId => ascii "x-b3-traceid"
  | .xB3SpanId => ascii "x-b3-spanid"
  | .xB3ParentSpanId => ascii "x-b3-parentspanid"
  | .xB3Sampled => ascii "x-b3-sampled"
  | .xB3Flags => ascii "x-b3-flags"

def all : List InlineHeader :=
  [.accessControlRequestHeaders, .accessControlRequestMethod, .accessControlAllowOrigin,
    .accessControlAllowHeaders, .accessControlAllowMethods, .accessControlAllowCredentials,
    .accessControlExposeHeaders, .accessControlMaxAge, .authorization, .clientTraceId,
    .connection, .contentLength, .contentType, .date, .envoyDecoratorOperation,
    .envoyDownstreamServiceCluster, .envoyDownstreamServiceNode,
    .envoyExpectedRequestTimeoutMs, .envoyExternalAddress, .envoyForceTrace,
    .envoyImmediateHealthCheckFail, .envoyInternalRequest, .envoyMaxRetries,
    .envoyOriginalPath, .envoyOverloaded, .envoyRetryOn, .envoyRetryGrpcOn,
    .envoyUpstreamAltStatName, .envoyUpstreamCanary, .envoyUpstreamHealthCheckedCluster,
    .envoyUpstreamRequestPerTryTimeoutMs, .envoyUpstreamRequestTimeoutAltResponse,
    .envoyUpstreamRequestTimeoutMs, .envoyUpstreamServiceTime, .expect,
    .forwardedClientCert, .forwardedFor, .forwardedProto, .grpcAcceptEncoding, .grpcMessage,
    .grpcStatus, .host, .keepAlive, .method, .origin, .otSpanContext, .path,
    .proxyConnection, .requestId, .scheme, .server, .status, .te, .transferEncoding,
    .upgrade, .userAgent, .xB3TraceId, .xB3SpanId, .xB3ParentSpanId, .xB3Sampled, .xB3Flags]

end InlineHeader

/-- The lookup table, with the legacy host header mapped to `:authority`. -/
def staticLookup (key : Bytes) : Option InlineHeader :=
  if key = ascii "host" then some .host else InlineHeader.all.find? fun header => header.key = key

structure HeaderEntry where
  id : Nat
  key : HeaderString
  value : HeaderString
  deriving DecidableEq

structure HeaderMap where
  headers : List HeaderEntry
  inlineHeaders : InlineHeader → Option Nat
  nextId : Nat

namespace HeaderMap

def new : HeaderMap := ⟨[], fun _ => none, 0⟩

variable (m : HeaderMap)

def emplace (key value : HeaderString) : HeaderMap :=
  { m with headers := m.headers ++ [⟨m.nextId, key, value⟩], nextId := m.nextId + 1 }

variable (header : InlineHeader)

def setInline (id : Option Nat) : HeaderMap :=
  { m with inlineHeaders := fun h => if h = header then id else m.inlineHeaders h }

def createInline (value : HeaderString) : HeaderMap :=
  (m.emplace ⟨.reference, header.key⟩ value).setInline header (some m.nextId)

def maybeCreateInline (value : HeaderString) : HeaderMap :=
  match m.inlineHeaders header with
  | some _ => m
  | none => m.createInline header value

def insertByKey (key value : HeaderString) : HeaderMap :=
  match staticLookup key.cStr with
  | some header => m.maybeCreateInline header value
  | none => m.emplace key value

def addViaMove (key value : HeaderString) : HeaderMap := m.insertByKey key value

def ofHeaders (headers : List (HeaderString × HeaderString)) : HeaderMap :=
  headers.foldl (fun m h => m.addViaMove h.1 h.2) new

def inlineEntry : Option HeaderEntry :=
  (m.inlineHeaders header).bind fun id => m.headers.find? fun e => e.id = id

def value (m : HeaderMap) (header : InlineHeader) : Option HeaderString :=
  (m.inlineEntry header).map HeaderEntry.value

variable (f : HeaderString → HeaderString)

def modifyInline : HeaderMap :=
  match m.inlineHeaders header with
  | some id =>
    { m with headers := m.headers.map fun e => if e.id = id then { e with value := f e.value } else e }
  | none => m

def insertInline :
    HeaderMap := (m.maybeCreateInline header .new).modifyInline header f

def removeInline : HeaderMap :=
  match m.inlineHeaders header with
  | some id =>
    { m.setInline header none with headers := m.headers.filter fun e => e.id ≠ id }
  | none => m

def remove (key : LowerCaseString) : HeaderMap :=
  match staticLookup (cStr key.get) with
  | some header => m.removeInline header
  | none => { m with headers := m.headers.filter fun e => e.key.cStr ≠ cStr key.get }

def byteSize : Nat :=
  (m.headers.map fun e => e.key.bytes.length + e.value.bytes.length).sum

end HeaderMap

end Meliproxy.Envoy.Http
