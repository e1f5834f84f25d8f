import Meliproxy.Envoy.Http.HeaderMap
import Meliproxy.Envoy.Network.Address

/-!
# The request path of the connection manager

`ActiveStream::decodeHeaders` from the headers of a request to its filters:
`mutateRequestHeaders`, the route, the trace, and the address it keeps as the trusted one of
the downstream connection. Outside are the route table, the span of the tracer, the runtime
and the random generator.
-/

namespace Meliproxy.Envoy.Http

open Lib Network

inductive Protocol where
  | http10
  | http11
  | http2
  deriving DecidableEq

structure Ssl where
  peerCertificatePresented : Bool
  uriSanLocalCertificate : Bytes
  sha256PeerCertificateDigest : Bytes
  subjectPeerCertificate : Bytes
  uriSanPeerCertificate : Bytes

structure Connection where
  remoteAddress : Address
  ssl : Option Ssl

inductive ForwardClientCertType where
  | forwardOnly
  | appendForward
  | sanitizeSet
  | sanitize
  | alwaysForwardOnly

inductive ClientCertDetailsType where
  | subject
  | san

inductive OperationName where
  | ingress
  | egress

structure ConnectionManagerConfig where
  useRemoteAddress : Bool
  localAddress : Address
  userAgent : Option Bytes
  generateRequestId : Bool
  tracingConfig : Option OperationName
  forwardClientCert : ForwardClientCertType
  setCurrentClientCertDetails : List ClientCertDetailsType

/-- The three features that are asked for, the last two with a number from the request id. -/
structure Runtime where
  clientEnabled : Bool
  randomSampling : Nat → Bool
  globalEnabled : Nat → Bool

/-- The arguments of `mutateRequestHeaders` next to the headers, with the answer of the
random generator and what `errno` is. -/
structure Context where
  protocol : Protocol
  connection : Connection
  config : ConnectionManagerConfig
  internalOnlyHeaders : List LowerCaseString
  uuid : Bytes
  runtime : Runtime
  nodeName : Bytes
  errno : Bool

variable (m : HeaderMap)

def appendXff (remoteAddress : Address) : HeaderMap :=
  match remoteAddress with
  | .pipe _ => m
  | .ip ip =>
    m.insertInline .forwardedFor fun header =>
      (if header.empty then header else header.append [44, 32]).append ip.addressAsString

def isInternalRequest : Bool :=
  match m.value .forwardedFor with
  | none => false
  | some forwardedFor => isInternalAddress forwardedFor.cStr

def isWebSocketUpgradeRequest : Bool :=
  match m.value .connection, m.value .upgrade with
  | some connection, some upgrade =>
    StringUtil.caseInsensitiveEqual connection.cStr (ascii "upgrade") &&
      StringUtil.caseInsensitiveEqual upgrade.cStr (ascii "websocket")
  | _, _ => false

def getLastAddressFromXFF : Bytes :=
  match m.value .forwardedFor with
  | none => []
  | some forwardedFor => (StringUtil.split forwardedFor.cStr [44, 32]).getLast?.getD []

inductive UuidTraceStatus where
  | noTrace
  | sampled
  | client
  | forced
  deriving DecidableEq

def uuidLength : Nat := 36

def traceBytePosition : Nat := 14

def UuidTraceStatus.byte : UuidTraceStatus → UInt8
  | .noTrace => 52
  | .sampled => 57
  | .client => 98
  | .forced => 97

def uuidModBy (errno : Bool) (uuid : Bytes) (mod : Nat) : Option Nat :=
  if uuid.length < 8 then none
  else (StringUtil.atoul errno (uuid.take 8) 16).map (· % mod)

def isTraceableUuid (uuid : Bytes) : UuidTraceStatus :=
  if uuid.length ≠ uuidLength then .noTrace
  else if uuid[traceBytePosition]? = some UuidTraceStatus.forced.byte then .forced
  else if uuid[traceBytePosition]? = some UuidTraceStatus.sampled.byte then .sampled
  else if uuid[traceBytePosition]? = some UuidTraceStatus.client.byte then .client
  else .noTrace

def setTraceableUuid (uuid : Bytes) (status : UuidTraceStatus) : Bytes :=
  if uuid.length ≠ uuidLength then uuid else uuid.set traceBytePosition status.byte

/-- The new `x-request-id`, or `none` for an id that is corrupted. -/
def traceRequestId (errno : Bool) (runtime : Runtime) (clientTraceId forceTrace : Bool)
    (id : Bytes) : Option Bytes :=
  (uuidModBy errno id 10000).map fun result =>
    let id :=
      if isTraceableUuid id = .noTrace then
        if clientTraceId && runtime.clientEnabled then setTraceableUuid id .client
        else if forceTrace then setTraceableUuid id .forced
        else if runtime.randomSampling result then setTraceableUuid id .sampled
        else id
      else id
    if runtime.globalEnabled result then id else setTraceableUuid id .noTrace

variable (c : Context)

/-- `HttpTracerUtility::mutateHeaders`. -/
def mutateTracingHeaders (m : HeaderMap) : HeaderMap :=
  match m.value .requestId with
  | none => m
  | some requestId =>
    match traceRequestId c.errno c.runtime (m.value .clientTraceId).isSome
      (m.value .envoyForceTrace).isSome requestId.cStr with
    | none => m
    | some id => m.modifyInline .requestId (·.setCopy id)

def cleanProxyHeaders (m : HeaderMap) : HeaderMap :=
  let m := m.removeInline .envoyInternalRequest
  let m := m.removeInline .keepAlive
  let m := m.removeInline .proxyConnection
  let m := m.removeInline .transferEncoding
  if c.protocol ≠ .http11 ∨ isWebSocketUpgradeRequest m = false then
    (m.removeInline .connection).removeInline .upgrade
  else m

def insertForwardedProto (m : HeaderMap) : HeaderMap :=
  m.insertInline .forwardedProto fun _ =>
    .setReference (if c.connection.ssl.isSome then ascii "https" else ascii "http")

def applyRemoteAddress (m : HeaderMap) : HeaderMap :=
  let m :=
    if c.config.useRemoteAddress then
      let m :=
        if isLoopbackAddress c.connection.remoteAddress then appendXff m c.config.localAddress
        else appendXff m c.connection.remoteAddress
      insertForwardedProto c m
    else m
  if (m.value .forwardedProto).isNone then insertForwardedProto c m else m

def controlHeaders : List InlineHeader :=
  [.envoyRetryOn, .envoyRetryGrpcOn, .envoyMaxRetries, .envoyUpstreamAltStatName,
    .envoyUpstreamRequestTimeoutMs, .envoyUpstreamRequestPerTryTimeoutMs,
    .envoyUpstreamRequestTimeoutAltResponse, .envoyExpectedRequestTimeoutMs, .envoyForceTrace]

def edgeHeaders : List InlineHeader :=
  [.envoyDecoratorOperation, .envoyDownstreamServiceCluster, .envoyDownstreamServiceNode]

def removeAll (headers : List InlineHeader) (m : HeaderMap) : HeaderMap :=
  headers.foldl HeaderMap.removeInline m

def removeInternalOnly (keys : List LowerCaseString) (m : HeaderMap) : HeaderMap :=
  keys.foldl HeaderMap.remove m

def applyInternal (internalRequest : Bool) (m : HeaderMap) : HeaderMap :=
  if internalRequest then
    m.insertInline .envoyInternalRequest fun _ => .setReference (ascii "true")
  else
    let m := if c.config.useRemoteAddress then removeAll edgeHeaders m else m
    removeInternalOnly c.internalOnlyHeaders (removeAll controlHeaders m)

def insertUserAgent (m : HeaderMap) : HeaderMap :=
  match c.config.userAgent with
  | none => m
  | some userAgent =>
    let m := m.insertInline .envoyDownstreamServiceCluster (·.setCopy userAgent)
    let m := m.insertInline .userAgent fun value =>
      if value.empty then .setReference userAgent else value
    if c.nodeName = [] then m
    else m.insertInline .envoyDownstreamServiceNode (·.setCopy c.nodeName)

def insertExternalAddress (edgeRequest : Bool) (m : HeaderMap) : HeaderMap :=
  match c.connection.remoteAddress with
  | .pipe _ => m
  | .ip ip =>
    if edgeRequest then m.insertInline .envoyExternalAddress (·.setCopy ip.addressAsString) else m

def insertRequestId (edgeRequest : Bool) (m : HeaderMap) : HeaderMap :=
  if c.config.generateRequestId ∧ (edgeRequest ∨ (m.value .requestId).isNone) then
    m.insertInline .requestId (·.setCopy c.uuid)
  else m

def clientCertDetails (config : ConnectionManagerConfig) (ssl : Ssl) : Bytes :=
  let uri := if ssl.uriSanLocalCertificate = [] then []
    else [ascii "By=" ++ ssl.uriSanLocalCertificate]
  let hash := if ssl.sha256PeerCertificateDigest = [] then []
    else [ascii "Hash=" ++ ssl.sha256PeerCertificateDigest]
  let details := config.setCurrentClientCertDetails.map fun detail =>
    match detail with
    | .subject => ascii "Subject=\"" ++ ssl.subjectPeerCertificate ++ ascii "\""
    | .san => ascii "SAN=" ++ ssl.uriSanPeerCertificate
  StringUtil.join (uri ++ hash ++ details) (ascii ";")

def appendXfcc (details : Bytes) (m : HeaderMap) : HeaderMap :=
  match m.value .forwardedClientCert with
  | some value =>
    if value.empty then m.insertInline .forwardedClientCert (·.setCopy details)
    else m.modifyInline .forwardedClientCert (·.append (44 :: details))
  | none => m.insertInline .forwardedClientCert (·.setCopy details)

def mutateXfccRequestHeader (m : HeaderMap) : HeaderMap :=
  match c.config.forwardClientCert with
  | .alwaysForwardOnly => m
  | .sanitize => m.removeInline .forwardedClientCert
  | policy =>
    match c.connection.ssl with
    | none => m.removeInline .forwardedClientCert
    | some ssl =>
      if ssl.peerCertificatePresented then
        match policy with
        | .appendForward => appendXfcc (clientCertDetails c.config ssl) m
        | .sanitizeSet =>
          m.insertInline .forwardedClientCert (·.setCopy (clientCertDetails c.config ssl))
        | _ => m
      else m.removeInline .forwardedClientCert

def mutateRequestHeaders (m : HeaderMap) : HeaderMap :=
  let m := applyRemoteAddress c (cleanProxyHeaders c m)
  let internalRequest := isInternalRequest m
  let edgeRequest := !internalRequest && c.config.useRemoteAddress
  let m := applyInternal c internalRequest m
  let m := insertUserAgent c m
  let m := insertExternalAddress c edgeRequest m
  let m := insertRequestId c edgeRequest m
  let m := if c.config.tracingConfig.isSome then mutateTracingHeaders c m else m
  mutateXfccRequestHeader c m

/-- The headers in which the spans carry their context. -/
inductive SpanHeader where
  | otSpanContext
  | xB3TraceId
  | xB3SpanId
  | xB3ParentSpanId
  | xB3Sampled

def SpanHeader.inlineHeader : SpanHeader → InlineHeader
  | .otSpanContext => .otSpanContext
  | .xB3TraceId => .xB3TraceId
  | .xB3SpanId => .xB3SpanId
  | .xB3ParentSpanId => .xB3ParentSpanId
  | .xB3Sampled => .xB3Sampled

structure Route where
  useWebSocket : Bool
  operation : Option Bytes

/-- What `decodeHeaders` asks of the rest of the server. -/
structure Server where
  route : HeaderMap → Option Route
  healthCheck : Bool
  spanContext : List (SpanHeader × Bytes)

variable (server : Server)

def isTracing (m : HeaderMap) : Bool :=
  if server.healthCheck then false
  else
    match m.value .requestId with
    | none => false
    | some requestId => isTraceableUuid requestId.cStr ≠ .noTrace

def injectContext (m : HeaderMap) : HeaderMap :=
  server.spanContext.foldl
    (fun m header => m.insertInline header.1.inlineHeader (·.setCopy header.2)) m

def traceRequest (operationName : OperationName) (route : Option Route)
    (m : HeaderMap) : HeaderMap :=
  if isTracing server m then
    let m :=
      match operationName with
      | .egress =>
        match route.bind Route.operation with
        | some operation =>
          if operation = [] then m
          else m.insertInline .envoyDecoratorOperation (·.setCopy operation)
        | none => m
      | .ingress => m.removeInline .envoyDecoratorOperation
    injectContext server m
  else m

/-- A local reply, a connection that has become a WebSocket, or the filters with the address
that is kept. -/
inductive Decoded where
  | reply (code : Nat)
  | webSocket
  | filters (downstreamAddress : Bytes) (m : HeaderMap)

def decodeHeaders (c : Context) (m : HeaderMap) : Decoded :=
  if c.protocol = .http10 then .reply 426
  else if (m.value .host).isNone then .reply 400
  else if 60 * 1024 < m.byteSize then .reply 431
  else if ((m.value .path).map fun path => path.cStr.head?) ≠ some (some 47) then .reply 404
  else
    let m := mutateRequestHeaders c m
    let route := server.route m
    if c.protocol = .http11 ∧ route.isSome ∧ isWebSocketUpgradeRequest m then
      if (route.map Route.useWebSocket).getD false then .webSocket else .reply 403
    else
      let m := match c.config.tracingConfig with
        | some operationName => traceRequest server operationName route m
        | none => m
      .filters (getLastAddressFromXFF m) m

structure DescriptorEntry where
  key : Bytes
  value : Bytes

/-- `RemoteAddressAction::populateDescriptor`, with `none` for a descriptor that is given up. -/
def populateRemoteAddress (remoteAddress : Bytes) (entries : List DescriptorEntry) :
    Option (List DescriptorEntry) :=
  if remoteAddress = [] then none
  else some (entries ++ [⟨ascii "remote_address", remoteAddress⟩])

end Meliproxy.Envoy.Http
