import Meliproxy.Lib.Runs
import Meliproxy.Lib.Text

/-!
# The gRPC client

`AsyncStreamImpl` and `AsyncRequestImpl` of `grpc/async_client_impl.h`. The HTTP client and the
user may act before a call that the stream makes to either of them has returned, so the calls that
have not returned are kept on a stack. A step answers `none` for what cannot happen: the HTTP client
delivers a response in order and nothing after its end but a reset, and a user has no stream before
`start` returns it and after it was removed.
-/

namespace Meliproxy.Envoy.Grpc

open Lib

inductive GrpcStatus where
  | ok
  | canceled
  | unknown
  | invalidArgument
  | deadlineExceeded
  | notFound
  | alreadyExists
  | permissionDenied
  | resourceExhausted
  | failedPrecondition
  | aborted
  | outOfRange
  | unimplemented
  | internal
  | unavailable
  | dataLoss
  | unauthenticated
  | invalidCode
  deriving DecidableEq

def httpToGrpcStatus (httpResponseStatus : Nat) : GrpcStatus :=
  match httpResponseStatus with
  | 400 => .internal
  | 401 => .unauthenticated
  | 403 => .permissionDenied
  | 404 => .unimplemented
  | 429 | 502 | 503 | 504 => .unavailable
  | _ => .unknown

/-- What the stream reads of headers or trailers. -/
structure Metadata where
  httpStatus : Nat
  grpcStatus : Option GrpcStatus
  grpcMessage : Bytes

/-- A decoded frame, and whether its data parse as a response. -/
structure DataFrame where
  flags : Nat
  length : Nat
  parses : Bool
  deriving DecidableEq

def DataFrame.fails (frame : DataFrame) : Bool :=
  0 < frame.length ∧ (frame.flags ≠ 0 ∨ ¬ frame.parses)

/-- What the HTTP client delivers. The decoder makes frames of the data or fails. -/
inductive HttpEvent where
  | headers (headers : Metadata) (endStream : Bool)
  | data (frames : Option (List DataFrame)) (endStream : Bool)
  | trailers (trailers : Metadata)
  | reset

def HttpEvent.ends : HttpEvent → Bool
  | headers _ endStream | data _ endStream => endStream
  | trailers _ | reset => true

inductive UserCall where
  | sendMessage (endStream : Bool)
  | closeStream
  | resetStream

/-- A call that has not returned: to the HTTP client or to a callback. -/
inductive Call where
  | unavailable
  | creating
  | sendingHeaders
  | sendingRequest
  | sendingData (endStream : Bool)
  | initialMetadata
  | message (rest : List DataFrame)
  | trailingMetadata
  | remoteClose (error : Bool)
  deriving DecidableEq

def Call.starting : Call → Bool
  | unavailable | creating | sendingHeaders | sendingRequest => true
  | _ => false

def Call.isOwn : Call → Bool
  | initialMetadata | message _ | trailingMetadata => true
  | _ => false

def Call.error : Call → Bool
  | unavailable => true
  | remoteClose error => error
  | _ => false

def Call.isMessage : Call → Bool
  | message _ => true
  | _ => false

def Call.pending : Call → Bool
  | message rest => rest ≠ []
  | trailingMetadata => true
  | _ => false

/-- A callback, and what the user and the stream do otherwise. -/
inductive Report where
  | onCreateInitialMetadata
  | onReceiveInitialMetadata
  | onReceiveMessage
  | onReceiveTrailingMetadata
  | onRemoteClose (status : GrpcStatus) (message : Bytes)
  | resetStream
  | removed
  deriving DecidableEq

def Report.isCallback : Report → Bool
  | resetStream | removed => false
  | _ => true

def Report.isRemoteClose : Report → Bool
  | onRemoteClose _ _ => true
  | _ => false

def Report.terminal : Report → Bool
  | onRemoteClose _ _ | resetStream => true
  | _ => false

inductive Outcome where
  | onSuccess
  | onFailure (status : GrpcStatus) (message : Bytes)
  deriving DecidableEq

structure AsyncStream where
  localClosed : Bool
  remoteClosed : Bool
  httpReset : Bool
  inserted : Bool
  deriving DecidableEq

/-- A stream, or a request if it is `unary`, with what the HTTP client has delivered, the stack,
the reports with the newest in front and the outcomes of a request. `ended` says that the HTTP
client has ended or reset the response, `sent` that the user has ended its side, `handed` that the
caller has got the stream, `undefined` that a loop went over frames that were cleared. -/
structure StreamRun extends AsyncStream where
  unary : Bool
  started : Bool
  handed : Bool
  httpHeaders : Bool
  httpEnded : Bool
  ended : Bool
  sent : Bool
  response : Bool
  undefined : Bool
  stack : List Call
  log : List Report
  outcomes : List Outcome
  deriving DecidableEq

namespace StreamRun

def new : StreamRun :=
  { localClosed := false, remoteClosed := false, httpReset := false, inserted := false
    unary := false, started := false, handed := false, httpHeaders := false, httpEnded := false
    ended := false, sent := false, response := false, undefined := false
    stack := [], log := [], outcomes := [] }

variable (s : StreamRun)

def callBack (report : Report) (call : Call) : StreamRun :=
  { s with log := report :: s.log, stack := call :: s.stack }

variable (status : GrpcStatus)

def outcome (message : Bytes) : Outcome :=
  if status ≠ .ok then .onFailure status message
  else if ¬ s.response then .onFailure .internal []
  else .onSuccess

def callRemoteClose (message : Bytes) (call : Call) : StreamRun :=
  { s with
    outcomes := if s.unary then s.outcome status message :: s.outcomes else s.outcomes }.callBack
    (.onRemoteClose status message) call

def streamError (message : Bytes) : StreamRun :=
  s.callRemoteClose status message (.remoteClose true)

def onReset : StreamRun :=
  if s.httpReset then s else { s with httpReset := true }.streamError .internal []

def cleanup : StreamRun :=
  let s := if s.httpReset then s else { s with httpReset := true }.onReset
  if s.inserted then { s with inserted := false, log := .removed :: s.log } else s

def complete : Bool := s.localClosed && s.remoteClosed

def closeLocal : StreamRun :=
  let s := { s with localClosed := true }
  if s.complete then s.cleanup else s

def closeRemote : StreamRun :=
  let s := { s with remoteClosed := true }
  if s.complete then s.cleanup else s

def resetStream : StreamRun :=
  { s with localClosed := true, remoteClosed := true }.cleanup

def onTrailers (trailers : Metadata) : StreamRun :=
  match trailers.grpcStatus with
  | none => s.streamError .internal []
  | some status =>
    if status ≠ .ok then s.streamError status trailers.grpcMessage
    else s.callBack .onReceiveTrailingMetadata .trailingMetadata

def onHeaders (headers : Metadata) (endStream : Bool) : StreamRun :=
  if headers.httpStatus ≠ 200 then
    if endStream ∧ headers.grpcStatus.isSome then s.onTrailers headers
    else s.streamError (httpToGrpcStatus headers.httpStatus) []
  else if endStream then s.onTrailers headers
  else s.callBack .onReceiveInitialMetadata .initialMetadata

/-- The loop over the frames. It goes on when the callback returns. -/
def receive : List DataFrame → StreamRun
  | [] => s
  | frame :: rest =>
    if frame.fails then s.streamError .internal []
    else { s with response := true }.callBack .onReceiveMessage (.message rest)

/-- The frames are a member, so a loop that is still running loses them. -/
def onData (frames : Option (List DataFrame)) (endStream : Bool) : StreamRun :=
  if endStream then s.streamError .internal []
  else
    let s := { s with undefined := s.undefined || s.stack.any Call.isMessage }
    match frames with
    | none => s.streamError .internal []
    | some frames => s.receive frames

def finishStart : StreamRun :=
  if s.httpReset then s else { s with inserted := true, handed := true }

/-- `available` says whether the HTTP client has a stream. -/
def start (unary available : Bool) : StreamRun :=
  let s := { s with started := true, unary }
  if available then s.callBack .onCreateInitialMetadata .creating
  else s.callRemoteClose .unavailable [] .unavailable

/-- Whether other code runs. The callbacks of a request are its own, but for the last. -/
def outside : Bool :=
  s.started && !(s.unary && s.stack.head?.any Call.isOwn)

def canDeliver : HttpEvent → Bool
  | .headers _ _ => !s.httpReset && !s.httpEnded && !s.httpHeaders
  | .data _ _ | .trailers _ => !s.httpReset && !s.httpEnded && s.httpHeaders
  | .reset => !s.httpReset && !(s.httpEnded && s.localClosed)

def deliver : HttpEvent → StreamRun
  | .headers headers endStream =>
    { s with httpHeaders := true, httpEnded := endStream }.onHeaders headers endStream
  | .data frames endStream => { s with httpEnded := endStream }.onData frames endStream
  | .trailers trailers => { s with httpEnded := true }.onTrailers trailers
  | .reset => s.onReset

/-- No operation but a reset is permitted after an error, and a request can only be cancelled. -/
def mayCall : UserCall → Bool
  | .resetStream => s.inserted && s.outside
  | _ => s.inserted && s.outside && !s.unary && !s.stack.any Call.error

def userCall : UserCall → StreamRun
  | .sendMessage endStream => { s with stack := .sendingData endStream :: s.stack }
  | .closeStream => { s with stack := .sendingData true :: s.stack }
  | .resetStream => s.resetStream

/-- The histories of a call by the user. -/
def asked : UserCall → StreamRun
  | .sendMessage endStream => { s with sent := s.sent || endStream }
  | .closeStream => { s with sent := true }
  | .resetStream => { s with log := .resetStream :: s.log }

def resume : Call → StreamRun
  | .unavailable => { s with httpReset := true }.finishStart
  | .creating => { s with stack := .sendingHeaders :: s.stack }
  | .sendingHeaders =>
    if s.unary ∧ ¬ s.httpReset then { s with stack := .sendingRequest :: s.stack }
    else s.finishStart
  | .sendingRequest => s.closeLocal.finishStart
  | .sendingData endStream => if endStream then s.closeLocal else s
  | .initialMetadata => s
  | .message rest => s.receive rest
  | .trailingMetadata => s.callRemoteClose .ok [] (.remoteClose false)
  | .remoteClose error => if error then s.resetStream else s.closeRemote

def returned : Option StreamRun :=
  match s.stack with
  | [] => none
  | call :: stack => some ({ s with stack }.resume call)

inductive Event where
  | start (unary available : Bool)
  | http (event : HttpEvent)
  | user (call : UserCall)
  | returned

def step : Event → Option StreamRun
  | .start unary available => if s = new then some (s.start unary available) else none
  | .http event =>
    if s.outside && s.canDeliver event then
      some ({ s with ended := s.ended || event.ends }.deliver event)
    else none
  | .user call => if s.mayCall call then some ((s.asked call).userCall call) else none
  | .returned => s.returned

end StreamRun

end Meliproxy.Envoy.Grpc
