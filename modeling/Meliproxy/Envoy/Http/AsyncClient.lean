import Meliproxy.Lib.Runs

/-!
# The HTTP client

`AsyncStreamImpl` and `AsyncRequestImpl` of `http/async_client_impl.cc`. The router answers a
stream inside the calls that the stream makes to it or later, and users act inside their callbacks
or elsewhere, so the calls that have not returned are kept on a stack. A step answers `none` for
what cannot happen: a router encodes a response in order, and nothing after its end, after a reset
or when it was destroyed; a user has what `send` or `start` returned until it leaves the list.
-/

namespace Meliproxy.Envoy.Http

open Lib

/-- A call that has not returned: to the router, from `send` or from a user, or to the callbacks of
the stream, from an `encode` function or from `resetStream`. -/
inductive AsyncCall where
  | requestHeaders (endStream : Bool)
  | requestBody
  | decode (endStream : Bool)
  | encode (endStream : Bool)
  | reset
  deriving DecidableEq

def AsyncCall.starting : AsyncCall → Bool
  | requestHeaders _ | requestBody => true
  | _ => false

def AsyncCall.ends : AsyncCall → Bool
  | requestHeaders endStream | decode endStream => endStream
  | requestBody => true
  | _ => false

def AsyncCall.closing : AsyncCall → Bool
  | encode endStream => endStream
  | reset => true
  | _ => false

/-- A callback, and what happens to a stream otherwise. -/
inductive AsyncReport where
  | onHeaders (endStream : Bool)
  | onData (endStream : Bool)
  | onTrailers
  | onReset
  | onSuccess
  | onFailure
  | cancel
  | removed
  | released
  deriving DecidableEq

def AsyncReport.isCallback : AsyncReport → Bool
  | cancel | removed | released => false
  | _ => true

def AsyncReport.isOutcome : AsyncReport → Bool
  | onSuccess | onFailure => true
  | _ => false

def AsyncReport.terminal : AsyncReport → Bool
  | onHeaders endStream | onData endStream => endStream
  | onTrailers | onReset | onSuccess | onFailure | cancel => true
  | removed | released => false

structure AsyncStream where
  localClosed : Bool
  remoteClosed : Bool
  inserted : Bool
  cancelled : Bool
  deriving DecidableEq

/-- A stream, or a request. `handed` says that the user has got it, `null` that `send` has returned
a null pointer and `delivered` what the user knew then; `localEnded` that the user has ended its
side, `done` that the router has ended the response or reset the stream, and `failed` that an
`ASSERT` does not hold. The newest report is in front. -/
structure AsyncRun extends AsyncStream where
  request : Bool
  handed : Bool
  null : Bool
  delivered : Bool
  headersSent : Bool
  localEnded : Bool
  responseStarted : Bool
  done : Bool
  destroyed : Bool
  failed : Bool
  stack : List AsyncCall
  log : List AsyncReport
  deriving DecidableEq

namespace AsyncRun

def new : AsyncRun :=
  { localClosed := false, remoteClosed := false, inserted := false, cancelled := false
    request := false, handed := false, null := false, delivered := false, headersSent := false
    localEnded := false, responseStarted := false, done := false, destroyed := false
    failed := false, stack := [], log := [] }

variable (s : AsyncRun)

def cleanup : AsyncRun :=
  let s := { s with localClosed := true, remoteClosed := true }
  if s.inserted then { s with inserted := false, log := .released :: .removed :: s.log } else s

def complete : Bool := s.localClosed && s.remoteClosed

def closeLocal (endStream : Bool) : AsyncRun :=
  let s := { s with
    failed := s.failed || (s.localClosed && endStream), localClosed := s.localClosed || endStream }
  if s.complete then s.cleanup else s

def closeRemote (endStream : Bool) : AsyncRun :=
  let s := { s with remoteClosed := s.remoteClosed || endStream }
  if s.complete then s.cleanup else s

def callBack (report : AsyncReport) (call : AsyncCall) : AsyncRun :=
  { s with log := report :: s.log, stack := call :: s.stack }

def encode (s : AsyncRun) (report : AsyncReport) (endStream : Bool) : AsyncRun :=
  let s := { s with failed := s.failed || s.remoteClosed }
  if s.request then
    if endStream then s.callBack .onSuccess (.encode true) else s.closeRemote false
  else s.callBack report (.encode endStream)

def resetStream : AsyncRun :=
  if s.request then if s.cancelled then s.cleanup else s.callBack .onFailure .reset
  else s.callBack .onReset .reset

/-- The router is destroyed by the step. -/
def reset : AsyncRun := s.resetStream

def cancel (s : AsyncRun) : AsyncRun := { s with cancelled := true }.reset

def finishSend : AsyncRun :=
  let s := { s with delivered := s.log.any AsyncReport.isOutcome }
  if ¬ s.remoteClosed then { s with inserted := true, handed := true }
  else { s.cleanup with null := true, log := .released :: s.cleanup.log }

def resume : AsyncCall → AsyncRun
  | .requestHeaders endStream =>
    let s := s.closeLocal endStream
    if ¬ s.remoteClosed ∧ ¬ endStream then
      { s with localEnded := true, stack := .requestBody :: s.stack }
    else s.finishSend
  | .requestBody => (s.closeLocal true).finishSend
  | .decode endStream => s.closeLocal endStream
  | .encode endStream => s.closeRemote endStream
  | .reset => s.cleanup

def returned : Option AsyncRun :=
  match s.stack with
  | [] => none
  | call :: stack => some ({ s with stack }.resume call)

inductive AsyncEvent where
  | start
  | send (body : Bool)
  | sendHeaders (endStream : Bool)
  | sendData (endStream : Bool)
  | sendTrailers
  | reset
  | cancel
  | destroyClient
  | encodeHeaders (endStream : Bool)
  | encodeData (endStream : Bool)
  | encodeTrailers
  | resetStream
  | returned

def decode (s : AsyncRun) (endStream : Bool) : AsyncRun :=
  { s with headersSent := true, localEnded := endStream, stack := .decode endStream :: s.stack }

def routing : Bool := s.headersSent && !s.done && !s.destroyed

def maySend : Bool :=
  s.inserted && !s.request && s.headersSent && !s.localEnded

/-- The client is not destroyed inside `send`. -/
def step : AsyncEvent → Option AsyncRun
  | .start => if s = new then some { s with inserted := true, handed := true } else none
  | .send body =>
    if s = new then
      some { s with
        request := true, headersSent := true, localEnded := !body
        stack := [.requestHeaders (!body)] }
    else none
  | .sendHeaders endStream =>
    if s.inserted && !s.request && !s.headersSent then some (s.decode endStream) else none
  | .sendData endStream => if s.maySend then some (s.decode endStream) else none
  | .sendTrailers => if s.maySend then some (s.decode true) else none
  | .reset =>
    if s.inserted && !s.request then some { s with destroyed := true }.reset else none
  | .cancel =>
    if s.inserted && s.request then
      some { s with destroyed := true, log := .cancel :: s.log }.cancel
    else none
  | .destroyClient =>
    if s.stack.any AsyncCall.starting then none
    else some (if s.inserted then { s with destroyed := true }.reset else s)
  | .encodeHeaders endStream =>
    if s.routing && !s.responseStarted then
      some ({ s with responseStarted := true, done := endStream }.encode (.onHeaders endStream)
        endStream)
    else none
  | .encodeData endStream =>
    if s.routing && s.responseStarted then
      some ({ s with done := endStream }.encode (.onData endStream) endStream)
    else none
  | .encodeTrailers =>
    if s.routing && s.responseStarted then some ({ s with done := true }.encode .onTrailers true)
    else none
  | .resetStream => if s.routing then some { s with done := true }.resetStream else none
  | .returned => s.returned

end AsyncRun

end Meliproxy.Envoy.Http
