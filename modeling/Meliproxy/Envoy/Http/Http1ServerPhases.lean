import Meliproxy.Envoy.Http.ConnDrainRuns
import Meliproxy.Envoy.Http.Http1Server

/-!
# The manager of an HTTP/1 connection

What the steps of the connection manager do to the one stream of an HTTP/1 connection, and whether
they close the connection.
-/

namespace Meliproxy.Envoy.Http.ConnectionManagerImpl

open Lib Option

variable {config : DrainConfig} {s t : ConnectionManagerImpl} {stream : ActiveStream} {a : Answers}
  {id : Nat}

def ClosesOrKeeps (s t : ConnectionManagerImpl) : Prop :=
  t.isOpen = false ∧ t.streams = [] ∨ t.isOpen = s.isOpen ∧ t.streams = s.streams

/-- The only stream has ended. It was complete, or the connection is closed. -/
structure StreamEnded (stream : ActiveStream) (s t : ConnectionManagerImpl) : Prop where
  streams : t.streams = []
  dispatching : t.dispatching = s.dispatching
  outcome : t.isOpen = false ∧ t.drainState = .closing ∨
    t.isOpen = s.isOpen ∧ t.drainState ≠ .closing ∧
      (!stream.remoteComplete || !stream.localComplete) = false

section

variable (hs : s.streams = [stream])
include hs

theorem find_single {found : ActiveStream}
    (h : s.find id = some found) : found = stream ∧ id = stream.id := by
  obtain ⟨hmem, hid⟩ := find_mem h
  rw [hs, List.mem_singleton] at hmem
  exact ⟨hmem, by rw [← hid, hmem]⟩

theorem find_of_single : s.find stream.id = some stream := by
  rw [find, hs, List.find?_cons_of_pos (by simp)]

theorem update_single (f : ActiveStream → ActiveStream) :
    (s.update stream.id f).streams = [f stream] := by
  simp [update, hs]

theorem destroy_single : (s.doDeferredStreamDestroy stream.id).streams = [] := by
  simp [doDeferredStreamDestroy, hs]

end

@[simp] theorem close_dispatching : (s.close a).dispatching = s.dispatching := by
  rw [close]
  split <;> rfl

theorem checkForDeferredClose_closesOrKeeps (s : ConnectionManagerImpl) (a : Answers) :
    ClosesOrKeeps s (s.checkForDeferredClose a) := by
  rw [checkForDeferredClose]
  split
  · rename_i hclose
    exact .inl ⟨close_isOpen s a, close_streams hclose.2.1⟩
  · exact .inr ⟨rfl, rfl⟩

@[simp] theorem checkForDeferredClose_dispatching :
    (s.checkForDeferredClose a).dispatching = s.dispatching := by
  rw [checkForDeferredClose]
  split
  · exact close_dispatching
  · rfl

theorem checkForDeferredClose_empty (hempty : s.streams = []) (hwrites : s.wantsToWrite = false) :
    (s.checkForDeferredClose a).streams = [] ∧ ((s.checkForDeferredClose a).isOpen = false ∧
          (s.checkForDeferredClose a).drainState = .closing ∨
        (s.checkForDeferredClose a).isOpen = s.isOpen ∧ s.drainState ≠ .closing ∧
          (s.checkForDeferredClose a).drainState ≠ .closing) := by
  rw [checkForDeferredClose]
  split
  · rename_i hclose
    exact ⟨close_streams hempty, .inl ⟨close_isOpen s a, close_drainState.trans hclose.1⟩⟩
  · rename_i hkeep
    have hdrain : s.drainState ≠ .closing := fun h => hkeep ⟨h, hempty, hwrites⟩
    exact ⟨hempty, .inr ⟨rfl, hdrain, hdrain⟩⟩

theorem doEndStream_ended (hhttp : config.http2 = false) (hs : s.streams = [stream])
    {same : ActiveStream} (hid : same.id = stream.id) (a : Answers) :
    StreamEnded same s (s.doEndStream config same a) := by
  have hended : ∀ {t : ConnectionManagerImpl}, StreamEnded same s t →
      StreamEnded same s
        (if t.idleTimer.isSome ∧ t.streams = [] then { t with idleTimer := some true } else t) := by
    intro t h
    split
    · exact { h with }
    · exact h
  rw [doEndStream]
  apply hended
  have hdestroyed : (s.doDeferredStreamDestroy same.id).streams = [] := by
    rw [hid]
    exact destroy_single hs
  have hwrites : (config.http2 && a.wantsToWrite) = false := by rw [hhttp, Bool.false_and]
  cases hreset : !same.remoteComplete || !same.localComplete with
  | true =>
    rw [hhttp, Bool.not_false, Bool.and_true, if_pos rfl]
    obtain ⟨hstreams, houtcome⟩ := checkForDeferredClose_empty (s :=
      { (s.doDeferredStreamDestroy same.id).codecWrites config a with drainState := .closing })
      (a := a) hdestroyed hwrites
    refine ⟨hstreams, checkForDeferredClose_dispatching, ?_⟩
    rcases houtcome with hclosed | ⟨-, hdrain, -⟩
    · exact .inl hclosed
    · exact absurd rfl hdrain
  | false =>
    rw [Bool.false_and, if_neg (by simp)]
    obtain ⟨hstreams, houtcome⟩ := checkForDeferredClose_empty (s :=
      (s.doDeferredStreamDestroy same.id).codecWrites config a) (a := a) hdestroyed hwrites
    refine ⟨hstreams, checkForDeferredClose_dispatching, ?_⟩
    rcases houtcome with hclosed | ⟨hopen, -, hdrain⟩
    · exact .inl hclosed
    · exact .inr ⟨hopen, hdrain, hreset⟩

theorem decideDrain_keeps (h : s.decideDrain config stream a = some t) :
    t.streams = s.streams ∧ t.isOpen = s.isOpen ∧ t.dispatching = s.dispatching := by
  obtain ⟨s₁, hs₁, rfl⟩ := map_eq_some_iff.mp h
  have hstart : s₁.streams = s.streams ∧ s₁.isOpen = s.isOpen ∧ s₁.dispatching = s.dispatching := by
    split at hs₁
    · rename_i hdrain
      rw [startDrainSequence, if_pos hdrain.1, some_inj] at hs₁
      subst hs₁
      exact ⟨rfl, rfl, rfl⟩
    · rw [some_inj] at hs₁
      subst hs₁
      exact ⟨rfl, rfl, rfl⟩
  split_ifs <;> exact hstart

def Encoded (stream : ActiveStream) (endStream : Bool) (s t : ConnectionManagerImpl) : Prop :=
  if endStream then StreamEnded stream s t
  else ∃ responded, t.streams = [{ stream with responded := responded }] ∧ t.isOpen = s.isOpen ∧
    t.dispatching = s.dispatching

theorem step_encodeHeaders (hhttp : config.http2 = false) (hs : s.streams = [stream])
    {headers : Headers} {endStream : Bool}
    (h : s.step config (.encodeHeaders stream.id headers endStream a) = some t) :
    Encoded stream endStream s t := by
  rw [step, find_of_single hs, bind_some, encodeHeaders] at h
  obtain ⟨s₁, hs₁, rfl⟩ := map_eq_some_iff.mp h
  obtain ⟨hstreams, hopen, hdispatching⟩ := decideDrain_keeps hs₁
  have hupdated := update_single (s := { s₁ with
      responses := s₁.responses ++ [⟨stream.id, stream.wantsClose,
        encodedHeaders config (s₁.drainState = .closing && !config.http2) a headers.1⟩] })
    (hstreams.trans hs) fun stream => { stream with responded := true }
  rw [Encoded, maybeEndEncode]
  cases endStream with
  | true =>
    rw [if_pos rfl, if_pos rfl]
    have hended := doEndStream_ended hhttp
      (s := codecWrites (update { s₁ with
        responses := s₁.responses ++ [⟨stream.id, stream.wantsClose,
          encodedHeaders config (s₁.drainState = .closing && !config.http2) a headers.1⟩] }
        stream.id fun stream => { stream with responded := true }) config a)
      hupdated (rfl : stream.id = _) a
    refine ⟨hended.streams, hended.dispatching.trans hdispatching, ?_⟩
    rcases hended.outcome with hclosed | ⟨hsame, hrest⟩
    · exact .inl hclosed
    · exact .inr ⟨hsame.trans hopen, hrest⟩
  | false =>
    rw [if_neg (by simp), if_neg (by simp)]
    exact ⟨true, hupdated, hopen, hdispatching⟩

theorem step_encodeMore (hhttp : config.http2 = false) (hs : s.streams = [stream]) {endStream : Bool}
    (h : s.step config (.encodeMore stream.id endStream a) = some t) :
    Encoded stream endStream s t := by
  rw [step, find_of_single hs, map_some, some_inj, maybeEndEncode] at h
  subst h
  rw [Encoded]
  cases endStream with
  | true =>
    rw [if_pos rfl, if_pos rfl]
    have hended := doEndStream_ended hhttp (s := s.codecWrites config a) hs (rfl : stream.id = _) a
    exact { hended with }
  | false =>
    rw [if_neg (by simp), if_neg (by simp)]
    exact ⟨stream.responded, hs, rfl, rfl⟩

theorem step_resetStream (hhttp : config.http2 = false) (hs : s.streams = [stream])
    (h : s.step config (.resetStream stream.id a) = some t) : StreamEnded stream s t := by
  rw [step, find_of_single hs, map_some, some_inj] at h
  subst h
  exact doEndStream_ended hhttp hs rfl a

theorem step_dispatched (h : s.step config (.dispatched a) = some t) :
    ClosesOrKeeps s t ∧ t.dispatching = false := by
  rw [step, some_inj] at h
  subst h
  exact ⟨checkForDeferredClose_closesOrKeeps _ a, checkForDeferredClose_dispatching⟩

theorem step_idleTimeout (hempty : s.streams = []) (h : s.step config (.idleTimeout a) = some t) :
    ClosesOrKeeps s t ∧ t.dispatching = s.dispatching := by
  rw [step, onIdleTimeout] at h
  split at h
  · rw [some_inj] at h
    subst h
    exact ⟨.inl ⟨close_isOpen _ a, close_streams hempty⟩, close_dispatching⟩
  · split at h
    · rename_i hdrain
      rw [startDrainSequence, if_pos hdrain, some_inj] at h
      subst h
      exact ⟨.inr ⟨rfl, rfl⟩, rfl⟩
    · rw [some_inj] at h
      subst h
      exact ⟨.inr ⟨rfl, rfl⟩, rfl⟩

theorem step_drainTimeout (h : s.step config (.drainTimeout a) = some t) :
    ClosesOrKeeps s t ∧ t.dispatching = s.dispatching := by
  rw [step, onDrainTimeout] at h
  split at h
  · cases h
  · rw [some_inj] at h
    subst h
    exact ⟨checkForDeferredClose_closesOrKeeps _ a, checkForDeferredClose_dispatching⟩

theorem step_onEvent (h : s.step config .onEvent = some t) :
    ClosesOrKeeps s t ∧ t.dispatching = s.dispatching := by
  rw [step, some_inj] at h
  subst h
  exact ⟨.inl ⟨rfl, rfl⟩, rfl⟩

end Meliproxy.Envoy.Http.ConnectionManagerImpl

/-!
## The phases of an HTTP/1 connection

There is no request, or one that has its stream, or the connection is closed. `Live` ties the state
to the requests on the wire.
-/

namespace Meliproxy.Envoy.Http.Http1.ServerConnectionImpl

open Lib Network ConnectionManagerImpl

variable {p : RequestParser} {At : p.State → RequestPos → Prop} {config : DrainConfig}
  {rs done : List Request} {pos : RequestPos} {s s' : ServerConnectionImpl p}
  {stream : ActiveStream} {a : Answers}

def headersInOrder (rs : List Request) : List (Nat × Bool × Headers) :=
  rs.mapIdx fun i r => (i, false, r.headers)

/-- How often a call of `onData` has called the codec. Where the parser was paused behind a
request, there is one request less. -/
structure Rounds (rs : List Request) (pos : RequestPos) (d : Dispatch) : Prop where
  count : d.rounds ≤ rs.length
  left : d.rounds + pos.requests.length ≤ rs.length + 1
  paused : d.paused = true → pos.begun = 0 → d.rounds + pos.requests.length ≤ rs.length
  headers : d.inHeaders = true → pos.begun = 1

/-- `pos` is where the parser is. -/
structure Reading (At : p.State → RequestPos → Prop) (rs : List Request) (s : ServerConnectionImpl p)
    (pos : RequestPos) : Prop where
  parser : At s.parser pos
  coming : ∃ past coming, s.received = past ++ s.unread ∧
    Request.stream rs = s.received ++ coming ∧ pos.bytes = s.unread ++ coming
  buffer : ∀ d ∈ s.dispatch, s.connection.readBuffer.flatten.drop d.parsed = d.slices.flatten

/-- `done` are the requests that are complete. -/
structure Log (rs : List Request) (s : ServerConnectionImpl p) (done : List Request)
    (pos : RequestPos) : Prop where
  requests : rs = done ++ pos.requests
  count : s.created.length = done.length + pos.begun
  created : ∀ i o, s.created[i]? = some o →
    (Request.stream (rs.take i)).length < o ∧ o ≤ (Request.stream (rs.take (i + 1))).length
  decoded : s.decoded = headersInOrder (rs.take s.decoded.length)
  decoded_le : s.decoded.length ≤ s.created.length
  rounds : ∀ d ∈ s.dispatch, Rounds rs pos d

/-- The states that agree on what `Reading` and `Log` are about. -/
structure SameWire (s s' : ServerConnectionImpl p) : Prop where
  parser : s'.parser = s.parser
  dispatch : s'.dispatch = s.dispatch
  received : s'.received = s.received
  buffer : s'.connection.readBuffer = s.connection.readBuffer
  created : s'.created = s.created
  decoded : s'.decoded = s.decoded

theorem SameWire.unread_eq (h : SameWire s s') : s'.unread = s.unread := by
  rw [unread, unread, h.dispatch, h.buffer]

theorem Reading.of_same (h : Reading At rs s pos) (hsame : SameWire s s') : Reading At rs s' pos where
  parser := hsame.parser ▸ h.parser
  coming := by
    rw [hsame.received, hsame.unread_eq]
    exact h.coming
  buffer := by
    rw [hsame.dispatch, hsame.buffer]
    exact h.buffer

theorem Log.of_same (h : Log rs s done pos) (hsame : SameWire s s') : Log rs s' done pos where
  requests := h.requests
  count := by
    rw [hsame.created]
    exact h.count
  created := by
    rw [hsame.created]
    exact h.created
  decoded := by
    rw [hsame.decoded]
    exact h.decoded
  decoded_le := by
    rw [hsame.decoded, hsame.created]
    exact h.decoded_le
  rounds := by
    rw [hsame.dispatch]
    exact h.rounds

/-- The positions in a request where no headers wait for the end of the message. -/
def noneDeferred : RequestPos → Bool
  | .between _ => false
  | .head _ _ _ => true
  | .body r _ _ => r.hasBody

/-- What the stream of the request at a position was given. Without a body the headers wait for the
end of the message. -/
def Given (requestHeaders : Option (Protocol × Headers)) (deferred : Option (Bool × Headers))
    (decoded done : Nat) : RequestPos → Prop
  | .between _ => deferred = none ∧ decoded = done
  | .head _ _ _ => requestHeaders = none ∧ deferred = none ∧ decoded = done
  | .body r _ _ =>
    if r.hasBody then deferred = none ∧ decoded = done + 1
    else requestHeaders = none ∧ deferred = some (false, r.headers) ∧ decoded = done

variable (s)

structure Idle (done : List Request) (pos : RequestPos) : Prop where
  isOpen : s.manager.isOpen = true
  streams : s.manager.streams = []
  request : s.activeRequest = none
  reset : s.resetStreamCalled = false
  between : pos.begun = 0
  deferred : s.deferredEndStreamHeaders = none
  decoded : s.decoded.length = done.length
  disables : s.connection.disables = 0
  flow : s.flowDisables = 0
  pending : s.dispatch = none → 0 < s.connection.length → s.connection.readActivated = true

/-- A stream is active. Its request is read, or it is complete and the parser is paused; then reads
are disabled once when `onData` returns. -/
structure Active (done : List Request) (pos : RequestPos)
    (stream : ActiveStream) : Prop where
  isOpen : s.manager.isOpen = true
  streams : s.manager.streams = [stream]
  request : s.activeRequest = some ⟨stream.id, stream.remoteComplete⟩
  reset : s.resetStreamCalled = false
  begun : pos.begun = if stream.remoteComplete then 0 else 1
  id : stream.id + 1 = done.length + pos.begun
  wants : stream.wantsClose = false
  given : Given stream.requestHeaders s.deferredEndStreamHeaders s.decoded.length done.length pos
  disables : s.connection.disables =
    s.flowDisables + if stream.remoteComplete && s.dispatch.isNone then 1 else 0
  quiet : s.dispatch = none → stream.remoteComplete = false → s.connection.length = 0
  paused : ∀ d ∈ s.dispatch, d.paused = stream.remoteComplete

/-- The connection is closed. The codec may still be called. -/
structure Closed (pos : RequestPos) : Prop where
  isOpen : s.manager.isOpen = false
  streams : s.manager.streams = []
  request : s.dispatch.isSome = true → s.activeRequest = none
  begun : ∀ d ∈ s.dispatch, d.paused = false → pos.begun = 1
  deferred : noneDeferred pos = true → s.deferredEndStreamHeaders = none

variable {s}

inductive Phase (s : ServerConnectionImpl p) (done : List Request) (pos : RequestPos) : Prop where
  | idle (h : Idle s done pos)
  | active (stream : ActiveStream) (h : Active s done pos stream)
  | closed (h : Closed s pos)

structure Live (At : p.State → RequestPos → Prop) (config : DrainConfig) (rs : List Request)
    (s : ServerConnectionImpl p) (done : List Request) (pos : RequestPos) : Prop where
  manager : Inv config s.manager
  dispatching : s.manager.dispatching = s.dispatch.isSome
  reading : Reading At rs s pos
  log : Log rs s done pos
  phase : Phase s done pos

theorem live_create (hinit : At p.init (.between rs)) :
    Live At config rs (create config p) [] (.between rs) where
  manager := inv_create config
  dispatching := rfl
  reading := ⟨hinit, ⟨[], Request.stream rs, rfl, rfl, rfl⟩, nofun⟩
  log :=
    { requests := rfl
      count := rfl
      created := nofun
      decoded := rfl
      decoded_le := le_rfl
      rounds := nofun }
  phase := .idle ⟨rfl, rfl, rfl, rfl, rfl, rfl, rfl, rfl, rfl, nofun⟩

theorem Given.deferred_none {requestHeaders : Option (Protocol × Headers)}
    {deferred : Option (Bool × Headers)} {decoded n : Nat} (h : Given requestHeaders deferred decoded n pos)
    (hpos : noneDeferred pos = true) : deferred = none := by
  cases pos with
  | between rest => cases hpos
  | head r left rest => exact h.2.1
  | body r left rest =>
    have hbody : r.hasBody = true := hpos
    rw [Given, if_pos hbody] at h
    exact h.1

theorem Phase.deferred_none (h : Phase s done pos) (hpos : noneDeferred pos = true) :
    s.deferredEndStreamHeaders = none := by
  cases h with
  | idle h => exact h.deferred
  | active stream h => exact h.given.deferred_none hpos
  | closed h => exact h.deferred hpos

theorem Phase.of_pos (h : Phase s done pos) {pos' : RequestPos} (hbegun : pos'.begun = pos.begun)
    (hgiven : ∀ requestHeaders deferred decoded n, Given requestHeaders deferred decoded n pos →
      Given requestHeaders deferred decoded n pos')
    (hdeferred : noneDeferred pos' = noneDeferred pos) : Phase s done pos' := by
  cases h with
  | idle h =>
    exact .idle { h with between := hbegun.trans h.between }
  | active stream h =>
    exact .active stream { h with
        begun := hbegun.trans h.begun, id := hbegun.symm ▸ h.id, given := hgiven _ _ _ _ h.given }
  | closed h =>
    exact .closed ⟨h.isOpen, h.streams, h.request,
      fun d hd hrun => hbegun.trans (h.begun d hd hrun), fun hpos => h.deferred (hdeferred.symm.trans hpos)⟩

theorem manage_eq {e : ConnEvent} {t : ConnectionManagerImpl} (h : s.manager.step config e = some t) :
    s.manage config e = some { s with
      manager := t
      connection := if t.isOpen then s.connection else s.connection.stopReading } := by
  rw [manage, h, Option.map_some]

theorem manage_open {e : ConnEvent} {t : ConnectionManagerImpl}
    (h : s.manager.step config e = some t) (hopen : t.isOpen = true) :
    s.manage config e = some { s with manager := t } := by
  rw [manage_eq h, if_pos hopen]

theorem manage_inv (h : Inv config s.manager) {e : ConnEvent}
    (hpossible : s.manager.Possible config e)
    (hwants : ∀ stream ∈ s.manager.streams, stream.wantsClose = false)
    (hreset : ∀ id, e ≠ .onResetStream id) :
    ∃ t, s.manager.step config e = some t ∧ Inv config t := by
  refine inv_step h hpossible ?_
  cases e with
  | onResetStream id => exact absurd rfl (hreset id)
  | encodeHeaders id headers endStream a =>
    intro stream hfind hwish
    rw [hwants stream (find_mem (Option.mem_def.mp hfind)).1] at hwish
    cases hwish
  | _ => trivial

end Meliproxy.Envoy.Http.Http1.ServerConnectionImpl
