import Meliproxy.Lib.Text
import Meliproxy.Envoy.Network.Connection
import Meliproxy.Envoy.Upstream.HealthChecker

/-!
# TCP health checks

`TcpActiveHealthCheckSession` of `upstream/health_checker_impl.cc` with the timers of
`ActiveHealthCheckSession`. The client outlives an attempt, so it may be closed or send something
while none is made. A step that would use a null pointer answers `none`.
-/

namespace Meliproxy.Envoy.Upstream

open Lib List Option

/-- `search` of a buffer. -/
def bufferSearch (data what : Bytes) (start : Nat) : Option Nat :=
  if data.length < start then none
  else ((List.range (data.length + 1 - start)).map (start + ·)).find? fun i =>
    what.isPrefixOf (data.drop i)

/-- `TcpHealthCheckMatcher::match` -/
def matchSegments (data : Bytes) (startIndex : Nat) : List Bytes → Bool
  | [] => true
  | segment :: expected =>
    match bufferSearch data segment startIndex with
    | none => false
    | some searchResult => matchSegments data (searchResult + segment.length) expected

def OccursAt (data what : Bytes) (i : Nat) : Prop := what <+: data.drop i

/-- Each segment occurs at its position, and ends before the next one begins. -/
structure Embedding (data : Bytes) (expected : List Bytes) (positions : List Nat) : Prop where
  occurs : List.Forall₂ (OccursAt data) expected positions
  increasing : positions.IsChain (· < ·)
  apart : (expected.zip positions).IsChain fun here next => here.2 + here.1.length ≤ next.2

theorem OccursAt.end_le {data what : Bytes} {i : Nat} (h : OccursAt data what i)
    (hne : what ≠ []) : i + what.length ≤ data.length := by
  have hle := h.length_le
  have hpos := length_pos_iff.mpr hne
  rw [length_drop] at hle
  omega

theorem bufferSearch_eq_some {data what : Bytes} (hne : what ≠ []) {start i : Nat} :
    bufferSearch data what start = some i ↔
      start ≤ i ∧ OccursAt data what i ∧ ∀ j, start ≤ j → j < i → ¬ OccursAt data what j := by
  rw [bufferSearch]
  split
  · rename_i hshort
    refine iff_of_false nofun ?_
    rintro ⟨hle, hoccurs, -⟩
    have hend := hoccurs.end_le hne
    omega
  · rw [← range'_eq_map_range, find?_range'_eq_some, mem_range'_1]
    simp only [List.isPrefixOf_iff_prefix, Bool.not_eq_true', Bool.eq_false_iff, ne_eq]
    constructor
    · rintro ⟨hoccurs, ⟨hle, -⟩, hleast⟩
      exact ⟨hle, hoccurs, hleast⟩
    · rintro ⟨hle, hoccurs, hleast⟩
      have hend := hoccurs.end_le hne
      exact ⟨hoccurs, ⟨hle, by omega⟩, hleast⟩

theorem bufferSearch_eq_none {data what : Bytes} (hne : what ≠ []) {start : Nat} :
    bufferSearch data what start = none ↔ ∀ i, start ≤ i → ¬ OccursAt data what i := by
  rw [bufferSearch]
  split
  · rename_i hshort
    refine iff_of_true rfl ?_
    intro i hle hoccurs
    have hend := hoccurs.end_le hne
    omega
  · rw [← range'_eq_map_range, find?_range'_eq_none]
    simp only [List.isPrefixOf_iff_prefix, Bool.not_eq_true', Bool.eq_false_iff, ne_eq]
    constructor
    · intro h i hle hoccurs
      have hend := hoccurs.end_le hne
      exact h i hle (by omega) hoccurs
    · intro h i hle _
      exact h i hle

/-- The segments occur in order from a position on. -/
inductive EmbedsFrom (data : Bytes) : Nat → List Bytes → List Nat → Prop where
  | nil (start : Nat) : EmbedsFrom data start [] []
  | cons {start position : Nat} {segment : Bytes} {expected : List Bytes} {positions : List Nat}
      (after : start ≤ position) (occurs : OccursAt data segment position)
      (rest : EmbedsFrom data (position + segment.length) expected positions) :
      EmbedsFrom data start (segment :: expected) (position :: positions)

variable {data : Bytes} {expected : List Bytes}

variable {positions : List Nat}

theorem EmbedsFrom.earlier {start start' : Nat}
    (hle : start' ≤ start) (h : EmbedsFrom data start expected positions) :
    EmbedsFrom data start' expected positions := by
  cases h with
  | nil => exact .nil start'
  | cons after occurs rest => exact .cons (hle.trans after) occurs rest

/-- The first segment may as well be taken where it occurs first: what follows still fits. -/
theorem matchSegments_iff_embedsFrom (hne : ∀ segment ∈ expected, segment ≠ []) (start : Nat) :
    matchSegments data start expected = true ↔
      ∃ positions, EmbedsFrom data start expected positions := by
  induction expected generalizing start with
  | nil => exact iff_of_true rfl ⟨[], .nil start⟩
  | cons segment expected ih =>
    have hsegment : segment ≠ [] := hne segment mem_cons_self
    have hrest := ih fun other hother => hne other (mem_cons_of_mem segment hother)
    rw [matchSegments]
    split
    · rename_i hnone
      refine iff_of_false Bool.false_ne_true ?_
      rintro ⟨positions, h⟩
      cases h with
      | cons after occurs rest =>
        exact (bufferSearch_eq_none hsegment).mp hnone _ after occurs
    · rename_i first hfirst
      obtain ⟨hafter, hoccurs, hleast⟩ := (bufferSearch_eq_some hsegment).mp hfirst
      rw [hrest]
      constructor
      · rintro ⟨positions, h⟩
        exact ⟨first :: positions, .cons hafter hoccurs h⟩
      · rintro ⟨positions, h⟩
        cases h with
        | @cons _ position _ _ positions after occurs rest =>
          have hle : first ≤ position := by
            by_contra hlt
            exact hleast position after (Nat.lt_of_not_le hlt) occurs
          exact ⟨positions, rest.earlier (Nat.add_le_add_right hle _)⟩

theorem EmbedsFrom.embedding {start : Nat}
    (h : EmbedsFrom data start expected positions)
    (hne : ∀ segment ∈ expected, segment ≠ []) :
    Embedding data expected positions ∧ ∀ first ∈ positions.head?, start ≤ first := by
  induction h with
  | nil start => exact ⟨⟨.nil, .nil, .nil⟩, nofun⟩
  | @cons start position segment expected positions after occurs rest ih =>
    obtain ⟨hrest, hfirst⟩ := ih fun other hother => hne other (mem_cons_of_mem segment hother)
    have hpos := length_pos_iff.mpr (hne segment mem_cons_self)
    refine ⟨⟨.cons occurs hrest.occurs, ?_, ?_⟩, ?_⟩
    · apply isChain_cons.mpr
      refine ⟨fun next hnext => ?_, hrest.increasing⟩
      have hle := hfirst next hnext
      omega
    · rw [zip_cons_cons]
      apply isChain_cons.mpr
      refine ⟨fun next hnext => ?_, hrest.apart⟩
      apply hfirst
      cases expected with
      | nil => cases hnext
      | cons other expected =>
        cases positions with
        | nil => cases hnext
        | cons first positions => exact congrArg (Option.map Prod.snd) hnext
    · rintro first hmem
      rw [← mem_some.mp hmem]
      exact after

theorem Embedding.embedsFrom {start : Nat}
    (h : Embedding data expected positions)
    (hfirst : ∀ first ∈ positions.head?, start ≤ first) :
    EmbedsFrom data start expected positions := by
  obtain ⟨hoccurs, hincreasing, hapart⟩ := h
  induction hoccurs generalizing start with
  | nil => exact .nil start
  | @cons segment position expected positions hfits hrest ih =>
    rw [zip_cons_cons, isChain_cons] at hapart
    refine .cons (hfirst position rfl) hfits ?_
    refine ih ?_ hincreasing.tail hapart.2
    intro first hmem
    cases hrest with
    | nil => cases hmem
    | @cons other next expected positions hnext hrest =>
      rw [← mem_some.mp hmem]
      exact hapart.1 _ rfl

/-- The scan finds the segments wherever they occur in order and apart from each other. -/
theorem matchSegments_iff_embedding (data : Bytes) (expected : List Bytes)
    (hne : ∀ segment ∈ expected, segment ≠ []) :
    matchSegments data 0 expected = true ↔ ∃ positions, Embedding data expected positions := by
  rw [matchSegments_iff_embedsFrom hne]
  constructor
  · rintro ⟨positions, h⟩
    exact ⟨positions, (h.embedding hne).1⟩
  · rintro ⟨positions, h⟩
    exact ⟨positions, h.embedsFrom fun _ _ => Nat.zero_le _⟩

/-- A segment that overlaps with itself is found a second time behind the first one. -/
theorem embedding_overlaps : matchSegments [1, 2, 1, 2, 1] 0 [[1, 2, 1], [1, 2]] = false ∧
    ∃ positions, Embedding [1, 2, 1, 2, 1, 2, 1] [[1, 2, 1], [1, 2, 1]] positions := by
  constructor
  · decide
  · apply (matchSegments_iff_embedding _ _ (by decide)).mp
    decide

structure TcpHealthCheckerImpl where
  sendBytes : List Bytes
  receiveBytes : List Bytes
  unhealthyThreshold : Nat
  healthyThreshold : Nat

/-- A connection with the bytes that it has read and nobody has drained, and those that it was given
to write. -/
structure TcpClient where
  connected : Bool
  readBuffer : Bytes
  written : Bytes

/-- What is done about the checks: an attempt, and the results of `handleSuccess` and
`handleFailure`. -/
inductive CheckCall where
  | onInterval
  | handleSuccess
  | handleFailure

def CheckCall.attempt : CheckCall → Bool
  | .onInterval => true
  | .handleSuccess => false
  | .handleFailure => false

/-- `calls` is a history. -/
structure TcpActiveHealthCheckSession where
  client : Option TcpClient
  intervalTimer : Bool
  timeoutTimer : Bool
  session : ActiveHealthCheckSession
  failedActiveHc : Bool
  attempts : Nat
  calls : List CheckCall

namespace TcpActiveHealthCheckSession

variable (parent : TcpHealthCheckerImpl)

def handleSuccess (s : TcpActiveHealthCheckSession) : TcpActiveHealthCheckSession :=
  let (session, clears) := s.session.onSuccess s.failedActiveHc parent.healthyThreshold
  { s with
    session := session
    failedActiveHc := s.failedActiveHc && !clears
    timeoutTimer := false
    intervalTimer := true
    calls := s.calls ++ [.handleSuccess] }

variable (s : TcpActiveHealthCheckSession)

def setUnhealthy (type : FailureType) : TcpActiveHealthCheckSession :=
  let (session, sets) := s.session.onFailure s.failedActiveHc parent.unhealthyThreshold type
  { s with session := session, failedActiveHc := s.failedActiveHc || sets }

def handleFailure (s : TcpActiveHealthCheckSession) (type : FailureType) :
    TcpActiveHealthCheckSession :=
  { s.setUnhealthy parent type with
    timeoutTimer := false
    intervalTimer := true
    calls := s.calls ++ [.handleFailure] }

/-- The client is closed, which it tells the session before it comes back. -/
def closeClient : Option TcpActiveHealthCheckSession :=
  if s.client.isSome then some { s with client := none } else none

/-- `data` is all that the client has read. -/
def onData (client : TcpClient) (data : Bytes) : TcpActiveHealthCheckSession :=
  if matchSegments data 0 parent.receiveBytes then
    ({ s with client := some { client with readBuffer := [] } } :
      TcpActiveHealthCheckSession).handleSuccess parent
  else { s with client := some { client with readBuffer := data } }

def onEvent (event : ConnectionEvent) : Option TcpActiveHealthCheckSession :=
  let s := if event = .remoteClose then s.handleFailure parent .network else s
  let s := if event = .remoteClose ∨ event = .localClose then { s with client := none } else s
  if event = .connected ∧ parent.receiveBytes = [] then
    s.closeClient.map (handleSuccess parent)
  else some s

def onInterval : TcpActiveHealthCheckSession :=
  let client := s.client.getD ⟨false, [], []⟩
  { s with client := some { client with written := client.written ++ parent.sendBytes.flatten } }

def onIntervalBase : TcpActiveHealthCheckSession :=
  { s.onInterval parent with
    timeoutTimer := true
    attempts := s.attempts + 1
    calls := s.calls ++ [.onInterval] }

def onTimeout : Option TcpActiveHealthCheckSession :=
  s.closeClient

def onTimeoutBase : Option TcpActiveHealthCheckSession :=
  s.onTimeout.map fun s => s.handleFailure parent .network

def start (failedActiveHc : Bool) : TcpActiveHealthCheckSession :=
  onIntervalBase parent ⟨none, false, false, .new, failedActiveHc, 0, []⟩

/-- A timer that is armed fires, the client connects, reads something or is closed, and a worker
posts a passive failure. -/
inductive Event where
  | intervalTimer
  | timeoutTimer
  | connected
  | data (bytes : Bytes)
  | remoteClose
  | localClose
  | passiveFailure

def step : Event → Option TcpActiveHealthCheckSession
  | .intervalTimer =>
    if s.intervalTimer then
      some (onIntervalBase parent { s with intervalTimer := false })
    else none
  | .timeoutTimer =>
    if s.timeoutTimer then onTimeoutBase parent { s with timeoutTimer := false } else none
  | .connected => do
    let client ← s.client
    if client.connected then none
    else onEvent parent { s with client := some { client with connected := true } } .connected
  | .data bytes => do
    let client ← s.client
    if client.connected then return s.onData parent client (client.readBuffer ++ bytes) else none
  | .remoteClose => if s.client.isSome then s.onEvent parent .remoteClose else none
  | .localClose => if s.client.isSome then s.onEvent parent .localClose else none
  | .passiveFailure => some (s.setUnhealthy parent .passive)

/-- Attempts and results take turns, and one of the two timers is armed. -/
structure OneResult (s : TcpActiveHealthCheckSession) : Prop where
  alternate : s.calls.IsChain fun a b => a.attempt ≠ b.attempt
  head : s.calls.head? = some .onInterval
  timers : s.intervalTimer = !s.timeoutTimer

/-- Nothing that counts as a result comes while no attempt is made. -/
def InAttempt : Event → Prop
  | .remoteClose => s.timeoutTimer = true
  | .data bytes => s.timeoutTimer = true ∨ ∀ client ∈ s.client,
      matchSegments (client.readBuffer ++ bytes) 0 parent.receiveBytes = false
  | _ => True

/-- The timeout runs from an attempt to its result, and the client connects in an attempt. -/
structure Inv (s : TcpActiveHealthCheckSession) : Prop where
  oneResult : s.OneResult
  last : (∃ call ∈ s.calls.getLast?, call.attempt = true) ↔ s.timeoutTimer = true
  connecting : ∀ client ∈ s.client, client.connected = false → s.timeoutTimer = true

variable {parent} {s s' : TcpActiveHealthCheckSession}

theorem head_append {calls : List CheckCall} (h : calls.head? = some .onInterval)
    (call : CheckCall) : (calls ++ [call]).head? = some .onInterval := by
  cases calls with
  | nil => cases h
  | cons first rest => exact h

theorem Inv.attempt (h : s.Inv) (hidle : s.timeoutTimer = false)
    (hcalls : s'.calls = s.calls ++ [.onInterval]) (htimeout : s'.timeoutTimer = true)
    (hinterval : s'.intervalTimer = false) : s'.Inv := by
  refine ⟨⟨?_, ?_, ?_⟩, ?_, fun _ _ _ => htimeout⟩
  · rw [hcalls]
    apply isChain_snoc h.oneResult.alternate
    intro last hlast heq
    have hattempt := h.last.mp ⟨last, hlast, heq⟩
    rw [hidle] at hattempt
    cases hattempt
  · rw [hcalls]
    exact head_append h.oneResult.head _
  · rw [hinterval, htimeout]
    rfl
  · rw [hcalls, htimeout]
    simp [CheckCall.attempt]

theorem Inv.result (h : s.Inv) (hattempt : s.timeoutTimer = true) {call : CheckCall}
    (hcall : call.attempt = false) (hcalls : s'.calls = s.calls ++ [call])
    (htimeout : s'.timeoutTimer = false) (hinterval : s'.intervalTimer = true)
    (hclient : ∀ client ∈ s'.client, client.connected = true) : s'.Inv := by
  obtain ⟨last, hlast, hlastAttempt⟩ := h.last.mpr hattempt
  refine ⟨⟨?_, ?_, ?_⟩, ?_, ?_⟩
  · rw [hcalls]
    apply isChain_snoc h.oneResult.alternate
    intro other hother heq
    obtain rfl := mem_unique hlast hother
    rw [hlastAttempt, hcall] at heq
    cases heq
  · rw [hcalls]
    exact head_append h.oneResult.head _
  · rw [hinterval, htimeout]
    rfl
  · rw [hcalls, htimeout]
    simp [hcall]
  · intro client hmem hconnecting
    rw [hclient client hmem] at hconnecting
    cases hconnecting

theorem Inv.quiet (h : s.Inv) (hcalls : s'.calls = s.calls)
    (htimeout : s'.timeoutTimer = s.timeoutTimer) (hinterval : s'.intervalTimer = s.intervalTimer)
    (hclient : ∀ client ∈ s'.client, client.connected = false → s.timeoutTimer = true) :
    s'.Inv := by
  refine ⟨⟨?_, ?_, ?_⟩, ?_, ?_⟩
  · rw [hcalls]
    exact h.oneResult.alternate
  · rw [hcalls]
    exact h.oneResult.head
  · rw [hinterval, htimeout]
    exact h.oneResult.timers
  · rw [hcalls, htimeout]
    exact h.last
  · rw [htimeout]
    exact hclient

theorem inv_start (parent : TcpHealthCheckerImpl) (failedActiveHc : Bool) :
    (start parent failedActiveHc).Inv := by
  refine ⟨⟨isChain_singleton _, rfl, rfl⟩, ?_, fun _ _ _ => rfl⟩
  exact iff_of_true ⟨.onInterval, rfl, rfl⟩ rfl

theorem Inv.onData (h : s.Inv) {client : TcpClient} {bytes : Bytes}
    (hclient : s.client = some client) (hconnected : client.connected = true)
    (hattempt : s.timeoutTimer = true ∨ ∀ client ∈ s.client,
      matchSegments (client.readBuffer ++ bytes) 0 parent.receiveBytes = false) :
    (s.onData parent client (client.readBuffer ++ bytes)).Inv := by
  have hsame (readBuffer : Bytes) :
      ∀ c ∈ some { client with readBuffer := readBuffer }, c.connected = true := by
    rintro c hc
    rw [← mem_some.mp hc]
    exact hconnected
  rw [TcpActiveHealthCheckSession.onData]
  split
  · rename_i hmatch
    have hrunning : s.timeoutTimer = true := by
      apply hattempt.resolve_right
      intro hnone
      rw [hnone client hclient] at hmatch
      cases hmatch
    exact h.result hrunning rfl rfl rfl rfl (hsame [])
  · refine h.quiet rfl rfl rfl fun c hc hconnecting => ?_
    rw [hsame _ c hc] at hconnecting
    cases hconnecting

theorem Inv.step (h : s.Inv) {event : Event} (hattempt : s.InAttempt parent event)
    (hstep : s.step parent event = some s') : s'.Inv := by
  cases event with
  | intervalTimer =>
    rw [TcpActiveHealthCheckSession.step] at hstep
    split at hstep
    · rename_i harmed
      cases hstep
      have hidle : s.timeoutTimer = false := by
        have htimers := h.oneResult.timers
        rw [harmed] at htimers
        simpa using htimers.symm
      exact h.attempt hidle rfl rfl rfl
    · cases hstep
  | timeoutTimer =>
    rw [TcpActiveHealthCheckSession.step] at hstep
    split at hstep
    · rename_i harmed
      obtain ⟨s₁, hclose, rfl⟩ := map_eq_some_iff.mp hstep
      rw [onTimeout, closeClient] at hclose
      split at hclose
      · cases hclose
        exact h.result harmed rfl rfl rfl rfl nofun
      · cases hclose
    · cases hstep
  | connected =>
    obtain ⟨client, hclient, hstep⟩ := bind_eq_some_iff.mp hstep
    split at hstep
    · cases hstep
    · rename_i hconnecting
      have hattempt := h.connecting client hclient (Bool.eq_false_iff.mpr hconnecting)
      rw [onEvent] at hstep
      split at hstep
      · cases hstep
        exact h.result hattempt rfl rfl rfl rfl nofun
      · cases hstep
        exact h.quiet rfl rfl rfl fun _ _ _ => hattempt
  | data bytes =>
    obtain ⟨client, hclient, hstep⟩ := bind_eq_some_iff.mp hstep
    split at hstep
    · rename_i hconnected
      cases hstep
      exact h.onData hclient hconnected hattempt
    · cases hstep
  | remoteClose =>
    rw [TcpActiveHealthCheckSession.step] at hstep
    split at hstep
    · rw [onEvent] at hstep
      cases hstep
      exact h.result hattempt rfl rfl rfl rfl nofun
    · cases hstep
  | localClose =>
    rw [TcpActiveHealthCheckSession.step] at hstep
    split at hstep
    · cases hstep
      exact h.quiet rfl rfl rfl nofun
    · cases hstep
  | passiveFailure =>
    cases hstep
    exact h.quiet rfl rfl rfl h.connecting

variable (parent)

/-- Each attempt has one result at most, as long as nothing that counts as a result comes between
attempts. -/
theorem oneResult_of_inAttempt (failedActiveHc : Bool)
    {events : List Event} {s : TcpActiveHealthCheckSession}
    (hmeet : AllMeet (step parent) (InAttempt parent) (start parent failedActiveHc) events)
    (hrun : run (step parent) (start parent failedActiveHc) events = some s) : s.OneResult := by
  have hend : s.Inv := run_invariant (fun _ _ _ h hattempt hstep => h.step hattempt hstep) hmeet
    (inv_start parent failedActiveHc) hrun
  exact hend.oneResult

instance (s : TcpActiveHealthCheckSession) :
    (event : Event) → Decidable (s.InAttempt parent event) := by
  intro e
  cases e <;> dsimp only [InAttempt] <;> infer_instance

variable {parent}

def pingPong : TcpHealthCheckerImpl := ⟨[[1]], [[2]], 2, 2⟩

def twoChecks : List Event := [.connected, .data [3], .data [2], .intervalTimer, .remoteClose]

theorem oneResult_pingPong : ∃ s, run (step pingPong) (start pingPong true) twoChecks = some s ∧
    s.OneResult := by
  refine ⟨_, rfl, ?_⟩
  exact oneResult_of_inAttempt pingPong true (by decide) (rfl : run (step pingPong) _ twoChecks = _)

/-- The other side closes the connection after the success, while the interval timer runs. -/
theorem failure_between_attempts : ∃ s, run (step pingPong) (start pingPong true)
    [.connected, .data [2], .remoteClose] = some s ∧ ¬ s.OneResult := by
  refine ⟨_, rfl, ?_⟩
  intro h
  exact absurd h.alternate (by decide)

end TcpActiveHealthCheckSession

end Meliproxy.Envoy.Upstream
