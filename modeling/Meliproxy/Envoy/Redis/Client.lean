import Meliproxy.Envoy.Network.Connection
import Meliproxy.Envoy.Redis.Codec
import Meliproxy.Lib.Runs

/-!
# The upstream client of the Redis proxy

`ClientImpl` keeps its requests in a FIFO and answers the first one with every value that
arrives. A callback runs before the first request is popped and may make and cancel
requests of its own, so a handler that calls back is cut in two: the event that starts the
callback, and `callbackReturns`, after whatever the callback has done in between.

The requests are numbered in the order of `makeRequest`. `received`, `cancelled` and
`delivered` are the history of the client.
-/

namespace Meliproxy.Envoy.Redis

open Lib List Bool

structure PendingRequest where
  id : Nat
  canceled : Bool

/-- A call of the `PoolCallbacks` of a request. -/
inductive Callback where
  | onResponse (id : Nat) (value : RespValue)
  | onFailure (id : Nat)

def Callback.id : Callback → Nat
  | .onResponse id _ => id
  | .onFailure id => id

/-- The callback of the first pending request that has not returned. -/
inductive Running where
  | nothing
  | response
  | failure
  deriving DecidableEq

structure ClientImpl where
  pendingRequests : List PendingRequest
  connected : Bool
  closed : Bool
  connectOrOpTimer : Bool
  running : Running
  made : Nat
  received : List RespValue
  cancelled : List Nat
  delivered : List Callback

namespace ClientImpl

def create : ClientImpl where
  pendingRequests := []
  connected := false
  closed := false
  connectOrOpTimer := true
  running := .nothing
  made := 0
  received := []
  cancelled := []
  delivered := []

def makeRequest (s : ClientImpl) : ClientImpl :=
  let pending := s.pendingRequests ++ [⟨s.made, false⟩]
  { s with
    pendingRequests := pending
    made := s.made + 1
    connectOrOpTimer := s.connectOrOpTimer || (s.connected && pending.length == 1) }

def cancel (s : ClientImpl) (id : Nat) : ClientImpl :=
  { s with
    pendingRequests := s.pendingRequests.map fun r =>
      if r.id = id then { r with canceled := true } else r }

def popResponse (s : ClientImpl) : ClientImpl :=
  let pending := s.pendingRequests.tail
  { s with
    pendingRequests := pending
    running := .nothing
    connectOrOpTimer := !pending.isEmpty }

def onRespValue (s : ClientImpl) (value : RespValue) : Option ClientImpl :=
  match s.pendingRequests with
  | [] => none
  | request :: _ =>
    if request.canceled then some s.popResponse
    else
      some { s with
        running := .response
        delivered := s.delivered ++ [.onResponse request.id value] }

/-- The loop of `onEvent` over the pending requests, up to its next callback or its end. -/
def failPending (s : ClientImpl) : List PendingRequest → ClientImpl
  | [] => { s with pendingRequests := [], running := .nothing, connectOrOpTimer := false }
  | request :: rest =>
    if request.canceled then s.failPending rest
    else
      { s with
        pendingRequests := request :: rest
        running := .failure
        delivered := s.delivered ++ [.onFailure request.id] }

def onEvent (s : ClientImpl) : ConnectionEvent → ClientImpl
  | .connected => { s with connected := true, connectOrOpTimer := true }
  | .remoteClose => s.failPending s.pendingRequests
  | .localClose => s.failPending s.pendingRequests

end ClientImpl

inductive ClientEvent where
  | makeRequest
  | cancel (id : Nat)
  | connect
  | response (value : RespValue)
  | protocolError
  | timeout
  | close (event : ConnectionEvent)
  | callbackReturns

def ClientImpl.idle (s : ClientImpl) : Bool := s.running == .nothing && !s.closed

/-- The request has a handle that its owner still holds: the owners drop it when their
callback is called. -/
def ClientImpl.outstanding (s : ClientImpl) (id : Nat) : Bool :=
  let pending := if s.running = .nothing then s.pendingRequests else s.pendingRequests.tail
  pending.any fun r => r.id == id

/-- The owner of a request cancels it. -/
def ClientImpl.cancels (s : ClientImpl) (id : Nat) : ClientImpl :=
  { s with cancelled := id :: s.cancelled }.cancel id

def ClientImpl.closes (s : ClientImpl) (event : ConnectionEvent) : ClientImpl :=
  { s with closed := true }.onEvent event

/-- `none` is an event that cannot happen. A request is made on an open connection or by a
callback of the loop that closes it, `connect` is the one event `Connected` and finds a
request as its assertion says, and values arrive on an established connection, never more
than there are requests. A protocol error and a timeout close the connection.

The connection is not closed inside of a callback: data and timers come from the event loop, and
the owners of the callbacks, the command splitter and the Redis health checker, do not close the
client there. `onResponse` could: the loop of `onEvent` would then call the same request again, and
`pop_front` would find the list empty. -/
def ClientImpl.step (s : ClientImpl) : ClientEvent → Option ClientImpl
  | .makeRequest =>
    if !s.closed || s.running == .failure then some s.makeRequest else none
  | .cancel id => if s.outstanding id then some (s.cancels id) else none
  | .connect =>
    if s.idle && !s.connected && !s.pendingRequests.isEmpty then some (s.onEvent .connected)
    else none
  | .response value =>
    if s.idle && s.connected && decide (s.received.length < s.made) then
      { s with received := s.received ++ [value] }.onRespValue value
    else none
  | .protocolError => if s.idle && s.connected then some (s.closes .localClose) else none
  | .timeout =>
    if s.idle && s.connectOrOpTimer then
      some ({ s with connectOrOpTimer := false }.closes .localClose)
    else none
  | .close event =>
    if s.idle && event != .connected then some (s.closes event) else none
  | .callbackReturns =>
    match s.running with
    | .nothing => none
    | .response => some s.popResponse
    | .failure => some (s.failPending s.pendingRequests.tail)

def ClientImpl.callbacksOf (s : ClientImpl) (id : Nat) : List Callback :=
  s.delivered.filter fun c => c.id == id

/-!
## The responses of the upstream client

`Paired` is about the requests, their order and their callbacks, and it holds also in the middle
of the loop that fails them. `Inv` adds what a handler leaves behind, and the values received are
then as many as the requests whose turn has come.
-/

namespace ClientImpl

/-- The number of requests whose turn has come: the popped ones and the one that is
called back. -/
def begun (s : ClientImpl) : Nat :=
  s.made - s.pendingRequests.length + if s.running = .nothing then 0 else 1

/-- The requests, their order and their callbacks, also in the middle of the loop that
fails them. -/
structure Paired (s : ClientImpl) : Prop where
  ids : s.pendingRequests.map PendingRequest.id =
    List.range' (s.made - s.pendingRequests.length) s.pendingRequests.length
  length_le : s.pendingRequests.length ≤ s.made
  canceled : ∀ r ∈ s.pendingRequests, r.canceled = true ↔ r.id ∈ s.cancelled
  cancelled_lt : ∀ id ∈ s.cancelled, id < s.made
  front : s.running ≠ .nothing → ∃ r rest, s.pendingRequests = r :: rest ∧ r.canceled = false
  count : ∀ id, (s.callbacksOf id).length = if id < s.begun ∧ id ∉ s.cancelled then 1 else 0
  received_le : s.received.length ≤ s.begun
  answered : ∀ id value, s.received[id]? = some value → id ∉ s.cancelled →
    .onResponse id value ∈ s.delivered
  response : ∀ id value, .onResponse id value ∈ s.delivered → s.received[id]? = some value

structure Inv (s : ClientImpl) : Prop extends Paired s where
  running_failure : s.running = .failure → s.closed = true
  running_response : s.running = .response → s.closed = false
  received_eq : s.closed = false → s.received.length = s.begun
  drained : s.closed = true → s.running = .nothing → s.pendingRequests = []
  timer : s.connected = true → s.closed = false →
    (s.connectOrOpTimer = true ↔ s.pendingRequests ≠ [])

theorem inv_create : create.Inv := by
  constructor
  · constructor <;> simp [create, begun, callbacksOf]
  all_goals simp [create, begun]

variable {s s' : ClientImpl}
variable {r : PendingRequest} {rest : List PendingRequest}

theorem Paired.front_id (h : s.Paired) (hp : s.pendingRequests = r :: rest) :
    r.id = s.made - s.pendingRequests.length := by
  have hids := h.ids
  simp only [hp, map_cons, length_cons, range'_succ] at hids ⊢
  exact (List.cons.inj hids).1

theorem Paired.rest_ids (h : s.Paired) (hp : s.pendingRequests = r :: rest) :
    rest.map PendingRequest.id = List.range' (s.made - rest.length) rest.length := by
  have hids := h.ids
  have hle := h.length_le
  simp only [hp, map_cons, length_cons, range'_succ] at hids hle
  have hstart : s.made - (rest.length + 1) + 1 = s.made - rest.length := by omega
  rw [hstart] at hids
  exact (List.cons.inj hids).2

variable {id : Nat}

theorem Paired.outstanding_le (h : s.Paired) (ho : s.outstanding id = true) :
    s.begun ≤ id ∧ id < s.made := by
  have hle := h.length_le
  unfold outstanding at ho
  by_cases hrun : s.running = .nothing
  · rw [if_pos hrun, any_eq_true] at ho
    obtain ⟨r, hr, hid⟩ := ho
    have hmem : r.id ∈ s.pendingRequests.map PendingRequest.id := mem_map_of_mem hr
    rw [h.ids, mem_range'_1] at hmem
    simp only [begun, hrun, if_true]
    simp only [beq_iff_eq] at hid
    omega
  · obtain ⟨r, rest, hp, -⟩ := h.front hrun
    have hrest := h.rest_ids hp
    simp only [if_neg hrun, hp, tail_cons, any_eq_true] at ho
    obtain ⟨q, hq, hid⟩ := ho
    have hmem : q.id ∈ rest.map PendingRequest.id := mem_map_of_mem hq
    rw [hrest, mem_range'_1] at hmem
    simp only [hp, length_cons] at hle
    simp only [begun, hp, length_cons, if_neg hrun]
    simp only [beq_iff_eq] at hid
    omega

theorem begun_makeRequest (s : ClientImpl) : s.makeRequest.begun = s.begun := by
  have hlen : s.made + 1 - (s.pendingRequests.length + 1) = s.made - s.pendingRequests.length := by
    omega
  simp [makeRequest, begun, hlen]

section

variable (h : s.Paired)
include h

theorem paired_makeRequest : s.makeRequest.Paired := by
  have hle := h.length_le
  constructor
  case ids =>
    have hstart : s.made + 1 - (s.pendingRequests.length + 1) =
        s.made - s.pendingRequests.length := by omega
    have hlast : s.made - s.pendingRequests.length + s.pendingRequests.length = s.made := by omega
    simp only [makeRequest, map_append, map_cons, map_nil, length_append,
      length_singleton, hstart, range'_1_concat, hlast, h.ids]
  case length_le =>
    simp only [makeRequest, length_append, length_singleton]
    omega
  case canceled =>
    intro r hr
    rcases mem_append.mp hr with hr | hr
    · exact h.canceled r hr
    · obtain rfl := mem_singleton.mp hr
      constructor
      · intro hc
        cases hc
      · intro hc
        have := h.cancelled_lt _ hc
        simp only at this
        omega
  case cancelled_lt =>
    intro id hid
    have := h.cancelled_lt id hid
    simp only [makeRequest]
    omega
  case front =>
    intro hrun
    obtain ⟨r, rest, hp, hr⟩ := h.front hrun
    exact ⟨r, rest ++ [⟨s.made, false⟩], by simp [makeRequest, hp], hr⟩
  case count =>
    intro id
    rw [begun_makeRequest]
    exact h.count id
  case received_le =>
    rw [begun_makeRequest]
    exact h.received_le
  case answered => exact h.answered
  case response => exact h.response

theorem paired_cancel (ho : s.outstanding id = true) : (s.cancels id).Paired := by
  obtain ⟨hbegun, hmade⟩ := h.outstanding_le ho
  have hids : (s.cancels id).pendingRequests.map PendingRequest.id =
      s.pendingRequests.map PendingRequest.id := by
    simp only [cancels, cancel, map_map]
    apply map_congr_left
    intro r _
    simp only [Function.comp_apply]
    split <;> rfl
  have hlen : (s.cancels id).pendingRequests.length = s.pendingRequests.length := by simp [cancels, cancel]
  have hbe : (s.cancels id).begun = s.begun := by
    unfold begun
    rw [hlen]
    rfl
  constructor
  case ids =>
    rw [hids, hlen]
    exact h.ids
  case length_le =>
    rw [hlen]
    exact h.length_le
  case canceled =>
    intro r hr
    obtain ⟨q, hq, rfl⟩ := mem_map.mp hr
    have hc := h.canceled q hq
    by_cases hid : q.id = id
    · simp [hid, cancels, cancel]
    · rw [if_neg hid, hc]
      simp [cancels, cancel, hid]
  case cancelled_lt =>
    intro x hx
    rcases mem_cons.mp hx with rfl | hx
    · exact hmade
    · exact h.cancelled_lt x hx
  case front =>
    intro hrun
    obtain ⟨r, rest, hp, hr⟩ := h.front hrun
    have hfront := h.front_id hp
    have hne : r.id ≠ id := by
      have hrun' : s.running ≠ .nothing := hrun
      simp only [begun, if_neg hrun'] at hbegun
      omega
    refine ⟨r, (s.cancels id).pendingRequests.tail, ?_, hr⟩
    simp [cancels, cancel, hp, if_neg hne]
  case count =>
    intro x
    have hx := h.count x
    rw [hbe]
    change (s.callbacksOf x).length = _
    rw [hx]
    by_cases hxid : x = id
    · subst hxid
      rw [if_neg (by omega), if_neg (by omega)]
    · simp [cancels, cancel, hxid]
  case received_le =>
    rw [hbe]
    exact h.received_le
  case answered =>
    intro x v hx hnot
    exact h.answered x v hx (fun hc => hnot (mem_cons_of_mem _ hc))
  case response => exact h.response

theorem paired_pop (timer : Bool) (hp : s.pendingRequests = r :: rest)
    (hdone : s.running ≠ .nothing ∨ r.canceled = true) :
    Paired { s with pendingRequests := rest, running := .nothing, connectOrOpTimer := timer } := by
  have hle := h.length_le
  have hfront := h.front_id hp
  have hbegun : s.begun = s.made - rest.length ∨
      (s.begun + 1 = s.made - rest.length ∧ s.begun ∈ s.cancelled) := by
    simp only [hp, length_cons] at hle hfront
    by_cases hrun : s.running = .nothing
    · right
      have hc := (h.canceled r (by simp [hp])).mp (hdone.resolve_left (fun hne => hne hrun))
      have hb : s.begun = r.id := by
        simp only [begun, hp, hrun, length_cons, if_true]
        omega
      rw [hb]
      exact ⟨by omega, hc⟩
    · left
      simp only [begun, hp, length_cons, if_neg hrun]
      omega
  constructor
  case ids => exact h.rest_ids hp
  case length_le =>
    simp only [hp, length_cons] at hle
    exact Nat.le_of_succ_le hle
  case canceled =>
    intro q hq
    exact h.canceled q (by simp [hp, show q ∈ rest from hq])
  case cancelled_lt => exact h.cancelled_lt
  case front =>
    intro hrun
    exact absurd rfl hrun
  case count =>
    intro id
    change (s.callbacksOf id).length = if id < s.made - rest.length ∧ id ∉ s.cancelled then 1 else 0
    rw [h.count id]
    rcases hbegun with hb | ⟨hb, hc⟩
    · rw [hb]
    · by_cases hid : id = s.begun
      · rw [if_neg (by omega), if_neg (fun hn => hn.2 (hid ▸ hc))]
      · have hiff : id < s.begun ↔ id < s.made - rest.length := by omega
        simp only [hiff]
  case received_le =>
    have := h.received_le
    change s.received.length ≤ s.made - rest.length
    rcases hbegun with hb | ⟨hb, -⟩ <;> omega
  case answered => exact h.answered
  case response => exact h.response

theorem paired_drop (value : RespValue) (hlt : s.received.length < s.begun)
    (hc : s.received.length ∈ s.cancelled) :
    Paired { s with received := s.received ++ [value] } := by
  constructor
  case ids => exact h.ids
  case length_le => exact h.length_le
  case canceled => exact h.canceled
  case cancelled_lt => exact h.cancelled_lt
  case front => exact h.front
  case count => exact h.count
  case received_le =>
    simp only [length_append, length_singleton]
    exact hlt
  case answered =>
    intro id v hid hnot
    rcases entry_of_concat hid with hid | ⟨rfl, -⟩
    · exact h.answered id v hid hnot
    · exact absurd hc hnot
  case response =>
    intro id v hmem
    exact entry_concat (h.response id v hmem)

theorem begun_eq_front (hp : s.pendingRequests = r :: rest)
    (hrun : s.running = .nothing) : s.begun = r.id := by
  rw [h.front_id hp]
  simp [begun, hrun]

end

theorem callbacksOf_concat (c : Callback) (id : Nat) :
    (callbacksOf { s with delivered := s.delivered ++ [c] } id).length =
      (s.callbacksOf id).length + if c.id = id then 1 else 0 := by
  simp only [callbacksOf, filter_append, length_append]
  by_cases hc : c.id = id
  · simp [hc]
  · simp [hc]

theorem paired_callback (h : s.Paired) {values : List RespValue} {c : Callback} {running : Running}
    (hp : s.pendingRequests = r :: rest) (hrun : s.running = .nothing) (hr : r.canceled = false)
    (hid : c.id = r.id) (hrunning : running ≠ .nothing) (hlen : values.length ≤ s.begun + 1)
    (hanswered : ∀ (id : Nat) v, values[id]? = some v →
      s.received[id]? = some v ∨ c = .onResponse id v)
    (hkept : ∀ (id : Nat) v, s.received[id]? = some v → values[id]? = some v)
    (hresponse : ∀ (id : Nat) v, c = .onResponse id v → values[id]? = some v) :
    Paired { s with received := values, running := running, delivered := s.delivered ++ [c] } := by
  have hbegun := begun_eq_front h hp hrun
  have hnot : r.id ∉ s.cancelled := by
    rw [← h.canceled r (by simp [hp]), hr]
    exact false_ne_true
  have hbe : begun { s with received := values, running := running } = s.begun + 1 := by
    simp [begun, if_neg hrunning, hrun]
  constructor
  case ids => exact h.ids
  case length_le => exact h.length_le
  case canceled => exact h.canceled
  case cancelled_lt => exact h.cancelled_lt
  case front =>
    intro _
    exact ⟨r, rest, hp, hr⟩
  case count =>
    intro id
    change (callbacksOf { s with delivered := s.delivered ++ [c] } id).length =
      if id < begun { s with received := values, running := running } ∧ id ∉ s.cancelled
        then 1 else 0
    rw [hbe, callbacksOf_concat c id, h.count id, hid]
    by_cases he : r.id = id
    · subst he
      rw [if_neg (by omega), if_pos rfl, if_pos ⟨by omega, hnot⟩]
    · have hiff : id < s.begun + 1 ↔ id < s.begun := by omega
      simp [hiff, if_neg he]
  case received_le =>
    change values.length ≤ begun { s with received := values, running := running }
    rw [hbe]
    exact hlen
  case answered =>
    intro id v hv hc
    rcases hanswered id v hv with hold | hnew
    · exact mem_append_left _ (h.answered id v hold hc)
    · exact mem_append_right _ (by simp [hnew])
  case response =>
    intro id v hmem
    rcases mem_append.mp hmem with hold | hnew
    · exact hkept id v (h.response id v hold)
    · exact hresponse id v (mem_singleton.mp hnew).symm

theorem paired_failPending (pending : List PendingRequest)
    (h : Paired { s with pendingRequests := pending, running := .nothing }) :
    (s.failPending pending).Paired := by
  induction pending with
  | nil =>
    exact { h with }
  | cons r rest ih =>
    by_cases hc : r.canceled = true
    · rw [failPending, if_pos hc]
      exact ih (paired_pop h s.connectOrOpTimer rfl (.inr hc))
    · rw [failPending, if_neg hc]
      refine paired_callback h (c := .onFailure r.id) rfl rfl (not_eq_true _ ▸ hc) rfl
        (by decide) (Nat.le_succ_of_le h.received_le) ?_ ?_ ?_
      · intro id v hv
        exact .inl hv
      · intro id v hv
        exact hv
      · intro id v hv
        cases hv

theorem failPending_end (s : ClientImpl) (pending : List PendingRequest) :
    (s.failPending pending).running = .failure ∨ ((s.failPending pending).running = .nothing ∧
        (s.failPending pending).pendingRequests = []) := by
  induction pending with
  | nil => exact .inr ⟨rfl, rfl⟩
  | cons r rest ih =>
    rw [failPending]
    split
    · exact ih
    · exact .inl rfl

@[simp] theorem failPending_closed (s : ClientImpl) (pending : List PendingRequest) :
    (s.failPending pending).closed = s.closed := by
  induction pending with
  | nil => rfl
  | cons r rest ih =>
    rw [failPending]
    split
    · exact ih
    · rfl

theorem inv_failPending (pending : List PendingRequest) (hclosed : s.closed = true)
    (h : Paired { s with pendingRequests := pending, running := .nothing }) :
    (s.failPending pending).Inv := by
  have hc : (s.failPending pending).closed = true := by rw [failPending_closed, hclosed]
  refine ⟨paired_failPending pending h, fun _ => hc, ?_, ?_, ?_, ?_⟩
  · intro hrun
    rcases failPending_end s pending with he | ⟨he, -⟩ <;> rw [hrun] at he <;> cases he
  · intro ho
    rw [hc] at ho
    cases ho
  · intro _ hrun
    rcases failPending_end s pending with he | ⟨-, he⟩
    · rw [hrun] at he
      cases he
    · exact he
  · intro _ ho
    rw [hc] at ho
    cases ho

theorem inv_makeRequest (h : s.Inv) (hopen : s.closed = false ∨ s.running = .failure) :
    s.makeRequest.Inv := by
  refine ⟨paired_makeRequest h.toPaired, h.running_failure, h.running_response, ?_, ?_, ?_⟩
  · intro hc
    rw [begun_makeRequest]
    exact h.received_eq hc
  · intro hc hrun
    rcases hopen with ho | ho
    · cases hc.symm.trans ho
    · cases hrun.symm.trans ho
  · intro hconn hc
    have ht := h.timer hconn hc
    have hconn' : s.connected = true := hconn
    cases hp : s.pendingRequests with
    | nil => simp [makeRequest, hp, hconn']
    | cons r rest =>
      simp only [hp] at ht
      simp [makeRequest, hp, ht.mpr (by simp)]

theorem inv_cancel (h : s.Inv) (ho : s.outstanding id = true) : (s.cancels id).Inv := by
  have hnil : (s.cancels id).pendingRequests = [] ↔ s.pendingRequests = [] := by
    simp [cancels, cancel]
  have hlen : (s.cancels id).pendingRequests.length = s.pendingRequests.length := by simp [cancels, cancel]
  refine ⟨paired_cancel h.toPaired ho, h.running_failure, h.running_response, ?_, ?_, ?_⟩
  · intro hc
    rw [begun, hlen]
    exact h.received_eq hc
  · intro hc hrun
    exact hnil.mpr (h.drained hc hrun)
  · intro hconn hc
    rw [Ne, hnil]
    exact h.timer hconn hc

theorem inv_connect (h : s.Inv) (hp : s.pendingRequests ≠ []) : (s.onEvent .connected).Inv := by
  refine ⟨?_, h.running_failure, h.running_response, h.received_eq, h.drained, ?_⟩
  · have hs := h.toPaired
    exact { hs with }
  · intro _ _
    exact ⟨fun _ => hp, fun _ => rfl⟩

theorem inv_popResponse (h : s.Inv) (hrun : s.running = .response) : s.popResponse.Inv := by
  obtain ⟨r, rest, hp, -⟩ := h.front (by rw [hrun]; decide)
  have hopen := h.running_response hrun
  have hpop := paired_pop h.toPaired (!rest.isEmpty) hp (.inl (by rw [hrun]; decide))
  have hs : s.popResponse =
      { s with pendingRequests := rest, running := .nothing, connectOrOpTimer := !rest.isEmpty } := by
    simp [popResponse, hp]
  rw [hs]
  refine ⟨hpop, ?_, ?_, ?_, ?_, ?_⟩
  · intro hr
    cases hr
  · intro hr
    cases hr
  · intro _
    have heq := h.received_eq hopen
    have hle := h.length_le
    simp only [begun, hp, hrun, length_cons] at heq hle ⊢
    rw [heq]
    simp only [reduceCtorEq, if_false, if_true]
    omega
  · intro hc
    cases hc.symm.trans hopen
  · intro _ _
    cases rest <;> simp

theorem idle_iff : s.idle = true ↔ s.running = .nothing ∧ s.closed = false := by
  simp [idle]

variable {value : RespValue}

theorem inv_respond (h : s.Inv) (hidle : s.idle = true) (hp : s.pendingRequests = r :: rest)
    (hr : r.canceled = false) : Inv { s with
      received := s.received ++ [value]
      running := .response
      delivered := s.delivered ++ [.onResponse r.id value] } := by
  obtain ⟨hrun, hopen⟩ := idle_iff.mp hidle
  have hid : r.id = s.received.length := by
    rw [h.received_eq hopen, begun_eq_front h.toPaired hp hrun]
  refine ⟨?_, ?_, fun _ => hopen, ?_, ?_, h.timer⟩
  · refine paired_callback h.toPaired (c := .onResponse r.id value) hp hrun hr rfl (by decide)
      ?_ ?_ ?_ ?_
    · have := h.received_le
      simp only [length_append, length_singleton]
      omega
    · intro id v hv
      rcases entry_of_concat hv with hv | ⟨rfl, rfl⟩
      · exact .inl hv
      · exact .inr (by rw [hid])
    · intro id v hv
      exact entry_concat hv
    · intro id v hv
      cases hv
      rw [hid]
      exact getElem?_concat_length
  · intro hr
    cases hr
  · intro _
    have heq := h.received_eq hopen
    simp only [begun, hrun, if_true] at heq
    simp [begun, heq]
  · intro hc
    cases hc.symm.trans hopen

theorem inv_drop (h : s.Inv) (hidle : s.idle = true) (hp : s.pendingRequests = r :: rest)
    (hr : r.canceled = true) : (popResponse { s with received := s.received ++ [value] }).Inv := by
  obtain ⟨hrun, hopen⟩ := idle_iff.mp hidle
  have hid : s.begun = r.id := begun_eq_front h.toPaired hp hrun
  have hlen := h.received_eq hopen
  have hle := h.length_le
  have hfront := h.front_id hp
  simp only [hp, length_cons] at hle hfront
  have hpop := paired_pop h.toPaired (!rest.isEmpty) hp (.inr hr)
  have hs : popResponse { s with received := s.received ++ [value] } =
      { s with
        received := s.received ++ [value]
        pendingRequests := rest
        running := .nothing
        connectOrOpTimer := !rest.isEmpty } := by
    simp [popResponse, hp]
  rw [hs]
  refine ⟨paired_drop hpop value ?_ ?_, ?_, ?_, ?_, ?_, ?_⟩
  · simp only [begun, if_true]
    omega
  · have hc := (h.canceled r (by simp [hp])).mp hr
    rw [← hid, ← hlen] at hc
    exact hc
  · intro hr
    cases hr
  · intro hr
    cases hr
  · intro _
    simp only [begun, length_append, length_singleton, if_true]
    omega
  · intro hc
    cases hc.symm.trans hopen
  · intro _ _
    cases rest <;> simp

theorem inv_onRespValue (h : s.Inv) (hidle : s.idle = true)
    (hstep : { s with received := s.received ++ [value] }.onRespValue value = some s') : s'.Inv := by
  unfold onRespValue at hstep
  split at hstep
  · cases hstep
  · rename_i r rest hp
    by_cases hr : r.canceled = true
    · simp only [hr, if_true, Option.some.injEq] at hstep
      subst hstep
      exact inv_drop h hidle hp hr
    · simp only [hr, false_eq_true, if_false, Option.some.injEq] at hstep
      subst hstep
      exact inv_respond h hidle hp (not_eq_true _ ▸ hr)

theorem inv_close (h : s.Inv) (timer : Bool) (hrun : s.running = .nothing) :
    Inv (failPending { s with closed := true, connectOrOpTimer := timer } s.pendingRequests) := by
  have hs := h.toPaired
  apply inv_failPending s.pendingRequests rfl
  have hsame : { s with pendingRequests := s.pendingRequests, running := .nothing } = s := by
    rw [← hrun]
  rw [← hsame] at hs
  exact { hs with }

theorem inv_step {e : ClientEvent} (h : s.Inv) (hstep : s.step e = some s') : s'.Inv := by
  cases e with
  | makeRequest =>
    obtain ⟨ho, rfl⟩ := Option.ite_some_none_eq_some.mp hstep
    exact inv_makeRequest h (by simpa using ho)
  | cancel id =>
    obtain ⟨ho, rfl⟩ := Option.ite_some_none_eq_some.mp hstep
    exact inv_cancel h ho
  | connect =>
    obtain ⟨ho, rfl⟩ := Option.ite_some_none_eq_some.mp hstep
    simp only [and_eq_true, not_eq_true', isEmpty_eq_false_iff] at ho
    exact inv_connect h ho.2
  | response value =>
    simp only [step] at hstep
    split at hstep
    · rename_i ho
      simp only [and_eq_true] at ho
      exact inv_onRespValue h ho.1.1 hstep
    · cases hstep
  | protocolError =>
    obtain ⟨ho, rfl⟩ := Option.ite_some_none_eq_some.mp hstep
    simp only [and_eq_true] at ho
    exact inv_close h s.connectOrOpTimer (idle_iff.mp ho.1).1
  | timeout =>
    obtain ⟨ho, rfl⟩ := Option.ite_some_none_eq_some.mp hstep
    simp only [and_eq_true] at ho
    exact inv_close h false (idle_iff.mp ho.1).1
  | close event =>
    obtain ⟨ho, rfl⟩ := Option.ite_some_none_eq_some.mp hstep
    simp only [and_eq_true] at ho
    have hclose := inv_close h s.connectOrOpTimer (idle_iff.mp ho.1).1
    cases event with
    | connected => simp at ho
    | remoteClose | localClose => exact hclose
  | callbackReturns =>
    simp only [step] at hstep
    split at hstep
    · cases hstep
    · rename_i hrun
      cases hstep
      exact inv_popResponse h hrun
    · rename_i hrun
      cases hstep
      obtain ⟨r, rest, hp, -⟩ := h.front (by rw [hrun]; decide)
      rw [hp, tail_cons]
      apply inv_failPending rest (h.running_failure hrun)
      exact paired_pop h.toPaired s.connectOrOpTimer hp (.inl (by rw [hrun]; decide))

theorem inv_run {es : List ClientEvent} (hrun : run step create es = some s) : s.Inv := by
  refine run_keeps ?_ inv_create hrun
  intro s e s' h hstep
  exact inv_step h hstep

end ClientImpl

end Meliproxy.Envoy.Redis
