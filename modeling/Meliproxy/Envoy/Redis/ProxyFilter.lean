import Meliproxy.Envoy.Network.Connection
import Meliproxy.Envoy.Redis.CommandSplitter
import Meliproxy.Lib.Runs

/-!
# The Redis proxy filter

`ProxyFilter` keeps the commands of a connection in a list, in the order of their arrival, and
writes a response only when every command before it has been answered. The splitter may
answer a command before `makeRequest` returns, so that the pending request is gone when the
filter would store its handle.

The commands are numbered in the order of their arrival, and a pool request is a pair of a
command and a fragment of it. `outstanding`, `cancelled` and `answers` are the history of the
filter: what the pool still owes, what was cancelled, and every call of the callbacks of a
command.
-/

namespace Meliproxy.Envoy.Redis

open Lib List CommandSplitter

structure ProxyFilter.PendingRequest where
  id : Nat
  pendingResponse : Option RespValue
  requestHandle : Option SplitRequest

structure ProxyFilter where
  pendingRequests : List ProxyFilter.PendingRequest
  encoderBuffer : Bytes
  written : Bytes
  closed : Bool
  commands : Nat
  outstanding : List (Nat × Nat)
  cancelled : List (Nat × Nat)
  answers : List (Nat × RespValue)

namespace ProxyFilter

def create : ProxyFilter where
  pendingRequests := []
  encoderBuffer := []
  written := []
  closed := false
  commands := 0
  outstanding := []
  cancelled := []
  answers := []

def PendingRequest.owed (p : PendingRequest) : List (Nat × Nat) :=
  match p.requestHandle with
  | none => []
  | some r => r.openHandles.map fun i => (p.id, i)

def update (pending : List PendingRequest) (id : Nat) (f : PendingRequest → PendingRequest) :
    List PendingRequest := pending.map fun p => if p.id = id then f p else p

def flush : List PendingRequest → Bytes → List PendingRequest × Bytes
  | [], buffer => ([], buffer)
  | p :: pending, buffer =>
    match p.pendingResponse with
    | none => (p :: pending, buffer)
    | some response => flush pending (buffer ++ encode response)

variable (s : ProxyFilter)

/-- The response of the request `id`, which destroys the handle. -/
def answer (id : Nat) (value : RespValue) : ProxyFilter :=
  { s with
    pendingRequests := update s.pendingRequests id fun p => ⟨p.id, some value, none⟩
    answers := s.answers ++ [(id, value)] }

def writeAnswered : ProxyFilter :=
  let flushed := flush s.pendingRequests s.encoderBuffer
  if 0 < flushed.2.length then
    { s with
      pendingRequests := flushed.1
      encoderBuffer := []
      written := s.written ++ flushed.2 }
  else
    { s with
      pendingRequests := flushed.1
      encoderBuffer := flushed.2 }

/-- `onResponse` for the request `id`. The request must still be there, and the splitter
asserts that no pool handle is left when its own request is destroyed. -/
def onResponse (id : Nat) (value : RespValue) : Option ProxyFilter :=
  match s.pendingRequests.find? fun p => p.id = id with
  | none => none
  | some p => if p.owed = [] then some (s.answer id value).writeAnswered else none

def respond (s : ProxyFilter) (id : Nat) : List RespValue → Option ProxyFilter
  | [] => some s
  | value :: values => (s.onResponse id value).bind fun s => s.respond id values

variable (id : Nat)

def setHandle (r : SplitRequest) : ProxyFilter :=
  { s with
    pendingRequests := update s.pendingRequests id fun p => { p with requestHandle := some r } }

def storeHandle : Option SplitRequest → Option ProxyFilter
  | none => some s
  | some r =>
    if id ∈ s.pendingRequests.map PendingRequest.id then some (s.setHandle id r) else none

def push (sent : List (Nat × Fragment)) : ProxyFilter :=
  { s with
    pendingRequests := s.pendingRequests ++ [⟨s.commands, none, none⟩]
    commands := s.commands + 1
    outstanding := s.outstanding ++ sent.map fun fragment => (s.commands, fragment.1) }

def onRespValue (available : Nat → Bool) (value : RespValue) : Option ProxyFilter :=
  (makeRequest available value).bind fun made =>
    ((s.push made.sent).respond s.commands made.responses).bind fun s' =>
      s'.storeHandle s.commands made.request

/-- The result of a pool request: the splitter's request afterwards, and what it hands on. -/
def onSplit : SplitRequest × Option RespValue → Option ProxyFilter
  | (r, none) => some (s.setHandle id r)
  | (r, some value) => (s.setHandle id r).onResponse id value

def handleOf : Option SplitRequest :=
  (s.pendingRequests.find? fun p => p.id = id).bind PendingRequest.requestHandle

def onPoolResponse (id index : Nat) (value : RespValue) : Option ProxyFilter :=
  (s.handleOf id).bind fun r => (r.onResponse value index).bind fun result => s.onSplit id result

def onPoolFailure (id index : Nat) : Option ProxyFilter :=
  (s.handleOf id).bind fun r => (r.onFailure index).bind fun result => s.onSplit id result

def cancelAll : List PendingRequest → Option (List (Nat × Nat))
  | [] => some []
  | p :: pending =>
    match p.requestHandle with
    | none => cancelAll pending
    | some r => r.cancel.bind fun indices =>
      (cancelAll pending).map fun rest => indices.map (fun i => (p.id, i)) ++ rest

def onClose : Option ProxyFilter :=
  (cancelAll s.pendingRequests).map fun cancelled =>
    { s with
      pendingRequests := []
      closed := true
      outstanding := s.outstanding.diff cancelled
      cancelled := s.cancelled ++ cancelled }

def onEvent : ConnectionEvent → Option ProxyFilter
  | .connected => some s
  | .remoteClose => s.onClose
  | .localClose => s.onClose

inductive Event where
  | command (available : Nat → Bool) (value : RespValue)
  | response (id index : Nat) (value : RespValue)
  | failure (id index : Nat)
  | connection (event : ConnectionEvent)

/-- The pool has called back for a request. -/
def settle (id index : Nat) : ProxyFilter :=
  { s with outstanding := s.outstanding.erase (id, index) }

def step : Event → Option ProxyFilter
  | .command available value => s.onRespValue available value
  | .response id index value => (s.settle id index).onPoolResponse id index value
  | .failure id index => (s.settle id index).onPoolFailure id index
  | .connection event => s.onEvent event

/-- What can happen: the connection gives neither data nor events after it is closed, and the
pool calls back once for a request that is not cancelled. -/
def Possible : Event → Prop
  | .command _ _ => s.closed = false
  | .response id index _ => (id, index) ∈ s.outstanding
  | .failure id index => (id, index) ∈ s.outstanding
  | .connection _ => s.closed = false

local instance : LawfulBEq (Nat × Nat) := inferInstance

instance decidablePossible (s : ProxyFilter) : (e : Event) → Decidable (Possible s e) := by
  intro e
  cases e <;> dsimp only [Possible] <;> infer_instance

def answersOf (id : Nat) : List RespValue :=
  (s.answers.filter fun a => a.1 = id).map Prod.snd

section Update

variable {before after : List PendingRequest} {p : PendingRequest}

theorem others_differ (hnodup : ((before ++ p :: after).map PendingRequest.id).Nodup) :
    (∀ q ∈ before, q.id ≠ p.id) ∧ ∀ q ∈ after, q.id ≠ p.id := by
  rw [map_append, map_cons, List.nodup_append] at hnodup
  obtain ⟨-, hafter, hdisjoint⟩ := hnodup
  refine ⟨?_, ?_⟩
  · intro q hq
    exact hdisjoint q.id (mem_map_of_mem hq) p.id mem_cons_self
  · intro q hq heq
    apply (nodup_cons.mp hafter).1
    rw [← heq]
    exact mem_map_of_mem hq

theorem update_others {pending : List PendingRequest} {id : Nat} (h : ∀ q ∈ pending, q.id ≠ id)
    (f : PendingRequest → PendingRequest) : update pending id f = pending := by
  unfold update
  nth_rewrite 2 [← map_id pending]
  apply map_congr_left
  intro q hq
  exact if_neg (h q hq)

theorem update_middle (hnodup : ((before ++ p :: after).map PendingRequest.id).Nodup)
    (f : PendingRequest → PendingRequest) :
    update (before ++ p :: after) p.id f = before ++ f p :: after := by
  obtain ⟨hbefore, hafter⟩ := others_differ hnodup
  have h₁ := update_others hbefore f
  have h₂ := update_others hafter f
  unfold update at h₁ h₂ ⊢
  rw [map_append, map_cons, h₁, h₂, if_pos rfl]

theorem find_middle (hnodup : ((before ++ p :: after).map PendingRequest.id).Nodup) :
    (before ++ p :: after).find? (fun q => q.id = p.id) = some p := by
  rw [find?_append, find?_eq_none.mpr]
  · simp
  · intro q hq
    simpa using (others_differ hnodup).1 q hq

theorem mem_middle (hnodup : ((before ++ p :: after).map PendingRequest.id).Nodup)
    {q p' : PendingRequest} (hq : q ∈ before ++ p' :: after) :
    q = p' ∨ (q ∈ before ++ p :: after ∧ q.id ≠ p.id) := by
  obtain ⟨hbefore, hafter⟩ := others_differ hnodup
  rcases mem_append.mp hq with hq | hq
  · exact .inr ⟨mem_append_left _ hq, hbefore q hq⟩
  · rcases mem_cons.mp hq with rfl | hq
    · exact .inl rfl
    · exact .inr ⟨mem_append_right _ (mem_cons_of_mem p hq), hafter q hq⟩

end Update

theorem flush_eq (pending : List PendingRequest) (buffer : Bytes) :
    ∃ front rest, pending = front ++ rest ∧ flush pending buffer =
        (rest, buffer ++ encodeAll (front.flatMap fun p => p.pendingResponse.toList)) ∧
      (∀ p ∈ front, p.pendingResponse ≠ none) ∧
      (∀ p, rest.head? = some p → p.pendingResponse = none) := by
  induction pending generalizing buffer with
  | nil =>
    refine ⟨[], [], rfl, ?_, ?_, ?_⟩
    · simp [flush, encodeAll]
    · simp
    · simp
  | cons p pending ih =>
    cases hp : p.pendingResponse with
    | none =>
      refine ⟨[], p :: pending, rfl, ?_, ?_, ?_⟩
      · simp [flush, hp, encodeAll]
      · simp
      · intro q hq
        obtain rfl : p = q := by simpa using hq
        exact hp
    | some response =>
      obtain ⟨front, rest, hsplit, hflush, hfront, hrest⟩ := ih (buffer ++ encode response)
      refine ⟨p :: front, rest, ?_, ?_, ?_, hrest⟩
      · rw [hsplit, cons_append]
      · simp [flush, hp, hflush, encodeAll]
      · intro q hq
        rcases mem_cons.mp hq with rfl | hq
        · simp [hp]
        · exact hfront q hq

end ProxyFilter

end Meliproxy.Envoy.Redis
