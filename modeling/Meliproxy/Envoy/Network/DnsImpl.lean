import Meliproxy.Envoy.Network.Address
import Meliproxy.Lib.Runs

/-!
# DNS resolution

`common/network/dns_impl.cc`: each `PendingResolution` from `resolve` to its deletion. A deleted
one is `none`, and so is what still uses it. c-ares answers while `resolve` runs or later, and user
code runs between any two events.
-/

namespace Meliproxy.Envoy.Network.Dns

open Lib List Option

inductive DnsLookupFamily where
  | v4Only
  | v6Only
  | auto
  deriving DecidableEq

inductive Family where
  | inet
  | inet6

inductive Hostent where
  | inet (addrList : List Ipv4)
  | inet6 (addrList : List Ipv6)
  | other

/-- What c-ares calls back with. -/
inductive Status where
  | success (hostent : Hostent)
  | failure
  | destruction

def Status.isSuccess : Status → Bool
  | .success _ => true
  | _ => false

def Status.isDestruction : Status → Bool
  | .destruction => true
  | _ => false

/-- The addresses with their port. -/
def Status.addressList : Status → List (Ip × Nat)
  | .success (.inet addrList) => addrList.map fun address => (.v4 address, 0)
  | .success (.inet6 addrList) => addrList.map fun address => (.v6 address, 0)
  | _ => []

structure PendingResolution where
  owned : Bool
  completed : Bool
  cancelled : Bool
  fallbackIfFailed : Bool

inductive Returned where
  | null
  | handle
  deriving DecidableEq

/-- One call of `resolve`. `pending` is the lookup that c-ares has to answer, `notifying` the status
for which the callback is running. `cancelled` outlives the object. -/
structure Query where
  family : DnsLookupFamily
  object : Option PendingResolution
  pending : Option Family
  notifying : Option Status
  returned : Option Returned
  answers : List (Family × Status)
  reported : List (List (Ip × Nat))
  cancelled : Bool

namespace Query

def getHostByName (q : Query) (family : Family) : Query := { q with pending := some family }

/-- `resolve` up to its call of c-ares. -/
def resolve (family : DnsLookupFamily) : Query :=
  let object := ⟨false, false, false, family = .auto⟩
  let q : Query := ⟨family, some object, none, none, none, [], [], false⟩
  match family with
  | .v4Only => q.getHostByName .inet
  | _ => q.getHostByName .inet6

variable (q : Query)

/-- `onAresHostCallback` after the user's callback. -/
def afterCallback (status : Status) : Option Query := do
  let object ← q.object
  if object.completed && object.owned then
    some { q with object := none }
  else if !status.isSuccess && object.fallbackIfFailed then
    let q := { q with object := some { object with fallbackIfFailed := false } }
    some (q.getHostByName .inet)
  else some q

def onAresHostCallback (status : Status) : Option Query := do
  let object ← q.object
  if status.isDestruction then
    some { q with object := none }
  else
    let completed := object.completed || status.isSuccess || !object.fallbackIfFailed
    let q := { q with object := some { object with completed } }
    if completed && !object.cancelled then
      some { q with reported := q.reported ++ [status.addressList], notifying := some status }
    else q.afterCallback status

/-- `resolve` after its call of c-ares. Where it has the answer, the `unique_ptr` deletes. -/
def resolveReturns : Option Query := do
  let object ← q.object
  if object.completed then
    some { q with object := none, returned := some .null }
  else some { q with object := some { object with owned := true }, returned := some .handle }

def cancel : Option Query := do
  let object ← q.object
  some { q with object := some { object with cancelled := true } }

end Query

inductive Step where
  | answer (status : Status)
  | callbackReturns
  | resolveReturns
  | cancel

def Query.step (q : Query) : Step → Option Query
  | .answer status => do
    let family ← q.pending
    { q with pending := none, answers := q.answers ++ [(family, status)] }.onAresHostCallback status
  | .callbackReturns => do
    let status ← q.notifying
    { q with notifying := none }.afterCallback status
  | .resolveReturns => q.resolveReturns
  | .cancel => { q with cancelled := true }.cancel

/-- The user has a handle "until the invocation of callback or ~DnsResolver()", and gives it up with
`cancel`. -/
def Query.allows (q : Query) (destroyed : Bool) : Step → Bool
  | .answer _ => q.pending.isSome
  | .callbackReturns => q.notifying.isSome
  | .resolveReturns => q.returned.isNone && q.notifying.isNone
  | .cancel => q.returned = some .handle && q.reported.isEmpty && !q.cancelled && !destroyed

inductive Event where
  | resolve (family : DnsLookupFamily)
  | query (i : Nat) (step : Step)
  | destroy

structure System where
  queries : List Query
  destroyed : Bool

namespace System

def new : System := ⟨[], false⟩

def step (s : System) : Event → Option System
  | .resolve family => some { s with queries := s.queries ++ [.resolve family] }
  | .query i step => do
    let q ← s.queries[i]?
    let q' ← q.step step
    some { s with queries := s.queries.set i q' }
  | .destroy => some { s with destroyed := true }

/-- Nothing is destroyed by user code while c-ares is in the call that `resolve` made. -/
def allows (s : System) : Event → Bool
  | .resolve _ => !s.destroyed
  | .query i step => s.queries[i]?.any fun q => q.allows s.destroyed step
  | .destroy => !s.destroyed && s.queries.all fun q => q.returned.isSome || q.pending.isNone

/-- c-ares reports the destruction of its channel to the queries that are pending then. -/
def timely (s : System) : Event → Bool
  | .query _ (.answer status) => status.isDestruction == s.destroyed
  | _ => true

def permits (s : System) (event : Event) : Bool := s.allows event && s.timely event

end System

/-! ## One query -/

/-- What is reported for the answers to the lookups, with the family that each was for. -/
inductive Reports : DnsLookupFamily → List (Family × Status) → List (Ip × Nat) → Prop where
  | v4 (status : Status) : Reports .v4Only [(.inet, status)] status.addressList
  | v6 (status : Status) : Reports .v6Only [(.inet6, status)] status.addressList
  | auto (hostent : Hostent) :
    Reports .auto [(.inet6, .success hostent)] (Status.success hostent).addressList
  | fallback (status : Status) :
    Reports .auto [(.inet6, .failure), (.inet, status)] status.addressList

inductive Lookup : DnsLookupFamily → List (Family × Status) → Bool → Family → Prop where
  | v4 : Lookup .v4Only [] false .inet
  | v6 : Lookup .v6Only [] false .inet6
  | auto : Lookup .auto [] true .inet6
  | fallback : Lookup .auto [(.inet6, .failure)] false .inet

/-- The object owns itself once `resolve` has returned. -/
inductive Query.Stage (destroyed : Bool) : Query → Prop where
  | waiting {family : DnsLookupFamily} {answers : List (Family × Status)} {fallback : Bool}
    {lookup : Family} {returned : Option Returned} {cancelled : Bool}
    (h : Lookup family answers fallback lookup)
    (hreturned : returned = none ∧ cancelled = false ∧ destroyed = false ∨
      returned = some .handle) :
    Stage destroyed ⟨family, some ⟨returned.isSome, false, cancelled, fallback⟩, some lookup, none,
      returned, answers, [], cancelled⟩
  | completed {family : DnsLookupFamily} {answers : List (Family × Status)}
    {addresses : List (Ip × Nat)} {fallback : Bool} {notifying : Option Status}
    {returned : Option Returned} (h : Reports family answers addresses)
    (hreturned : returned = none ∨ returned = some .handle ∧ notifying ≠ none)
    (hfallback : ∀ status ∈ notifying, (!status.isSuccess && fallback) = false) :
    Stage destroyed ⟨family, some ⟨returned.isSome, true, false, fallback⟩, none, notifying,
      returned, answers, [addresses], false⟩
  | freed {family : DnsLookupFamily} {answers : List (Family × Status)} {cancelled : Bool}
    {reported : List (List (Ip × Nat))} {returned : Option Returned} (hreturned : returned ≠ none)
    (h : reported = [] ∧ (cancelled = true ∨ destroyed = true) ∨
      ∃ addresses, reported = [addresses] ∧ Reports family answers addresses) :
    Stage destroyed ⟨family, none, none, none, returned, answers, reported, cancelled⟩

variable {family : DnsLookupFamily} {answers : List (Family × Status)} {fallback destroyed : Bool}
  {lookup : Family} {returned : Option Returned} {cancelled : Bool} {status : Status} {q q' : Query}
  {e : Step}

/-- Whoever cancelled the query or destroyed the resolver hears nothing more. -/
def Silent (destroyed : Bool) (q q' : Query) : Prop :=
  (q.cancelled = true ∨ destroyed = true → q'.reported = q.reported) ∧
    (q.cancelled = true → q'.cancelled = true)

theorem Query.Stage.resolve (family : DnsLookupFamily) : (Query.resolve family).Stage false := by
  cases family with
  | v4Only => exact .waiting .v4 (.inl ⟨rfl, rfl, rfl⟩)
  | v6Only => exact .waiting .v6 (.inl ⟨rfl, rfl, rfl⟩)
  | auto => exact .waiting .auto (.inl ⟨rfl, rfl, rfl⟩)

theorem Lookup.reports (h : Lookup family answers fallback lookup)
    (hlast : (!status.isSuccess && fallback) = false) (hstatus : status.isDestruction = false) :
    Reports family (answers ++ [(lookup, status)]) status.addressList := by
  cases h with
  | v4 => exact .v4 status
  | v6 => exact .v6 status
  | fallback => exact .fallback status
  | auto =>
    cases status with
    | success hostent => exact .auto hostent
    | failure => cases hlast
    | destruction => cases hstatus

/-- The last answer to a query. -/
theorem Query.Stage.answered (h : Lookup family answers fallback lookup)
    (hreturned : returned = none ∧ cancelled = false ∧ destroyed = false ∨ returned = some .handle)
    (hlast : (!status.isSuccess && fallback) = false) (hstatus : status.isDestruction = false) :
    ∃ q', Query.step ⟨family, some ⟨returned.isSome, false, cancelled, fallback⟩, some lookup, none,
        returned, answers, [], cancelled⟩ (.answer status) = some q' ∧ q'.Stage destroyed ∧
      (cancelled = true → q'.reported = []) ∧ q'.cancelled = cancelled := by
  have hcompleted : (status.isSuccess || !fallback) = true := by
    rw [← Bool.not_not (status.isSuccess || !fallback), Bool.not_or, Bool.not_not, hlast]
    rfl
  have hreports := h.reports hlast hstatus
  cases cancelled with
  | true =>
    obtain ⟨-, hfresh, -⟩ | rfl := hreturned
    · cases hfresh
    refine ⟨⟨family, none, none, none, some .handle, answers ++ [(lookup, status)], [], true⟩, ?_,
      .freed (by simp) (.inl ⟨rfl, .inl rfl⟩), fun _ => rfl, rfl⟩
    simp only [Query.step, Query.onAresHostCallback, bind_eq_bind, bind_some, hstatus,
      Bool.false_or, hcompleted]
    rfl
  | false =>
    refine ⟨⟨family, some ⟨returned.isSome, true, false, fallback⟩, none, some status, returned,
      answers ++ [(lookup, status)], [status.addressList], false⟩, ?_,
      .completed hreports ?_ ?_, by simp, rfl⟩
    · simp only [Query.step, Query.onAresHostCallback, bind_eq_bind, bind_some,
        hstatus, Bool.false_or, hcompleted]
      rfl
    · exact hreturned.imp And.left fun hhandle => ⟨hhandle, by simp⟩
    · rintro _ ⟨⟩
      exact hlast

theorem Query.Stage.step (h : q.Stage destroyed) (hallows : q.allows destroyed e = true)
    (htimely : ∀ status, e = .answer status → status.isDestruction = destroyed) :
    ∃ q', q.step e = some q' ∧ q'.Stage destroyed ∧ Silent destroyed q q' := by
  cases e with
  | answer status =>
    have hstatus := htimely status rfl
    cases h with
    | @waiting family answers fallback lookup returned cancelled h hreturned =>
      cases destroyed with
      | true =>
        obtain ⟨-, -, hfresh⟩ | rfl := hreturned
        · cases hfresh
        refine ⟨⟨family, none, none, none, some .handle, answers ++ [(lookup, status)], [],
          cancelled⟩, ?_, .freed nofun (.inl ⟨rfl, .inr rfl⟩), fun _ => rfl, id⟩
        simp [Query.step, Query.onAresHostCallback, hstatus]
      | false =>
        cases hlast : !status.isSuccess && fallback with
        | true =>
          cases h with
          | v4 | v6 | fallback => simp at hlast
          | auto =>
            cases status with
            | success | destruction => contradiction
            | failure =>
              refine ⟨⟨.auto, some ⟨returned.isSome, false, cancelled, false⟩, some .inet, none,
                returned, [(.inet6, .failure)], [], cancelled⟩, ?_, .waiting .fallback hreturned,
                fun _ => rfl, id⟩
              cases returned <;> rfl
        | false =>
          obtain ⟨q', hstep, hstage, hsilent, hcancelled⟩ := answered h hreturned hlast hstatus
          refine ⟨q', hstep, hstage, ?_, fun h => hcancelled.trans h⟩
          rintro (hc | hd)
          · exact hsilent hc
          · cases hd
    | completed | freed => cases hallows
  | callbackReturns =>
    cases h with
    | waiting | freed => cases hallows
    | @completed family answers addresses fallback notifying returned h hreturned hfallback =>
      cases notifying with
      | none => cases hallows
      | some status =>
        have hlast := hfallback status rfl
        obtain rfl | ⟨rfl, -⟩ := hreturned
        · refine ⟨⟨family, some ⟨false, true, false, fallback⟩, none, none, none, answers,
            [addresses], false⟩, ?_, .completed h (.inl rfl) nofun, fun _ => rfl, id⟩
          simp only [Query.step, Query.afterCallback, bind_eq_bind, bind_some, hlast]
          rfl
        · exact ⟨_, rfl, .freed nofun (.inr ⟨_, rfl, h⟩), fun _ => rfl, id⟩
  | resolveReturns =>
    cases h with
    | waiting h hreturned =>
      obtain ⟨rfl, rfl, rfl⟩ | rfl := hreturned
      · exact ⟨_, rfl, .waiting h (.inr rfl), fun _ => rfl, id⟩
      · cases hallows
    | @completed family answers addresses fallback notifying returned h hreturned =>
      obtain rfl | ⟨rfl, -⟩ := hreturned
      · cases notifying with
        | none => exact ⟨_, rfl, .freed nofun (.inr ⟨_, rfl, h⟩), fun _ => rfl, id⟩
        | some => cases hallows
      · cases hallows
    | @freed _ _ _ _ returned hreturned =>
      cases returned with
      | none => exact (hreturned rfl).elim
      | some => cases hallows
  | cancel =>
    cases h with
    | waiting h hreturned =>
      obtain ⟨rfl, -, -⟩ | rfl := hreturned
      · cases hallows
      · exact ⟨_, rfl, .waiting h (.inr rfl), fun _ => rfl, fun _ => rfl⟩
    | @completed _ _ _ _ _ returned => simp [Query.allows] at hallows
    | freed _ h =>
      simp only [Query.allows, Bool.and_eq_true, List.isEmpty_iff, Bool.not_eq_true',
        decide_eq_true_eq] at hallows
      obtain ⟨⟨⟨-, rfl⟩, rfl⟩, rfl⟩ := hallows
      simp at h

/-- What comes of a query. One that is no longer in use is deleted. -/
structure Query.Completes (destroyed : Bool) (q : Query) : Prop where
  once : q.reported = [] ∨
    ∃ addresses, q.reported = [addresses] ∧ Reports q.family q.answers addresses
  answered : q.pending = none → q.reported = [] → q.cancelled = true ∨ destroyed = true
  null : q.returned = none → q.notifying = none →
    ∃ q', q.step .resolveReturns = some q' ∧ (q'.returned = some .null ↔ q.reported ≠ [])
  freed : q.object = none ↔ q.pending = none ∧ q.notifying = none ∧ q.returned ≠ none

theorem Query.Stage.completes (h : q.Stage destroyed) : q.Completes destroyed := by
  cases h with
  | waiting h hreturned =>
    exact ⟨.inl rfl, nofun, fun _ _ => ⟨_, rfl, nofun, fun h => (h rfl).elim⟩, nofun, nofun⟩
  | completed h hreturned =>
    refine ⟨.inr ⟨_, rfl, h⟩, nofun, fun _ _ => ⟨_, rfl, fun _ => nofun, fun _ => rfl⟩, nofun, ?_⟩
    rintro ⟨-, hnotifying, hheld⟩
    obtain rfl | ⟨-, hrunning⟩ := hreturned
    · exact (hheld rfl).elim
    · exact (hrunning hnotifying).elim
  | freed hreturned h =>
    refine ⟨h.imp_left And.left, fun _ hnone => ?_, fun h => (hreturned h).elim,
      iff_of_true rfl ⟨rfl, rfl, hreturned⟩⟩
    obtain ⟨-, h⟩ | ⟨addresses, h, -⟩ := h
    · exact h
    · cases h.symm.trans hnone

/-! ## All queries -/

namespace System

variable {s s' : System} {event : Event} {i : Nat}

def Inv (s : System) : Prop := ∀ q ∈ s.queries, q.Stage s.destroyed

theorem step_keeps (h : s.Inv) (hevent : s.permits event = true) :
    ∃ s', s.step event = some s' ∧ s'.Inv ∧ (s.destroyed = true → s'.destroyed = true) ∧
      ∀ (i : Nat) (q : Query), s.queries[i]? = some q →
        ∃ q', s'.queries[i]? = some q' ∧ Silent s.destroyed q q' := by
  obtain ⟨hallows, htimely⟩ := Bool.and_eq_true_iff.mp hevent
  cases event with
  | resolve family =>
    obtain ⟨queries, _ | _⟩ := s
    · exact ⟨_, rfl, forall_mem_append.mpr
        ⟨h, forall_mem_singleton.mpr (.resolve family)⟩, id,
        fun i q hq => ⟨q, entry_concat hq, fun _ => rfl, id⟩⟩
    · cases hallows
  | query i e =>
    obtain ⟨q, hq, hallows⟩ := (Option.any_eq_true _ _).mp hallows
    obtain ⟨q', hstep, hstage, hsilent⟩ := (h q (mem_of_getElem? hq)).step hallows
      (by rintro status rfl; exact beq_iff_eq.mp htimely)
    refine ⟨{ s with queries := s.queries.set i q' }, ?_, ?_, id, fun j p hp => ?_⟩
    · rw [step, hq, bind_eq_bind, bind_some, hstep]
      rfl
    · intro p hp
      obtain hmem | rfl := mem_or_eq_of_mem_set hp
      · exact h p hmem
      · exact hstage
    · rw [getElem?_set]
      by_cases hij : i = j
      · subst hij
        cases hq.symm.trans hp
        rw [if_pos rfl, if_pos (List.getElem?_eq_some_iff.mp hq).1]
        exact ⟨q', rfl, hsilent⟩
      · rw [if_neg hij]
        exact ⟨p, hp, fun _ => rfl, id⟩
  | destroy =>
    obtain ⟨-, hcalls⟩ := Bool.and_eq_true_iff.mp hallows
    refine ⟨_, rfl, fun q hq => ?_, fun _ => rfl, fun i q hq => ⟨q, hq, fun _ => rfl, id⟩⟩
    have hcall := List.all_eq_true.mp hcalls q hq
    cases h q hq with
    | waiting h hreturned =>
      obtain ⟨rfl, -, -⟩ | rfl := hreturned
      · cases hcall
      · exact .waiting h (.inr rfl)
    | completed h hreturned hfallback => exact .completed h hreturned hfallback
    | freed hreturned h => exact .freed hreturned (h.imp_left fun h => ⟨h.1, .inr rfl⟩)

def CalledOff (i : Nat) (reported : List (List (Ip × Nat))) (s : System) : Prop :=
  s.Inv ∧ ∃ q : Query, s.queries[i]? = some q ∧ q.reported = reported ∧
    (q.cancelled = true ∨ s.destroyed = true)

/-- In every order of the events nothing deleted is used, each query completes, and a callback that
has been called off does not run. -/
theorem resolves_once (events : List Event)
    (h : AllMeet step (fun s event => s.permits event = true) new events) :
    ∃ s, run step new events = some s ∧ (∀ q ∈ s.queries, q.Completes s.destroyed) ∧
      ∀ (i : Nat) (q : Query), s.queries[i]? = some q → q.cancelled = true ∨ s.destroyed = true →
        ∀ more s', AllMeet step (fun s event => s.permits event = true) s more →
          run step s more = some s' →
            ∃ q', s'.queries[i]? = some q' ∧ q'.reported = q.reported := by
  have hsafe (s : System) (event : Event) (hinv : s.Inv) (hevent : s.permits event = true) :
      ∃ s', s.step event = some s' ∧ s'.Inv := by
    obtain ⟨s', hstep, hinv', -⟩ := step_keeps hinv hevent
    exact ⟨s', hstep, hinv'⟩
  have hnew : new.Inv := forall_mem_nil _
  obtain ⟨s, hrun, hinv⟩ := run_safe hsafe hnew h
  refine ⟨s, hrun, fun q hq => (hinv q hq).completes, fun i q hq hoff more s' hmore hrun' => ?_⟩
  have hquiet (s : System) (event : Event) (s' : System) (hs : CalledOff i q.reported s)
      (hevent : s.permits event = true) (hstep : s.step event = some s') :
      CalledOff i q.reported s' := by
    obtain ⟨hinv, p, hp, hreported, hoff⟩ := hs
    obtain ⟨t, ht, hinv', hdestroyed, hqueries⟩ := step_keeps hinv hevent
    cases hstep.symm.trans ht
    obtain ⟨p', hp', hsilent, hcancelled⟩ := hqueries i p hp
    exact ⟨hinv', p', hp', (hsilent hoff).trans hreported, hoff.imp hcancelled hdestroyed⟩
  obtain ⟨-, q', hq', hreported, -⟩ := run_invariant hquiet hmore ⟨hinv, q, hq, rfl, hoff⟩ hrun'
  exact ⟨q', hq', hreported⟩

def fallbackEvents : List Event :=
  [.resolve .auto, .query 0 (.answer .failure), .query 0 .resolveReturns,
    .query 0 (.answer (.success (.inet [⟨10, 0, 0, 1⟩]))), .query 0 .callbackReturns]

/-- A lookup fails at once, and its fallback succeeds later. -/
theorem resolves_once_fallback : ∃ s, run step new fallbackEvents = some s ∧
    ∀ q ∈ s.queries, q.Completes s.destroyed := by
  obtain ⟨s, hrun, hqueries, -⟩ := resolves_once fallbackEvents (by decide +kernel)
  exact ⟨s, hrun, hqueries⟩

/-- Early answers `ARES_EDESTRUCTION`: within `resolve` the object is deleted twice, and later the
callback does not run although nothing was cancelled or destroyed. -/
theorem destruction_early :
    (¬ ∀ events, AllMeet step (fun s event => s.allows event = true) new events →
      ∃ s, run step new events = some s) ∧
    ¬ ∀ events s, AllMeet step (fun s event => s.allows event = true) new events →
      run step new events = some s → ∀ q ∈ s.queries, q.Completes s.destroyed := by
  constructor
  · intro h
    obtain ⟨s, hs⟩ := h [.resolve .v4Only, .query 0 (.answer .destruction),
      .query 0 .resolveReturns] (by decide +kernel)
    cases hs
  · intro h
    have hquery := h [.resolve .v4Only, .query 0 .resolveReturns,
      .query 0 (.answer .destruction)] _ (by decide +kernel) rfl _ (mem_singleton.mpr rfl)
    obtain hcancelled | hdestroyed := hquery.answered rfl rfl
    · cases hcancelled
    · cases hdestroyed

end System

end Meliproxy.Envoy.Network.Dns
