import Meliproxy.Envoy.RateLimit.HttpFilter

/-!
# Runs of the HTTP rate limit filter

A request is not decoded yet, waits for the service, or has been decided about: it was let
through, answered with a 429, or its call was cancelled. The phase fixes the history up to the
end of the stream, so that the decision can be read off it.
-/

namespace Meliproxy.Envoy.RateLimit

open Lib List Http

namespace HttpFilter

variable {config : FilterConfig} {s : HttpFilter} {r : Request}

def applies (config : FilterConfig) (r : Request) : Bool :=
  r.featureEnabled 0 (ascii "ratelimit.http_filter_enabled") && !(descriptors config r).isEmpty

def rejects (answer : LimitStatus × Bool) : Bool := answer.1 = .overLimit && answer.2

def ends (destroyed : Bool) : List Act := if destroyed then [.onDestroy] else []

/-- How a request was let through: without a call, inside of the call, or later. -/
inductive Passed (config : FilterConfig) (r : Request) : Option (LimitStatus × Bool) → List Act → Prop
  | free : applies config r = false → Passed config r none [.passes]
  | inline (answer : LimitStatus × Bool) : applies config r = true → rejects answer = false →
    Passed config r (some answer) [.limit config.domain (descriptors config r), .passes]
  | later (answer : LimitStatus × Bool) : applies config r = true → rejects answer = false →
    Passed config r (some answer) [.limit config.domain (descriptors config r), .continueDecoding]

inductive Phase (config : FilterConfig) (s : HttpFilter) : Prop
  | fresh (request : s.request = none) (state : s.state = .notStarted)
    (client : s.client = ⟨false, false⟩) (notComplete : s.localComplete = false)
    (held : s.held = false) (answer : s.answer = none) (trace : s.trace = ends s.destroyed)
  | calling (r : Request) (request : s.request = some r) (applies : applies config r = true)
    (state : s.state = .calling) (client : s.client = ⟨true, true⟩)
    (notComplete : s.localComplete = false) (there : s.destroyed = false) (answer : s.answer = none)
    (trace : s.trace = [.limit config.domain (descriptors config r)])
  | passed (r : Request) (request : s.request = some r) (state : s.state ≠ .calling)
    (open_ : s.state ≠ .responded) (client : s.client = ⟨false, false⟩)
    (notComplete : s.localComplete = false) (held : s.held = false) (acts : List Act)
    (passed : Passed config r s.answer acts) (trace : s.trace = acts ++ ends s.destroyed)
  | responded (r : Request) (request : s.request = some r) (applies : applies config r = true)
    (state : s.state = .responded) (client : s.client = ⟨false, false⟩)
    (complete : s.localComplete = true) (answer : s.answer = some (.overLimit, true))
    (trace : s.trace = [.limit config.domain (descriptors config r), .encodeHeaders 429] ++
      ends s.destroyed)
  | cancelled (r : Request) (request : s.request = some r) (applies : applies config r = true)
    (state : s.state = .complete) (client : s.client = ⟨false, false⟩)
    (notComplete : s.localComplete = false) (gone : s.destroyed = true) (answer : s.answer = none)
    (trace : s.trace = [.limit config.domain (descriptors config r), .onDestroy, .cancel])

/-- No call of the filter is under way. -/
structure Inv (config : FilterConfig) (s : HttpFilter) : Prop where
  idle : s.initiatingCall = false
  phase : Phase config s

theorem inv_create (config : FilterConfig) : Inv config create :=
  ⟨rfl, .fresh rfl rfl rfl rfl rfl rfl rfl⟩

section Completion

variable {completion : Completion} {featureEnabled : Bytes → Bool} {destroys : Bool}

theorem destroyIf_eq (hstate : s.state ≠ .calling) (hthere : s.destroyed = false) :
    s.destroyIf destroys = some { s with
      destroyed := destroys
      trace := s.trace ++ ends destroys } := by
  cases destroys with
  | false =>
    obtain ⟨state, initiating, client, local_, destroyed, held, request, answer, trace⟩ := s
    simp only at hthere
    subst hthere
    simp [destroyIf, ends]
  | true => simp [destroyIf, destroyStream, onDestroy, act, ends, hstate]

section

variable (hknown : completion ≠ .onSuccess .unknown)
include hknown

theorem onCompletion_complete :
    s.onCompletion completion featureEnabled destroys =
      ({ s with client := { s.client with request := false } }.complete completion.status
        featureEnabled destroys).map fun t : HttpFilter =>
          { t with client := { t.client with callbacks := false } } := by
  cases completion with
  | onSuccess overallCode =>
    cases overallCode with
    | unknown => exact absurd rfl hknown
    | ok | overLimit => rfl
  | onFailure => rfl

theorem onCompletion_rejects (hthere : s.destroyed = false)
    (hrejects : rejects (completion.status, featureEnabled (ascii "ratelimit.http_filter_enforcing")) =
      true) : s.onCompletion completion featureEnabled destroys = some { s with
      client := ⟨false, false⟩
      state := .responded
      localComplete := true
      destroyed := destroys
      trace := s.trace ++ .encodeHeaders 429 :: ends destroys } := by
  simp only [rejects, Bool.and_eq_true, decide_eq_true_eq] at hrejects
  rw [onCompletion_complete hknown, complete]
  rw [hrejects.1, hrejects.2]
  simp only [and_self, if_true]
  rw [destroyIf_eq]
  · simp [act]
  · simp [act]
  · exact hthere

theorem onCompletion_inline (hcall : s.initiatingCall = true)
    (haccepts : rejects (completion.status, featureEnabled (ascii "ratelimit.http_filter_enforcing")) =
      false) : s.onCompletion completion featureEnabled destroys = some { s with
      client := ⟨false, false⟩
      state := .complete } := by
  rw [onCompletion_complete hknown, complete]
  simp only [rejects] at haccepts
  rw [if_neg (by simpa using haccepts)]
  simp [hcall]

theorem onCompletion_later (hthere : s.destroyed = false)
    (hidle : s.initiatingCall = false)
    (haccepts : rejects (completion.status, featureEnabled (ascii "ratelimit.http_filter_enforcing")) =
      false) : s.onCompletion completion featureEnabled destroys = some { s with
      client := ⟨false, false⟩
      state := .complete
      held := false
      destroyed := destroys
      trace := s.trace ++ .continueDecoding :: ends destroys } := by
  rw [onCompletion_complete hknown, complete]
  simp only [rejects] at haccepts
  rw [if_neg (by simpa using haccepts)]
  simp only [hidle, Bool.false_eq_true, if_false]
  rw [destroyIf_eq]
  · simp [act]
  · simp [act]
  · exact hthere

end

end Completion

theorem rejects_eq {answer : LimitStatus × Bool} (h : rejects answer = true) :
    answer = (.overLimit, true) := by
  rw [rejects, Bool.and_eq_true, decide_eq_true_eq] at h
  exact Prod.ext h.1 h.2

theorem applies_false {b : Bool} (hb : r.featureEnabled 0 (ascii "ratelimit.http_filter_enabled") = b)
    (h : b = false ∨ descriptors config r = []) : applies config r = false := by
  rw [applies, hb]
  rcases h with rfl | h
  · rfl
  · simp [h]

theorem decodeHeaders_inv (h : Inv config s) (hrequest : s.request = none)
    (hthere : s.destroyed = false) {completion : Option Completion}
    (hknown : completion ≠ some (.onSuccess .unknown)) (destroys : Bool) :
    ∃ s', step config s (.decodeHeaders r completion destroys) = some s' ∧ Inv config s' := by
  obtain ⟨hidle, hphase⟩ := h
  cases hphase with
  | fresh _ state client notComplete held answer trace =>
    rw [hthere] at trace
    cases henabled : r.featureEnabled 0 (ascii "ratelimit.http_filter_enabled") with
    | false =>
      rw [step, decodeHeaders, if_pos henabled]
      refine ⟨_, rfl, hidle, .passed r rfl ?_ ?_ client notComplete rfl [.passes] ?_ ?_⟩
      · simp [act, returns, state]
      · simp [act, returns, state]
      · simp only [act, returns, answer]
        exact .free (applies_false henabled (.inl rfl))
      · simp [act, returns, trace, hthere, ends]
    | true =>
      by_cases hnone : descriptors config r = []
      · rw [step, decodeHeaders, henabled, if_neg (by simp), initiateCall, if_pos hnone]
        simp only [Option.map_some, state]
        refine ⟨_, rfl, ?_, .passed r ?_ ?_ ?_ ?_ ?_ ?_ [.passes] ?_ ?_⟩
        · simp [act, returns, hidle]
        · simp [act, returns]
        · simp [act, returns]
        · simp [act, returns]
        · simp [act, returns, client]
        · simp [act, returns, notComplete]
        · simp [act, returns]
        · have happlies := applies_false henabled (.inr hnone)
          simpa [act, returns, answer] using Passed.free happlies
        · simp [act, returns, trace, hthere, ends]
      · have happlies : applies config r = true := by simp [applies, henabled, hnone]
        rw [step, decodeHeaders, henabled, if_neg (by simp), initiateCall, if_neg hnone]
        simp only [limit, client, Bool.false_eq_true, if_false]
        cases completion with
        | none =>
          refine ⟨_, rfl, ?_, .calling r ?_ happlies ?_ ?_ ?_ ?_ ?_ ?_⟩
          · simp [act, returns]
          · simp [act, returns]
          · simp [act, returns]
          · simp [act, returns]
          · simp [act, returns, notComplete]
          · simp [act, returns, hthere]
          · simp [act, returns, answer]
          · simp [act, returns, trace, ends]
        | some completion =>
          have hknown' : completion ≠ .onSuccess .unknown := fun h => hknown (congrArg some h)
          cases hrejects : rejects (completion.status,
              r.featureEnabled 0 (ascii "ratelimit.http_filter_enforcing")) with
          | true =>
            simp only
            rw [answerWith, onCompletion_rejects hknown' (by exact hthere) hrejects]
            refine ⟨_, rfl, ?_, .responded r ?_ happlies ?_ ?_ ?_ ?_ ?_⟩
            · simp [act, returns]
            · simp [act, returns]
            · simp [act, returns]
            · simp [act, returns]
            · simp [act, returns]
            · simpa [act, returns] using rejects_eq hrejects
            · simp [act, returns, trace, ends]
          | false =>
            simp only
            rw [answerWith, onCompletion_inline hknown' (by rfl) hrejects]
            refine ⟨_, rfl, ?_, .passed r ?_ ?_ ?_ ?_ ?_ ?_
              [.limit config.domain (descriptors config r), .passes] ?_ ?_⟩
            · simp [act, returns]
            · simp [act, returns]
            · simp [act, returns]
            · simp [act, returns]
            · simp [act, returns]
            · simp [act, returns, notComplete]
            · simp [act, returns]
            · simpa [act, returns] using Passed.inline _ happlies hrejects
            · simp [act, returns, trace, hthere, ends]
  | calling r' request =>
    rw [hrequest] at request
    cases request
  | passed r' request =>
    rw [hrequest] at request
    cases request
  | responded r' request =>
    rw [hrequest] at request
    cases request
  | cancelled r' request =>
    rw [hrequest] at request
    cases request

theorem decodeMore_inv (h : Inv config s) (hrequest : s.request.isSome = true)
    (hthere : s.destroyed = false) : ∃ s', s.decodeMore = some s' ∧ Inv config s' := by
  obtain ⟨hidle, hphase⟩ := h
  unfold decodeMore
  cases hphase with
  | fresh request =>
    rw [request] at hrequest
    cases hrequest
  | calling r request applies state client notComplete there answer trace =>
    rw [notComplete, state]
    exact ⟨_, rfl, hidle, .calling r request applies state client notComplete there answer trace⟩
  | passed r request state open_ client notComplete held acts passed trace =>
    rw [notComplete, if_neg (by simp), if_neg open_, if_neg state]
    exact ⟨_, rfl, hidle, .passed r request state open_ client notComplete rfl acts passed trace⟩
  | responded r request applies state client complete answer trace =>
    rw [complete]
    exact ⟨_, rfl, hidle, .responded r request applies state client complete answer trace⟩
  | cancelled r request applies state client notComplete gone =>
    rw [gone] at hthere
    cases hthere

theorem completion_inv (h : Inv config s) (hcall : s.client.request = true) {completion : Completion}
    (hknown : completion ≠ .onSuccess .unknown) (featureEnabled : Bytes → Bool) (destroys : Bool) :
    ∃ s', s.answerWith completion featureEnabled destroys = some s' ∧ Inv config s' := by
  obtain ⟨hidle, hphase⟩ := h
  cases hphase with
  | calling r request applies state client notComplete there answer trace =>
    cases hrejects : rejects (completion.status,
        featureEnabled (ascii "ratelimit.http_filter_enforcing")) with
    | true =>
      rw [answerWith, onCompletion_rejects hknown (by exact there) hrejects]
      refine ⟨_, rfl, hidle,
        .responded r request applies rfl rfl rfl (congrArg some (rejects_eq hrejects)) ?_⟩
      simp only [trace]
      rfl
    | false =>
      rw [answerWith, onCompletion_later hknown (by exact there) (by exact hidle) hrejects]
      refine ⟨_, rfl, hidle, .passed r request ?_ ?_ rfl notComplete rfl
        [.limit config.domain (descriptors config r), .continueDecoding] ?_ ?_⟩
      · simp
      · simp
      · exact .later _ applies hrejects
      · simp only [trace]
        rfl
  | fresh request state client =>
    rw [client] at hcall
    cases hcall
  | passed r request state open_ client =>
    rw [client] at hcall
    cases hcall
  | responded r request applies state client =>
    rw [client] at hcall
    cases hcall
  | cancelled r request applies state client =>
    rw [client] at hcall
    cases hcall

theorem onDestroy_inv (h : Inv config s) (hthere : s.destroyed = false) :
    ∃ s', s.destroyStream = some s' ∧ Inv config s' := by
  obtain ⟨hidle, hphase⟩ := h
  unfold destroyStream onDestroy
  cases hphase with
  | fresh request state client notComplete held answer trace =>
    rw [if_neg (by simp [act, state])]
    refine ⟨_, rfl, hidle, .fresh request state client notComplete held answer ?_⟩
    simp [act, trace, hthere, ends]
  | calling r request applies state client notComplete there answer trace =>
    rw [if_pos (by simpa [act] using state), cancel, if_pos (by simp [act, client])]
    refine ⟨_, rfl, hidle, .cancelled r request applies rfl rfl notComplete rfl answer ?_⟩
    simp [act, trace]
  | passed r request state open_ client notComplete held acts passed trace =>
    rw [if_neg (by simpa [act] using state)]
    refine ⟨_, rfl, hidle, .passed r request state open_ client notComplete held acts passed ?_⟩
    simp [act, trace, hthere, ends]
  | responded r request applies state client complete answer trace =>
    rw [if_neg (by simp [act, state])]
    refine ⟨_, rfl, hidle, .responded r request applies state client complete answer ?_⟩
    simp [act, trace, hthere, ends]
  | cancelled r request applies state client notComplete gone =>
    rw [gone] at hthere
    cases hthere

theorem inv_step {e : HttpFilterEvent} (h : Inv config s) (hpossible : Possible s e) :
    ∃ s', step config s e = some s' ∧ Inv config s' := by
  cases e with
  | decodeHeaders r completion destroys =>
    exact decodeHeaders_inv h (Option.isNone_iff_eq_none.mp hpossible.1) hpossible.2.1
      hpossible.2.2 destroys
  | decodeData | decodeTrailers => exact decodeMore_inv h hpossible.1 hpossible.2
  | completion completion featureEnabled destroys =>
    exact completion_inv h hpossible.1 hpossible.2 featureEnabled destroys
  | onDestroy => exact onDestroy_inv h hpossible

theorem inv_run {es : List HttpFilterEvent} (hs : Inv config s)
    (h : AllMeet (step config) Possible s es) :
    ∃ s', run (step config) s es = some s' ∧ Inv config s' :=
  run_safe (fun _ _ hs h => inv_step hs h) hs h

variable {answer : Option (LimitStatus × Bool)} {acts : List Act}

instance decidablePossible (s : HttpFilter) : (e : HttpFilterEvent) → Decidable (Possible s e) := by
  intro e
  cases e <;> dsimp only [Possible] <;> infer_instance

def sampleConfig : FilterConfig := ⟨ascii "edge", 0, .both, ascii "front"⟩

def sampleRequest : Request where
  headers := .new
  route := some (some ⟨ascii "backend", ⟨[⟨[], 0, [.sourceCluster]⟩], by decide⟩, false, ⟨[], by simp⟩⟩)
  clusters := fun _ => true
  featureEnabled := fun _ _ => true
  downstreamAddress := []

end HttpFilter

end Meliproxy.Envoy.RateLimit
