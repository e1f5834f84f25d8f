import Meliproxy.Envoy.Http.Http1ClientHeaders

/-!
# The HTTP/1 codec between a request and its response

`Live` relates the state of the codec to the position of the parser in the responses, and to the
request that is pending. The steps of the request keep it.
-/

namespace Meliproxy.Envoy.Http.Http1

open Lib List Option

namespace ClientConnectionImpl

variable {p : HttpParser} {At : p.State → Pos → Prop} {responses : List Response}
  {s s' : ClientConnectionImpl p} {k : Nat} {r : Response} {part left data : Bytes}

theorem deliveriesTo_concat {d : Delivery} (h : s'.delivered = s.delivered ++ [(k, d)]) (i : Nat) :
    s'.deliveriesTo i = s.deliveriesTo i ++ if k = i then [d] else [] := by
  rw [deliveriesTo, h, filter_append, map_append, filter_singleton]
  by_cases hik : k = i
  · rw [if_pos hik, decide_eq_true hik]
    rfl
  · rw [if_neg hik, decide_eq_false hik]
    rfl

/-- The headers of a response are behind the parser, and so is its body but for `data`. -/
inductive Sent (s : ClientConnectionImpl p) (k : Nat) (r : Response) (data : Bytes) : Prop where
  | deferred {m : HeaderMap} (hm : r.ReadAs m) (hdeferred : s.deferredEndStreamHeaders = some m)
      (hnone : s.deliveriesTo k = []) (hbody : r.body = []) (hdata : data = [])
  | passed {m : HeaderMap} (hm : r.ReadAs m) (hdeferred : s.deferredEndStreamHeaders = none)
      (chunks : List Bytes)
      (hsent : s.deliveriesTo k = .headers m false :: chunks.map fun data => .data data false)
      (hbody : chunks.flatten ++ data = r.body)

/-- Nothing is collected of headers. -/
structure Idle (s : ClientConnectionImpl p) : Prop where
  map : s.currentHeaderMap = none
  field : s.currentHeaderField.Holds []
  value : s.currentHeaderValue.Holds []

/-- The state of the codec by the position of the parser. `part` is what the parser has read of the
response that is not complete. -/
inductive Stage (At : p.State → Pos → Prop) (s : ClientConnectionImpl p) (k : Nat) :
    Bytes → Pos → Prop where
  | between {rs : List Response} (hat : At s.parser (.between rs)) (hreturning : s.returning = none)
      (hidle : s.Idle) (hdeferred : s.deferredEndStreamHeaders = none)
      (hnone : s.deliveriesTo k = []) : Stage At s k [] (.between rs)
  | head {r : Response} {part left : Bytes} {told : List (Bytes × Bytes)} {inName : Bool}
      {rs : List Response} (hat : At s.parser (.head r left told inName rs))
      (hreturning : s.returning = none) (hspelled : s.Spelled told inName)
      (hdeferred : s.deferredEndStreamHeaders = none) (hnone : s.deliveriesTo k = [])
      (hpart : part ++ left = r.head) (hne : part ≠ []) :
      Stage At s k part (.head r left told inName rs)
  | headers {r : Response} {resume : Bool → p.State} {rs : List Response}
      (hreturning : s.returning = some resume)
      (hat : ∀ skipBody, At (resume skipBody) (.afterHead r rs skipBody))
      (hstatus : s.statusCode = r.status) (hidle : s.Idle) (hsent : s.Sent k r r.body)
      (hcannot : s.deferredEndStreamHeaders ≠ none → s.cannotHaveBody = true) :
      Stage At s k r.head (.head r [] r.fields false rs)
  | body {r : Response} {part left data : Bytes} {rs : List Response}
      (hat : At s.parser (.body r left data rs)) (hreturning : s.returning = none) (hidle : s.Idle)
      (hstate : s.headerParsingState = .done) (hsent : s.Sent k r data)
      (hpart : part ++ left = r.bytes) (hne : part ≠ []) :
      Stage At s k part (.body r left data rs)

def Waiting : Pos → Prop
  | .between _ => True
  | .head _ left _ _ _ => left ≠ []
  | .body r left data _ => left ≠ [] ∨ (r.closes = true ∧ data = [])
  | .lost => False

/-- The request that is pending, and what its encoder and its pending response tell of it. -/
structure Outstanding (responses : List Response) (s : ClientConnectionImpl p) (k : Nat)
    (head : Bool) (encoder : RequestStreamEncoderImpl) : Prop where
  pending : s.pendingResponses = [⟨k, head⟩]
  streams : s.streams = k + 1
  current : s.requestEncoder = some encoder
  fresh : s.headersEncoded = false → encoder = .create
  known : ∀ r, responses[k]? = some r → s.headersEncoded = true →
    encoder.headRequest = r.headRequest
  unfinished : s.requestComplete = false → head = false
  complete : ∀ r, responses[k]? = some r → s.requestComplete = true → head = r.headRequest

/-- The responses `done` are complete, and the parser is at a position behind them. -/
structure Live (At : p.State → Pos → Prop) (responses : List Response) (s : ClientConnectionImpl p)
    (done : List Response) (part : Bytes) (pos : Pos) : Prop where
  split : responses = done ++ pos.responses
  opened : s.closed = false
  open_done : ∀ r ∈ done, r.closes = false
  complete : ∀ i r, done[i]? = some r → Complete r (s.deliveriesTo i)
  later : ∀ i, done.length < i → s.deliveriesTo i = []
  requests : (s.pendingResponses = [] ∧ s.streams = done.length ∧ ∃ rs, pos = .between rs) ∨
    ∃ head encoder, Outstanding responses s done.length head encoder
  stage : Stage At s done.length part pos
  received : s.received = done.flatMap Response.bytes ++ part ++ s.reading.getD []
  stream : s.received <+: Response.stream responses
  waiting : s.reading = none → s.returning = none ∧ Waiting pos

/-- The same of the header block and of what was delivered. -/
structure SameHeaders (s s' : ClientConnectionImpl p) : Prop where
  map : s'.currentHeaderMap = s.currentHeaderMap
  state : s'.headerParsingState = s.headerParsingState
  field : s'.currentHeaderField = s.currentHeaderField
  value : s'.currentHeaderValue = s.currentHeaderValue
  deferred : s'.deferredEndStreamHeaders = s.deferredEndStreamHeaders
  delivered : s'.delivered = s.delivered

/-- The same state of the codec but for its requests. -/
structure SameResponse (s s' : ClientConnectionImpl p) : Prop extends SameHeaders s s' where
  parser : s'.parser = s.parser
  status : s'.statusCode = s.statusCode
  returning : s'.returning = s.returning

theorem SameHeaders.deliveriesTo (h : SameHeaders s s') (i : Nat) :
    s'.deliveriesTo i = s.deliveriesTo i := by
  rw [ClientConnectionImpl.deliveriesTo, h.delivered, ClientConnectionImpl.deliveriesTo]

theorem Idle.same (h : s.Idle) (hsame : SameHeaders s s') : s'.Idle :=
  ⟨hsame.map.trans h.map, hsame.field ▸ h.field, hsame.value ▸ h.value⟩

theorem Sent.same (h : s.Sent k r data) (hsame : SameHeaders s s') : s'.Sent k r data := by
  cases h with
  | deferred hm hdeferred hnone hbody hdata =>
    exact .deferred hm (hsame.deferred.trans hdeferred) ((hsame.deliveriesTo k).trans hnone) hbody
      hdata
  | passed hm hdeferred chunks hsent hbody =>
    exact .passed hm (hsame.deferred.trans hdeferred) chunks ((hsame.deliveriesTo k).trans hsent)
      hbody

variable {inName : Bool}

theorem Spelled.same {fields : List (Bytes × Bytes)} (h : s.Spelled fields inName)
    (hsame : SameHeaders s s') : s'.Spelled fields inName := by
  cases h with
  | start hmap hstate hfield hvalue =>
    exact .start (hsame.map.trans hmap) (hsame.state.trans hstate) (hsame.field ▸ hfield)
      (hsame.value ▸ hvalue)
  | field headers htext hmap hstate hfield hvalue hname hne =>
    exact .field headers htext (hsame.map.trans hmap) (hsame.state.trans hstate)
      (hsame.field ▸ hfield) (hsame.value ▸ hvalue) hname hne

theorem Stage.same {pos : Pos} (h : Stage At s k part pos) (hsame : SameResponse s s')
    (hcannot : s.cannotHaveBody = true → s'.cannotHaveBody = true) : Stage At s' k part pos := by
  cases h with
  | between hat hreturning hidle hdeferred hnone =>
    exact .between (hsame.parser ▸ hat) (hsame.returning.trans hreturning) (hidle.same hsame.toSameHeaders)
      (hsame.deferred.trans hdeferred) ((hsame.deliveriesTo k).trans hnone)
  | head hat hreturning hspelled hdeferred hnone hpart hne =>
    exact .head (hsame.parser ▸ hat) (hsame.returning.trans hreturning) (hspelled.same hsame.toSameHeaders)
      (hsame.deferred.trans hdeferred) ((hsame.deliveriesTo k).trans hnone) hpart hne
  | headers hreturning hat hstatus hidle hsent hcannot' =>
    exact .headers (hsame.returning.trans hreturning) hat (hsame.status.trans hstatus)
      (hidle.same hsame.toSameHeaders) (hsent.same hsame.toSameHeaders)
      fun h => hcannot (hcannot' (hsame.deferred ▸ h))
  | body hat hreturning hidle hstate hsent hpart hne =>
    exact .body (hsame.parser ▸ hat) (hsame.returning.trans hreturning) (hidle.same hsame.toSameHeaders)
      (hsame.state.trans hstate) (hsent.same hsame.toSameHeaders) hpart hne

variable {done : List Response} {pos : Pos}
variable {head : Bool} {encoder : RequestStreamEncoderImpl}

theorem Live.same (h : Live At responses s done part pos) (hsame : SameResponse s s')
    (hcannot : s.cannotHaveBody = true → s'.cannotHaveBody = true)
    (hclosed : s'.closed = s.closed) (hreading : s'.reading = s.reading)
    (hreceived : s'.received = s.received)
    (hrequest : Outstanding responses s' done.length head encoder) :
    Live At responses s' done part pos where
  split := h.split
  opened := hclosed.trans h.opened
  open_done := h.open_done
  complete i r hi := hsame.deliveriesTo i ▸ h.complete i r hi
  later i hi := (hsame.deliveriesTo i).trans (h.later i hi)
  requests := .inr ⟨head, encoder, hrequest⟩
  stage := h.stage.same hsame hcannot
  received := by rw [hreceived, hreading, h.received]
  stream := hreceived ▸ h.stream
  waiting hnone := by
    rw [hsame.returning]
    exact h.waiting (hreading.symm.trans hnone)

theorem Live.newStream (h : Live At responses s done part pos)
    (hpossible : s.Possible responses .newStream) :
    Live At responses s.newStream done part pos := by
  obtain ⟨-, hempty, -⟩ := hpossible
  have hnil : s.pendingResponses = [] := List.isEmpty_iff.mp hempty
  rcases h.requests with ⟨-, hstreams, -⟩ | ⟨head, encoder, hrequest⟩
  · have hrequest : Outstanding responses s.newStream done.length false .create := by
      refine ⟨?_, ?_, rfl, fun _ => rfl, ?_, fun _ => rfl, ?_⟩
      · rw [ClientConnectionImpl.newStream, hnil, hstreams]
        rfl
      · rw [ClientConnectionImpl.newStream, hstreams]
      · intro r _ hencoded
        cases hencoded
      · intro r _ hcomplete
        cases hcomplete
    refine h.same ⟨⟨rfl, rfl, rfl, rfl, rfl, rfl⟩, rfl, rfl, rfl⟩ ?_ rfl rfl rfl hrequest
    intro hcannot
    rw [cannotHaveBody, hnil] at hcannot
    rw [cannotHaveBody, ClientConnectionImpl.newStream, hnil]
    exact hcannot
  · rw [hrequest.pending] at hnil
    cases hnil

variable {after : RequestStreamEncoderImpl}

theorem Live.encoded (h : Live At responses s done part pos) {before : RequestStreamEncoderImpl}
    (hrequest : Outstanding responses s done.length head before) (hopen : s.requestComplete = false)
    (hknown : ∀ r, responses[done.length]? = some r → after.headRequest = r.headRequest) :
    ∃ s', s.encoded before after = some s' ∧ Live At responses s' done part pos := by
  have hhead : head = false := hrequest.unfinished hopen
  have hzero : before.stream.completed = 0 := by
    rw [requestComplete, hrequest.current] at hopen
    simpa using hopen
  let s₁ : ClientConnectionImpl p := { s with requestEncoder := some after, headersEncoded := true }
  have hcomplete : s₁.requestComplete = decide (0 < after.stream.completed) := rfl
  by_cases hend : before.stream.completed < after.stream.completed
  · -- The state of the encoder goes into the pending response.
    let s' : ClientConnectionImpl p :=
      { s₁ with pendingResponses := [⟨done.length, after.headRequest⟩] }
    have hs' : s.encoded before after = some s' := by
      rw [ClientConnectionImpl.encoded, if_pos hend, onEncodeComplete, hrequest.pending]
      rfl
    have hrequest' : Outstanding responses s' done.length after.headRequest after := by
      refine ⟨rfl, hrequest.streams, rfl, fun hfresh => ?_, fun r hr _ => hknown r hr, fun hmore => ?_,
        fun r hr _ => hknown r hr⟩
      · cases hfresh
      · rw [show s'.requestComplete = true from decide_eq_true (by omega)] at hmore
        cases hmore
    refine ⟨s', hs', h.same ⟨⟨rfl, rfl, rfl, rfl, rfl, rfl⟩, rfl, rfl, rfl⟩ ?_ rfl rfl rfl hrequest'⟩
    intro hcannot
    rw [cannotHaveBody, hrequest.pending, hhead] at hcannot
    rw [cannotHaveBody]
    simp only [hasNoBody, head?_cons, any_some, Bool.false_or, Bool.or_eq_true] at hcannot ⊢
    rcases hcannot with hcannot | hcannot
    · exact .inl (.inr hcannot)
    · exact .inr hcannot
  · have hs₁ : s.encoded before after = some s₁ := by
      rw [ClientConnectionImpl.encoded, if_neg hend]
    have hrequest' : Outstanding responses s₁ done.length head after := by
      refine ⟨hrequest.pending, hrequest.streams, rfl, fun hfresh => ?_, fun r hr _ => hknown r hr,
        fun _ => hhead, fun r _ hmore => ?_⟩
      · cases hfresh
      · rw [hcomplete] at hmore
        have := of_decide_eq_true hmore
        omega
    exact ⟨s₁, hs₁, h.same ⟨⟨rfl, rfl, rfl, rfl, rfl, rfl⟩, rfl, rfl, rfl⟩ id rfl rfl rfl hrequest'⟩

variable {endStream : Bool}

theorem headRequest_eq {headers : HeaderMap} (hfresh : encoder = .create)
    (h : encoder.encodeHeaders headers endStream = some after) :
    after.headRequest = encodesHead headers := by
  subst hfresh
  rw [RequestStreamEncoderImpl.encodeHeaders] at h
  obtain ⟨method, hmethod, h⟩ := bind_eq_some_iff.mp h
  obtain ⟨path, -, h⟩ := bind_eq_some_iff.mp h
  obtain ⟨stream, -, h⟩ := bind_eq_some_iff.mp h
  cases h
  rw [encodesHead, hmethod]
  simp [RequestStreamEncoderImpl.create]

theorem Live.encodeHeaders (h : Live At responses s done part pos) {headers : Headers}
    (hpossible : s.Possible responses (.encodeHeaders headers endStream)) :
    ∃ s', s.step (.encodeHeaders headers endStream) = some s' ∧ Live At responses s' done part pos := by
  obtain ⟨-, hpending, hnew, hencodes, hmethod⟩ := hpossible
  rcases h.requests with ⟨hnil, -, -⟩ | ⟨head, encoder, hrequest⟩
  · rw [hnil] at hpending
    cases hpending
  · have hfresh := hrequest.fresh hnew
    obtain ⟨after, hafter⟩ := isSome_iff_exists.mp hencodes
    rw [← hfresh] at hafter
    have hopen : s.requestComplete = false := by
      rw [requestComplete, hrequest.current, hfresh]
      rfl
    have hknown : ∀ r, responses[done.length]? = some r → after.headRequest = r.headRequest := by
      intro r hr
      rw [hrequest.streams, Nat.add_sub_cancel, hr, all_some, decide_eq_true_eq] at hmethod
      rw [headRequest_eq hfresh hafter, hmethod]
    obtain ⟨s', hs', hlive⟩ := h.encoded hrequest hopen hknown
    refine ⟨s', ?_, hlive⟩
    rw [step, hrequest.current, bind_eq_bind, bind_some, hafter]
    exact hs'

theorem Live.encodeRest (h : Live At responses s done part pos)
    (hpossible : s.Possible responses .encodeTrailers) (f : StreamEncoderImpl → StreamEncoderImpl) :
    ∃ encoder s', s.requestEncoder = some encoder ∧
      s.encoded encoder { encoder with stream := f encoder.stream } = some s' ∧
        Live At responses s' done part pos := by
  obtain ⟨-, hpending, hold, hopen⟩ := hpossible
  rcases h.requests with ⟨hnil, -, -⟩ | ⟨head, encoder, hrequest⟩
  · rw [hnil] at hpending
    cases hpending
  · let after : RequestStreamEncoderImpl := { encoder with stream := f encoder.stream }
    have hknown : ∀ r, responses[done.length]? = some r → after.headRequest = r.headRequest :=
      fun r hr => hrequest.known r hr hold
    obtain ⟨s', hs', hlive⟩ := h.encoded hrequest hopen hknown
    exact ⟨encoder, s', hrequest.current, hs', hlive⟩

variable {rs : List Response}

theorem stream_done (h : ∀ r ∈ done, r.closes = false) :
    Response.stream (done ++ rs) = done.flatMap Response.bytes ++ Response.stream rs := by
  induction done with
  | nil => rfl
  | cons r done ih =>
    rw [cons_append, Response.stream, h r mem_cons_self, if_neg Bool.false_ne_true,
      ih fun r hr => h r (mem_cons_of_mem _ hr), flatMap_cons, append_assoc]

theorem Stage.stream (h : Stage At s k part pos) :
    Response.stream pos.responses = part ++ pos.bytes := by
  cases h with
  | between => rfl
  | head hat hreturning hspelled hdeferred hnone hpart hne =>
    simp [Pos.responses, Response.stream, Response.bytes, Pos.bytes, ← hpart]
  | headers => simp [Pos.responses, Response.stream, Response.bytes, Pos.bytes]
  | body hat hreturning hidle hstate hsent hpart hne =>
    simp [Pos.responses, Response.stream, Pos.bytes, ← hpart]

theorem Live.slice (h : Live At responses s done part pos) : s.reading.getD [] <+: pos.bytes := by
  have hstream := h.stream
  rw [h.split, stream_done h.open_done, h.stage.stream, h.received, append_assoc,
    prefix_append_right_inj, prefix_append_right_inj] at hstream
  exact hstream

theorem Stage.at (h : Stage At s k part pos) (hreturning : s.returning = none) :
    At s.parser pos ∧ pos ≠ .lost := by
  cases h with
  | between hat => exact ⟨hat, by simp⟩
  | head hat => exact ⟨hat, by simp⟩
  | headers hsome =>
    rw [hreturning] at hsome
    cases hsome
  | body hat => exact ⟨hat, by simp⟩

theorem Stage.of_head {told : List (Bytes × Bytes)}
    (h : Stage At s k part (.head r left told inName rs)) (hreturning : s.returning = none) :
    s.Spelled told inName ∧ s.deferredEndStreamHeaders = none ∧ s.deliveriesTo k = [] ∧
      part ++ left = r.head ∧ part ≠ [] := by
  generalize hpos : Pos.head r left told inName rs = pos at h
  cases h with
  | head hat _ hspelled hdeferred hnone hpart hne =>
    injection hpos
    subst_vars
    exact ⟨hspelled, hdeferred, hnone, hpart, hne⟩
  | headers hsome => simp [hreturning] at hsome
  | between | body => cases hpos

theorem Stage.of_body (h : Stage At s k part (.body r left data rs)) :
    s.Idle ∧ s.headerParsingState = .done ∧ s.Sent k r data ∧ part ++ left = r.bytes ∧ part ≠ [] := by
  generalize hpos : Pos.body r left data rs = pos at h
  cases h with
  | body hat hreturning hidle hstate hsent hpart hne =>
    injection hpos
    subst_vars
    exact ⟨hidle, hstate, hsent, hpart, hne⟩
  | between | head | headers => cases hpos

theorem Live.dispatchSlice (h : Live At responses s done part pos) {slice : Bytes}
    (hpossible : s.Possible responses (.dispatchSlice slice)) :
    Live At responses { s with reading := some slice, received := s.received ++ slice } done part
      pos where
  split := h.split
  opened := h.opened
  open_done := h.open_done
  complete := h.complete
  later := h.later
  requests := by
    rcases h.requests with hnone | ⟨head, encoder, hrequest⟩
    · exact .inl hnone
    · exact .inr ⟨head, encoder, hrequest.pending, hrequest.streams, hrequest.current,
        hrequest.fresh, hrequest.known, hrequest.unfinished, hrequest.complete⟩
  stage := h.stage.same ⟨⟨rfl, rfl, rfl, rfl, rfl, rfl⟩, rfl, rfl, rfl⟩ id
  received := by
    have hreceived := h.received
    rw [hpossible.2.1, getD_none, append_nil] at hreceived
    rw [hreceived, getD_some]
  stream := hpossible.2.2.2
  waiting hnone := by cases hnone

/-- A step of the parser within a response changes what this response's decoder gets. -/
structure SameRequest (s s' : ClientConnectionImpl p) (k : Nat) : Prop where
  closed : s'.closed = s.closed
  pending : s'.pendingResponses = s.pendingResponses
  streams : s'.streams = s.streams
  encoder : s'.requestEncoder = s.requestEncoder
  encoded : s'.headersEncoded = s.headersEncoded
  received : s'.received = s.received
  delivered : ∀ i, i ≠ k → s'.deliveriesTo i = s.deliveriesTo i

section

variable (h : Live At responses s done part pos)
include h

theorem Live.progress {pos' : Pos} {part' : Bytes}
    (hstage : Stage At s' done.length part' pos') (hsame : SameRequest s s' done.length)
    (hpos : pos'.responses = pos.responses)
    (hrequest : s.pendingResponses ≠ [] ∨ ∃ rs, pos' = .between rs)
    (hread : part ++ s.reading.getD [] = part' ++ s'.reading.getD [])
    (hwaiting : s'.reading = none → s'.returning = none ∧ Waiting pos') :
    Live At responses s' done part' pos' where
  split := by rw [hpos, h.split]
  opened := hsame.closed.trans h.opened
  open_done := h.open_done
  complete i r hi := by
    obtain ⟨hlt, -⟩ := List.getElem?_eq_some_iff.mp hi
    rw [hsame.delivered i (by omega)]
    exact h.complete i r hi
  later i hi := (hsame.delivered i (by omega)).trans (h.later i hi)
  requests := by
    rcases h.requests with ⟨hnil, hstreams, -⟩ | ⟨head, encoder, hrequest⟩
    · rcases hrequest with hpending | hbetween
      · exact absurd hnil hpending
      · exact .inl ⟨hsame.pending.trans hnil, hsame.streams.trans hstreams, hbetween⟩
    · refine .inr ⟨head, encoder, hsame.pending.trans hrequest.pending,
        hsame.streams.trans hrequest.streams, hsame.encoder.trans hrequest.current, ?_, ?_, ?_, ?_⟩
      · rw [hsame.encoded]
        exact hrequest.fresh
      · rw [hsame.encoded]
        exact hrequest.known
      · rw [requestComplete, hsame.encoder]
        exact hrequest.unfinished
      · rw [requestComplete, hsame.encoder]
        exact hrequest.complete
  stage := hstage
  received := by rw [hsame.received, h.received, append_assoc, hread, ← append_assoc]
  stream := hsame.received ▸ h.stream
  waiting := hwaiting

theorem Live.pending (hpos : ∀ rs, pos ≠ .between rs) :
    ∃ head encoder, Outstanding responses s done.length head encoder := by
  rcases h.requests with ⟨-, -, rs, hbetween⟩ | hrequest
  · exact absurd hbetween (hpos rs)
  · exact hrequest

theorem Live.current (hpos : pos.responses = r :: rs) : responses[done.length]? = some r := by
  rw [h.split, hpos, getElem?_append_right (Nat.le_refl _), Nat.sub_self]
  rfl

end

theorem cannotHaveBody_eq {response : PendingResponse} (h : s.pendingResponses = [response]) :
    s.cannotHaveBody = hasNoBody response.headRequest s.statusCode := by
  rw [cannotHaveBody, h]
  rfl

theorem Outstanding.endsAtHead (h : Outstanding responses s k head encoder)
    (hr : responses[k]? = some r) (hcannot : hasNoBody head r.status = true) :
    r.endsAtHead = true := by
  rw [Response.endsAtHead]
  cases hcomplete : s.requestComplete with
  | false =>
    rw [h.unfinished hcomplete] at hcannot
    simp only [hasNoBody, Bool.false_or, Bool.or_eq_true] at hcannot ⊢
    rcases hcannot with hstatus | hstatus
    · exact .inl (.inr hstatus)
    · exact .inr hstatus
  | true => rw [← h.complete r hr hcomplete, hcannot]

end ClientConnectionImpl

end Meliproxy.Envoy.Http.Http1
