import Meliproxy.Envoy.Http.Http1ClientSteps

/-!
# The callbacks of http_parser for a response

Each callback that the parser makes at a position keeps the codec in step with it.
-/

namespace Meliproxy.Envoy.Http.Http1

open Lib List Option

namespace ClientConnectionImpl

variable {p : HttpParser} {At : p.State → Pos → Prop} {responses : List Response}
  {s s' : ClientConnectionImpl p} {r : Response} {part left data used rest : Bytes}
  {done : List Response} {pos : Pos} {rs : List Response} {resume : Bool → p.State}

theorem Live.readAll (h : Live At responses s done part pos) (hreturning : s.returning = none)
    {slice : Bytes} (hreading : s.reading = some slice) {state : p.State} {pos' : Pos}
    (hquiet : Quiet pos slice pos') (hat : At state pos') :
    ∃ part', Live At responses { s with parser := state, reading := none } done part' pos' := by
  let s' : ClientConnectionImpl p := { s with parser := state, reading := none }
  have hsame : SameHeaders s s' := ⟨rfl, rfl, rfl, rfl, rfl, rfl⟩
  have hrequest : SameRequest s s' done.length := ⟨rfl, rfl, rfl, rfl, rfl, rfl, fun _ _ => rfl⟩
  have hstage := h.stage
  cases hquiet with
  | between rs =>
    cases hstage with
    | between _ _ hidle hdeferred hnone =>
      have hstage' : Stage At s' done.length [] (.between rs) :=
        .between hat hreturning (hidle.same hsame) hdeferred hnone
      exact ⟨[], h.progress hstage' hrequest rfl (.inr ⟨rs, rfl⟩) (by rw [hreading]; rfl)
        fun _ => ⟨hreturning, trivial⟩⟩
  | head used hleft =>
    obtain ⟨head, encoder, hpending⟩ := h.pending (by simp)
    obtain ⟨hspelled, hdeferred, hnone, hpart, hne⟩ := hstage.of_head hreturning
    have hstage' : Stage At s' done.length (part ++ slice) (.head _ _ _ _ _) :=
      .head hat hreturning (hspelled.same hsame) hdeferred hnone
        (by rw [append_assoc, hpart]) (by simp [hne])
    exact ⟨part ++ slice, h.progress hstage' hrequest rfl (.inl (by simp [hpending.pending]))
      (by rw [hreading]; simp) fun _ => ⟨hreturning, hleft⟩⟩
  | body used hleft =>
    obtain ⟨head, encoder, hpending⟩ := h.pending (by simp)
    obtain ⟨hidle, hstate, hsent, hpart, hne⟩ := hstage.of_body
    have hstage' : Stage At s' done.length (part ++ slice) (.body _ _ _ _) :=
      .body hat hreturning (hidle.same hsame) hstate (hsent.same hsame)
        (by rw [append_assoc, hpart]) (by simp [hne])
    exact ⟨part ++ slice, h.progress hstage' hrequest rfl (.inl (by simp [hpending.pending]))
      (by rw [hreading]; simp) fun _ => ⟨hreturning, hleft⟩⟩

theorem onBody_eq {response : PendingResponse} (hdeferred : s.deferredEndStreamHeaders = none)
    (hpending : s.pendingResponses = [response]) :
    s.onBody data = some (s.deliver response.decoder (.data data false)) := by
  rw [onBody, hdeferred, hpending]
  rfl

theorem complete_message {response : PendingResponse}
    (hpending : s.pendingResponses = [response]) (hsent : s.Sent response.decoder r []) :
    ∃ d, s.onMessageComplete = { s with
        pendingResponses := []
        deferredEndStreamHeaders := none
        delivered := s.delivered ++ [(response.decoder, d)] } ∧
      Complete r (s.deliveriesTo response.decoder ++ [d]) := by
  cases hsent with
  | @deferred m hm hdeferred hnone hbody _ =>
    refine ⟨.headers m true, by rw [onMessageComplete, hpending, hdeferred]; rfl, ?_⟩
    rw [hnone]
    exact .headersOnly hm hbody
  | passed hm hdeferred chunks hsent hbody =>
    refine ⟨.data [] true, by rw [onMessageComplete, hpending, hdeferred]; rfl, ?_⟩
    rw [hsent]
    exact .withBody hm chunks (by simpa using hbody)

variable (hreturning : s.returning = none) (hreading : s.reading = some (used ++ rest))

include hreturning hreading

theorem Live.messageBegin (h : Live At responses s done part (.between (r :: rs)))
    (hpending : s.pendingResponses ≠ []) (hused : used ≠ []) (hhead : r.head = used ++ left)
    (hat : At (resume false) (.head r left [] false rs)) :
    ∃ s', onCallback { s with reading := some rest } resume .messageBegin = some s' ∧
      Live At responses s' done used (.head r left [] false rs) := by
  have hstage := h.stage
  cases hstage with
  | between _ _ hidle hdeferred hnone =>
    let s' : ClientConnectionImpl p :=
      { s with
        parser := resume false
        reading := some rest
        currentHeaderMap := some .new
        headerParsingState := .field }
    have hstage' : Stage At s' done.length used (.head r left [] false rs) :=
      .head hat hreturning (.start rfl rfl hidle.field hidle.value) hdeferred hnone hhead.symm hused
    refine ⟨s', by rw [onCallback, onMessageBegin, goesOn, hidle.map]; rfl, ?_⟩
    exact h.progress hstage' ⟨rfl, rfl, rfl, rfl, rfl, rfl, fun _ _ => rfl⟩ rfl (.inl hpending)
      (by rw [hreading]; rfl) (by simp)

theorem Live.header {told told' : List (Bytes × Bytes)} {inName inName' : Bool} {c : Callback}
    (h : Live At responses s done part (.head r (used ++ left) told inName rs))
    (hspells : Spells told inName c told' inName')
    (hat : At (resume false) (.head r left told' inName' rs)) :
    ∃ s', onCallback { s with reading := some rest } resume c = some s' ∧
      Live At responses s' done (part ++ used) (.head r left told' inName' rs) := by
  obtain ⟨head, encoder, hpending⟩ := h.pending (by simp)
  obtain ⟨hspelled, hdeferred, hnone, hpart, hne⟩ := h.stage.of_head hreturning
  have hsame : SameHeaders s { s with reading := some rest } := ⟨rfl, rfl, rfl, rfl, rfl, rfl⟩
  obtain ⟨m, state, field, value, hstep, hspelled'⟩ :=
    collect_spelled (hspelled.same hsame) hspells resume
  let s' := (goesOn { s with reading := some rest } resume).collect m state field value
  have hstage' : Stage At s' done.length (part ++ used) (.head r left told' inName' rs) :=
    .head hat hreturning hspelled' hdeferred hnone (by rw [append_assoc, hpart]) (by simp [hne])
  exact ⟨s', hstep, h.progress hstage' ⟨rfl, rfl, rfl, rfl, rfl, rfl, fun _ _ => rfl⟩ rfl
    (.inl (by simp [hpending.pending])) (by rw [hreading]; simp [s', collect, goesOn]) nofun⟩

theorem Live.headersComplete (h : Live At responses s done part (.head r used r.fields false rs))
    (hat : ∀ skipBody, At (resume skipBody) (.afterHead r rs skipBody)) :
    ∃ s', onCallback { s with reading := some rest } resume (.headersComplete r.status) = some s' ∧
      Live At responses s' done r.head (.head r [] r.fields false rs) := by
  obtain ⟨head, encoder, hpending⟩ := h.pending (by simp)
  obtain ⟨hspelled, hdeferred, hnone, hpart, hne⟩ := h.stage.of_head hreturning
  have hsame : SameHeaders s { s with reading := some rest } := ⟨rfl, rfl, rfl, rfl, rfl, rfl⟩
  obtain ⟨headers, field, value, htext, hfield, hvalue, hcomplete⟩ :=
    completeLastHeader_eq (hspelled.same hsame)
  let m := (HeaderMap.ofHeaders headers).insertInline .status fun value =>
    value.setInteger r.status.toUInt64
  have hm : r.ReadAs m := ⟨headers, htext, rfl⟩
  let s₁ : ClientConnectionImpl p :=
    { s with
      reading := some rest
      statusCode := r.status
      returning := some resume
      currentHeaderMap := none
      headerParsingState := .field
      currentHeaderField := field
      currentHeaderValue := value }
  have hstep : onCallback { s with reading := some rest } resume (.headersComplete r.status) =
      some (if s₁.cannotHaveBody then { s₁ with deferredEndStreamHeaders := some m }
        else s₁.deliver done.length (.headers m false)) := by
    rw [onCallback, onHeadersComplete, hcomplete]
    have hfirst : s.pendingResponses.head? = some ⟨done.length, head⟩ := by
      rw [hpending.pending]
      rfl
    simp only [bind_eq_bind, bind_some, collect]
    rw [hfirst]
    rfl
  have hread : part ++ s.reading.getD [] = r.head ++ rest := by
    rw [hreading, getD_some, ← append_assoc, hpart]
  cases hcannot : s₁.cannotHaveBody with
  | true =>
    let s' : ClientConnectionImpl p := { s₁ with deferredEndStreamHeaders := some m }
    have hends : r.endsAtHead = true := by
      rw [cannotHaveBody_eq (s := s₁) hpending.pending] at hcannot
      exact hpending.endsAtHead (h.current rfl) hcannot
    have hbody : r.body = [] := (r.noBody hends).2
    have hstage' : Stage At s' done.length r.head (.head r [] r.fields false rs) :=
      .headers rfl hat rfl ⟨rfl, hfield, hvalue⟩ (.deferred hm rfl hnone hbody hbody) fun _ => hcannot
    refine ⟨s', by rw [hstep, hcannot, if_pos rfl], ?_⟩
    exact h.progress hstage' ⟨rfl, rfl, rfl, rfl, rfl, rfl, fun _ _ => rfl⟩ rfl
      (.inl (by simp [hpending.pending])) hread (by simp)
  | false =>
    let s' := s₁.deliver done.length (.headers m false)
    have hsent : s'.deliveriesTo done.length = [.headers m false] := by
      rw [deliveriesTo_concat (s := s) rfl, if_pos rfl, hnone, nil_append]
    have hstage' : Stage At s' done.length r.head (.head r [] r.fields false rs) :=
      .headers rfl hat rfl ⟨rfl, hfield, hvalue⟩ (.passed hm hdeferred [] hsent rfl)
        fun hsome => absurd hdeferred hsome
    refine ⟨s', by rw [hstep, hcannot, if_neg Bool.false_ne_true], ?_⟩
    refine h.progress hstage' ⟨rfl, rfl, rfl, rfl, rfl, rfl, fun i hi => ?_⟩ rfl
      (.inl (by simp [hpending.pending])) hread (by rintro ⟨⟩)
    rw [deliveriesTo_concat (s := s) rfl, if_neg (Ne.symm hi), append_nil]

theorem Live.body {more : Bytes}
    (h : Live At responses s done part (.body r (used ++ left) (data ++ more) rs))
    (hdata : data ≠ [])
    (hat : At (resume false) (.body r left more rs)) :
    ∃ s', onCallback { s with reading := some rest } resume (.body data) = some s' ∧
      Live At responses s' done (part ++ used) (.body r left more rs) := by
  obtain ⟨head, encoder, hpending⟩ := h.pending (by simp)
  obtain ⟨hidle, hstate, hsent, hpart, hne⟩ := h.stage.of_body
  cases hsent with
  | deferred _ _ _ _ hnil =>
    obtain ⟨hnil, -⟩ := append_eq_nil_iff.mp hnil
    exact absurd hnil hdata
  | @passed m hm hdeferred chunks hsent hbody =>
    let s₁ := goesOn { s with reading := some rest } resume
    let s' := s₁.deliver done.length (.data data false)
    have hstep : onCallback { s with reading := some rest } resume (.body data) = some s' :=
      onBody_eq (s := s₁) hdeferred hpending.pending
    have hsent' : s'.deliveriesTo done.length =
        .headers m false :: (chunks ++ [data]).map fun data => .data data false := by
      rw [deliveriesTo_concat (s := s) rfl, if_pos rfl, hsent, map_append]
      rfl
    have hbody' : (chunks ++ [data]).flatten ++ more = r.body := by
      rw [← hbody]
      simp
    have hstage' : Stage At s' done.length (part ++ used) (.body r left more rs) :=
      .body hat hreturning { hidle with } hstate
        (.passed hm hdeferred _ hsent' hbody') (by rw [append_assoc, hpart]) (by simp [hne])
    refine ⟨s', hstep, h.progress hstage' ⟨rfl, rfl, rfl, rfl, rfl, rfl, fun i hi => ?_⟩ rfl
      (.inl (by simp [hpending.pending])) ?_ nofun⟩
    · rw [deliveriesTo_concat (s := s) rfl, if_neg (Ne.symm hi), append_nil]
    · rw [hreading, append_assoc]
      rfl

theorem Live.trailer {c : Callback} (h : Live At responses s done part (.body r (used ++ left) data rs))
    (hc : c.isHeader = true) (hat : At (resume false) (.body r left data rs)) :
    ∃ s', onCallback { s with reading := some rest } resume c = some s' ∧
      Live At responses s' done (part ++ used) (.body r left data rs) := by
  obtain ⟨head, encoder, hpending⟩ := h.pending (by simp)
  obtain ⟨hidle, hstate, hsent, hpart, hne⟩ := h.stage.of_body
  let s' := goesOn { s with reading := some rest } resume
  have hstep : onCallback { s with reading := some rest } resume c = some s' := by
    cases c with
    | headerField data => exact if_pos hstate
    | headerValue data => exact congrArg some (if_pos hstate)
    | messageBegin | headersComplete | body | messageComplete => cases hc
  have hsame : SameHeaders s s' := ⟨rfl, rfl, rfl, rfl, rfl, rfl⟩
  have hstage' : Stage At s' done.length (part ++ used) (.body r left data rs) :=
    .body hat hreturning (hidle.same hsame) hstate (hsent.same hsame)
      (by rw [append_assoc, hpart]) (by simp [hne])
  refine ⟨s', hstep, h.progress hstage' ⟨rfl, rfl, rfl, rfl, rfl, rfl, fun _ _ => rfl⟩ rfl
    (.inl (by simp [hpending.pending])) ?_ nofun⟩
  rw [hreading, append_assoc]
  rfl

theorem Live.messageComplete (h : Live At responses s done part (.body r used [] rs))
    (hopen : r.closes = false) (hat : At (resume false) (.between rs)) :
    ∃ s', onCallback { s with reading := some rest } resume .messageComplete = some s' ∧
      Live At responses s' (done ++ [r]) [] (.between rs) := by
  obtain ⟨head, encoder, hpending⟩ := h.pending (by simp)
  obtain ⟨hidle, hstate, hsent, hpart, hne⟩ := h.stage.of_body
  let s₁ := goesOn { s with reading := some rest } resume
  have hsent₁ : s₁.Sent done.length r [] := hsent.same ⟨rfl, rfl, rfl, rfl, rfl, rfl⟩
  obtain ⟨d, hcomplete, hd⟩ := complete_message (s := s₁) hpending.pending hsent₁
  let s' : ClientConnectionImpl p :=
    { s₁ with
      pendingResponses := []
      deferredEndStreamHeaders := none
      delivered := s.delivered ++ [(done.length, d)] }
  have hto : ∀ i, s'.deliveriesTo i = s.deliveriesTo i ++ if done.length = i then [d] else [] :=
    deliveriesTo_concat rfl
  refine ⟨s', by rw [onCallback]; exact congrArg some hcomplete, ?_⟩
  refine ⟨?_, h.opened, ?_, ?_, ?_, ?_, ?_, ?_, h.stream, by rintro ⟨⟩⟩
  · rw [h.split, append_assoc]
    rfl
  · intro r' hr'
    rcases mem_append.mp hr' with hr' | hr'
    · exact h.open_done r' hr'
    · rw [mem_singleton.mp hr', hopen]
  · intro i r' hi
    rw [hto]
    rcases entry_of_concat hi with hi | ⟨rfl, rfl⟩
    · obtain ⟨hlt, -⟩ := List.getElem?_eq_some_iff.mp hi
      rw [if_neg (by omega), append_nil]
      exact h.complete i r' hi
    · rw [if_pos rfl]
      exact hd
  · intro i hi
    rw [length_append, length_singleton] at hi
    rw [hto, if_neg (by omega), append_nil]
    exact h.later i (by omega)
  · left
    exact ⟨rfl, by rw [length_append]; exact hpending.streams, rs, rfl⟩
  · rw [length_append]
    refine .between hat hreturning { hidle with } rfl ?_
    rw [hto, if_neg (by simp), append_nil]
    exact h.later _ (by simp)
  · have hreceived := h.received
    rw [hreading, getD_some] at hreceived
    rw [flatMap_append, flatMap_singleton, ← hpart, append_nil]
    simpa [s', s₁, goesOn] using hreceived

end ClientConnectionImpl

end Meliproxy.Envoy.Http.Http1
