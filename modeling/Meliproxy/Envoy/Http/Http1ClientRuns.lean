import Meliproxy.Envoy.Http.Http1ClientCallbacks

/-!
# Responses of the HTTP/1 codec

If the request is complete when the headers of a response to a `HEAD` request have been passed on,
or that response is seen to be empty without it, each decoder gets the response to its request.
-/

namespace Meliproxy.Envoy.Http.Http1

open Lib List Option

namespace ClientConnectionImpl

variable {p : HttpParser} {At : p.State → Pos → Prop} {responses : List Response}
  {s s' : ClientConnectionImpl p} {k : Nat} {r : Response} {part left data used rest : Bytes}
  {done : List Response} {pos : Pos} {resume : Bool → p.State}

theorem Live.callback (h : Live At responses s done part pos) (hreturning : s.returning = none)
    (hreading : s.reading = some (used ++ rest))
    (hneed : s.pendingResponses = [] → used ++ rest = []) {c : Callback} {next : Bool → Pos}
    (hmakes : Makes pos used c next) (hat : ∀ skipBody, At (resume skipBody) (next skipBody)) :
    ∃ s' done' part' pos', onCallback { s with reading := some rest } resume c = some s' ∧
      Live At responses s' done' part' pos' := by
  cases hmakes with
  | messageBegin rs hused hhead =>
    have hpending : s.pendingResponses ≠ [] := fun hnil =>
      hused (append_eq_nil_iff.mp (hneed hnil)).1
    obtain ⟨s', hs', hlive⟩ := h.messageBegin hreturning hreading hpending hused hhead (hat false)
    exact ⟨s', _, _, _, hs', hlive⟩
  | header used left hspells =>
    obtain ⟨s', hs', hlive⟩ := h.header hreturning hreading hspells (hat false)
    exact ⟨s', _, _, _, hs', hlive⟩
  | headersComplete r used rs =>
    obtain ⟨s', hs', hlive⟩ := h.headersComplete hreturning hreading hat
    exact ⟨s', _, _, _, hs', hlive⟩
  | body r used left more rs hdata =>
    obtain ⟨s', hs', hlive⟩ := h.body hreturning hreading hdata (hat false)
    exact ⟨s', _, _, _, hs', hlive⟩
  | trailer r used left data rs hc =>
    obtain ⟨s', hs', hlive⟩ := h.trailer hreturning hreading hc (hat false)
    exact ⟨s', _, _, _, hs', hlive⟩
  | messageComplete used rs hopen =>
    obtain ⟨s', hs', hlive⟩ := h.messageComplete hreturning hreading hopen (hat false)
    exact ⟨s', _, _, _, hs', hlive⟩

theorem Live.proceed (hfollows : p.Follows At) (h : Live At responses s done part pos)
    (hpossible : s.Possible responses .proceed) :
    ∃ s' done' part' pos', s.step .proceed = some s' ∧ Live At responses s' done' part' pos' := by
  obtain ⟨hsome, hnone, hneed⟩ := hpossible
  obtain ⟨slice, hreading⟩ := isSome_iff_exists.mp hsome
  have hreturning : s.returning = none := isNone_iff_eq_none.mp hnone
  obtain ⟨hat, hfound⟩ := h.stage.at hreturning
  have hslice := h.slice
  rw [hreading, getD_some] at hslice
  have hfits := hfollows.execute s.parser pos slice hat hfound hslice
  rw [step, hreading]
  simp only [bind, Option.bind]
  cases hexecute : p.execute s.parser slice with
  | readAll state =>
    rw [hexecute] at hfits
    obtain ⟨pos', hquiet, hat'⟩ := hfits
    obtain ⟨part', hlive⟩ := h.readAll hreturning hreading hquiet hat'
    exact ⟨_, done, part', pos', rfl, hlive⟩
  | callback call rest resume =>
    rw [hexecute] at hfits
    obtain ⟨used, next, rfl, hmakes, hat'⟩ := hfits
    refine h.callback hreturning hreading (fun hnil => ?_) hmakes hat'
    have hempty := hneed (List.isEmpty_iff.mpr hnil)
    rw [hreading] at hempty
    exact Option.some.inj hempty
  | error =>
    rw [hexecute] at hfits
    exact hfits.elim

theorem Live.callbackReturns (h : Live At responses s done part pos)
    (hpossible : s.Possible responses .callbackReturns)
    (hintime : s.InTime responses .callbackReturns) :
    ∃ s' part' pos', s.step .callbackReturns = some s' ∧ Live At responses s' done part' pos' := by
  obtain ⟨resume', hresume⟩ := isSome_iff_exists.mp hpossible
  have hstage := h.stage
  cases hstage with
  | between _ hreturning | head _ hreturning | body _ hreturning => simp [hreturning] at hresume
  | @headers r resume rs hreturning hat hstatus hidle hsent hcannot =>
    obtain ⟨head, encoder, hpending⟩ := h.pending (by simp)
    have hr := h.current rfl
    have hdecided : s.cannotHaveBody = r.endsAtHead ∨ r.framing = .empty := by
      rw [cannotHaveBody_eq hpending.pending, hstatus]
      cases hdecided : hasNoBody head r.status with
      | true => exact .inl (hpending.endsAtHead hr hdecided).symm
      | false =>
        rw [InTime, hpending.streams, Nat.add_sub_cancel] at hintime
        cases hends : r.endsAtHead with
        | false => exact .inl rfl
        | true =>
          simp only [Response.endsAtHead, hasNoBody, Bool.or_eq_true, decide_eq_true_eq,
            Bool.or_eq_false_iff, decide_eq_false_iff_not] at hends hdecided
          obtain ⟨⟨hhead, h204⟩, h304⟩ := hdecided
          rcases hends with (hrequest | hstatus) | hstatus
          · rcases hintime r hr hrequest with hcomplete | hstatus | hstatus | hempty
            · rw [← hpending.complete r hr hcomplete, hhead] at hrequest
              cases hrequest
            · exact absurd hstatus h204
            · exact absurd hstatus h304
            · exact .inr hempty
          · exact absurd hstatus h204
          · exact absurd hstatus h304
    have hbody := hat s.cannotHaveBody
    rw [Pos.afterHead, if_pos hdecided] at hbody
    have hstage' : Stage At (s.returned resume) done.length r.head (.body r r.raw r.body rs) :=
      .body hbody rfl { hidle with } rfl (by
        cases hsent with
        | deferred hm hdeferred hnone hbody hdata => exact .deferred hm hdeferred hnone hbody hdata
        | passed hm hdeferred chunks hsent hbody => exact .passed hm hdeferred chunks hsent hbody)
        rfl r.head_ne
    refine ⟨s.returned resume, _, _, by rw [step, hreturning]; rfl,
      h.progress hstage' ⟨rfl, rfl, rfl, rfl, rfl, rfl, fun _ _ => rfl⟩ rfl
        (.inl (by simp [hpending.pending])) rfl fun hnone => ?_⟩
    rw [(h.waiting hnone).1] at hreturning
    cases hreturning

variable {read : List Response}

theorem left_of_whole (hlong : done ++ [r] <+: read)
    (hwhole : read.flatMap Response.bytes <+: done.flatMap Response.bytes ++ part)
    (hpart : part ++ left = r.bytes) : read = done ++ [r] ∧ left = [] := by
  obtain ⟨more, rfl⟩ := hlong
  have hlength := hwhole.length_le
  simp only [flatMap_append, flatMap_singleton, ← hpart, length_append] at hlength
  have hmore : more.flatMap Response.bytes = [] := length_eq_zero_iff.mp (by omega)
  refine ⟨?_, length_eq_zero_iff.mp (by omega)⟩
  cases more with
  | nil => rw [append_nil]
  | cons r' more =>
    rw [flatMap_cons, append_eq_nil_iff, Response.bytes, append_eq_nil_iff] at hmore
    exact absurd hmore.1.1 r'.head_ne

/-- A response can have been read to its end and not be complete only if the end of the connection
completes it. -/
theorem Live.at_end (h : Live At responses s done part pos) (hreading : s.reading = none)
    (hread : read <+: responses) (hlong : done.length < read.length)
    (hwhole : read.flatMap Response.bytes <+: s.received) :
    ∃ r rs, read = done ++ [r] ∧ r.closes = true ∧ pos = .body r [] [] rs := by
  rw [h.received, hreading, getD_none, append_nil] at hwhole
  rw [h.split] at hread
  have hnext : ∀ r rs, pos.responses = r :: rs → done ++ [r] <+: read := by
    intro r rs hpos
    rw [hpos] at hread
    exact prefix_of_prefix_length_le ⟨rs, by simp⟩ hread (by simp; omega)
  obtain ⟨-, hwaiting⟩ := h.waiting hreading
  have hstage := h.stage
  cases hstage with
  | @between rs =>
    cases rs with
    | nil =>
      have := hread.length_le
      simp only [Pos.responses, append_nil] at this
      omega
    | cons r rs =>
      obtain ⟨-, hnone⟩ := left_of_whole (hnext r rs rfl) hwhole (nil_append r.bytes)
      exact absurd (append_eq_nil_iff.mp hnone).1 r.head_ne
  | @head r part left told inName rs _ _ _ _ _ hpart =>
    have hall : part ++ (left ++ r.raw) = r.bytes := by
      rw [← append_assoc, hpart]
      rfl
    obtain ⟨-, hnone⟩ := left_of_whole (hnext r rs rfl) hwhole hall
    exact absurd (append_eq_nil_iff.mp hnone).1 hwaiting
  | headers hreturning => exact absurd rfl hwaiting
  | @body r part left data rs _ _ _ _ _ hpart =>
    obtain ⟨hall, rfl⟩ := left_of_whole (hnext r rs rfl) hwhole hpart
    rcases hwaiting with hleft | ⟨hcloses, rfl⟩
    · exact absurd rfl hleft
    · exact ⟨r, rs, hall, hcloses, rfl⟩

theorem Sent.begun (h : s.Sent k r data) : Begun r (s.deliveriesTo k) := by
  cases h with
  | deferred hm hdeferred hnone =>
    rw [hnone]
    exact .nothing
  | passed hm hdeferred chunks hsent hbody =>
    rw [hsent]
    exact .headers hm chunks hbody

theorem Stage.begun (h : Stage At s k part pos) : (s.deliveriesTo k = [] ∨ pos.responses ≠ []) ∧
      ∀ r rs, pos.responses = r :: rs → Begun r (s.deliveriesTo k) := by
  cases h with
  | between _ _ _ _ hnone | head _ _ _ _ hnone =>
    rw [hnone]
    exact ⟨.inl rfl, fun _ _ _ => .nothing⟩
  | headers _ _ _ _ hsent | body _ _ _ _ hsent =>
    refine ⟨.inr (cons_ne_nil _ _), fun r' rs' hpos => ?_⟩
    obtain ⟨rfl, -⟩ := List.cons.inj hpos
    exact hsent.begun

theorem Live.paired (h : Live At responses s done part pos) (hreading : s'.reading = s.reading)
    (hreceived : s'.received = s.received)
    (hothers : ∀ i, i ≠ done.length → s'.deliveriesTo i = s.deliveriesTo i)
    (hcurrent : s'.deliveriesTo done.length = s.deliveriesTo done.length ∧
        (s'.closed = false ∨ ∀ r rs, pos ≠ .body r [] [] rs) ∨
      ∃ r rs, pos.responses = r :: rs ∧ Complete r (s'.deliveriesTo done.length)) :
    Paired responses s' := by
  have hbefore : ∀ i r, i < done.length → responses[i]? = some r → Complete r (s'.deliveriesTo i) := by
    intro i r hi hr
    rw [hothers i (by omega)]
    rw [h.split, getElem?_append_left hi] at hr
    exact h.complete i r hr
  have hnext : ∀ r, responses[done.length]? = some r → ∃ rs, pos.responses = r :: rs := by
    intro r hr
    rw [h.split, getElem?_append_right (Nat.le_refl _), Nat.sub_self] at hr
    cases hpos : pos.responses with
    | nil => simp [hpos] at hr
    | cons r' rs =>
      rw [hpos, getElem?_cons_zero, some_inj] at hr
      exact ⟨rs, by rw [hr]⟩
  have hlater : ∀ i, done.length < i → s'.deliveriesTo i = [] := fun i hi =>
    (hothers i (by omega)).trans (h.later i hi)
  refine ⟨fun i r hr => ?_, fun i hr => ?_, fun i r hr hnone hwhole hclosed => ?_⟩
  · rcases Nat.lt_trichotomy i done.length with hi | rfl | hi
    · exact .inr (hbefore i r hi hr)
    · obtain ⟨rs, hpos⟩ := hnext r hr
      rcases hcurrent with ⟨hsame, -⟩ | ⟨r', rs', hpos', hcomplete⟩
      · rw [hsame]
        exact .inl (h.stage.begun.2 r rs hpos)
      · obtain ⟨rfl, -⟩ := List.cons.inj (hpos.symm.trans hpos')
        exact .inr hcomplete
    · rw [hlater i hi]
      exact .inl .nothing
  · have hlength := List.getElem?_eq_none_iff.mp hr
    rw [h.split, length_append] at hlength
    rcases Nat.lt_or_eq_of_le (Nat.le_of_add_right_le hlength) with hi | rfl
    · exact hlater i hi
    · have hpos : pos.responses = [] := length_eq_zero_iff.mp (by omega)
      rcases hcurrent with ⟨hsame, -⟩ | ⟨r', rs', hpos', -⟩
      · rw [hsame]
        exact h.stage.begun.1.resolve_right fun hne => hne hpos
      · rw [hpos] at hpos'
        cases hpos'
  · rcases Nat.lt_or_ge i done.length with hi | hi
    · exact hbefore i r hi hr
    · obtain ⟨hlt, -⟩ := List.getElem?_eq_some_iff.mp hr
      rw [hreceived] at hwhole
      obtain ⟨r', rs, hread, hcloses, hpos⟩ := h.at_end (hreading.symm.trans hnone)
        (List.take_prefix _ _) (by rw [length_take]; omega) hwhole
      have hlength := congrArg List.length hread
      rw [length_take, length_append, length_singleton] at hlength
      obtain rfl : i = done.length := by omega
      obtain ⟨rs', hpos'⟩ := hnext r hr
      obtain ⟨rfl, -⟩ := List.cons.inj (hpos'.symm.trans (congrArg Pos.responses hpos))
      rcases hcurrent with ⟨-, hopen | hother⟩ | ⟨r', rs', hpos'', hcomplete⟩
      · rw [hclosed hcloses] at hopen
        cases hopen
      · exact absurd hpos (hother r rs)
      · obtain ⟨rfl, -⟩ := List.cons.inj (hpos'.symm.trans hpos'')
        exact hcomplete

theorem Live.disconnect (hfollows : p.Follows At) (h : Live At responses s done part pos)
    (hpossible : s.Possible responses .disconnect) :
    ∃ s', s.step .disconnect = some s' ∧ s'.closed = true ∧ s'.reading = none ∧
      s'.returning = none ∧ Paired responses s' := by
  obtain ⟨-, hreading, hmem⟩ := hpossible
  obtain ⟨read, hread, hwhole⟩ := List.mem_map.mp hmem
  rw [mem_inits] at hread
  obtain ⟨hreturning, hwaiting⟩ := h.waiting hreading
  have hstage := h.stage
  rcases Nat.lt_or_ge done.length read.length with hlong | hshort
  · -- The response in progress ends with the connection.
    obtain ⟨r, rs, -, hcloses, rfl⟩ := h.at_end hreading hread hlong (hwhole ▸ prefix_rfl)
    obtain ⟨head, encoder, hpending⟩ := h.pending (by simp)
    obtain ⟨hidle, hstate, hsent, -, -⟩ := hstage.of_body
    let s₁ : ClientConnectionImpl p := { s with closed := true }
    have hsent₁ : s₁.Sent done.length r [] := hsent.same ⟨rfl, rfl, rfl, rfl, rfl, rfl⟩
    obtain ⟨d, hcomplete, hd⟩ := complete_message (s := s₁) hpending.pending hsent₁
    let s' : ClientConnectionImpl p :=
      { s₁ with
        pendingResponses := []
        deferredEndStreamHeaders := none
        delivered := s.delivered ++ [(done.length, d)] }
    have hto : ∀ i, s'.deliveriesTo i = s.deliveriesTo i ++ if done.length = i then [d] else [] :=
      deliveriesTo_concat rfl
    have hend := hfollows.atEnd s.parser r rs (hstage.at hreturning).1 hcloses
    refine ⟨s', ?_, rfl, hreading, hreturning, ?_⟩
    · rw [step]
      simp only [hend, if_true]
      exact congrArg some hcomplete
    · refine h.paired rfl rfl (fun i hi => ?_) (.inr ⟨r, rs, rfl, ?_⟩)
      · rw [hto, if_neg (Ne.symm hi), append_nil]
      · rw [hto, if_pos rfl]
        exact hd
  · -- There is no response in progress.
    have hpart : part = [] := by
      have hread' : read <+: done := by
        rw [h.split] at hread
        exact prefix_of_prefix_length_le hread (prefix_append _ _) hshort
      obtain ⟨more, rfl⟩ := hread'
      have hreceived := h.received
      rw [hreading, getD_none, append_nil, ← hwhole, flatMap_append, append_assoc] at hreceived
      exact (append_eq_nil_iff.mp (self_eq_append_right.mp hreceived)).2
    cases hstage with
    | @between rs hat =>
      let s' : ClientConnectionImpl p := { s with closed := true }
      have hend := hfollows.between s.parser rs hat
      refine ⟨s', ?_, rfl, hreading, hreturning, ?_⟩
      · rw [step]
        simp only [hend, Bool.false_eq_true, if_false]
        rfl
      · exact h.paired rfl rfl (fun _ _ => rfl) (.inl ⟨rfl, .inr fun r rs => by simp⟩)
    | head _ _ _ _ _ _ hne => exact absurd hpart hne
    | headers hsome => simp [hreturning] at hsome
    | body _ _ _ _ _ _ hne => exact absurd hpart hne

/-- The connection is up and the responses come, or it is closed. -/
def Inv (At : p.State → Pos → Prop) (responses : List Response) (s : ClientConnectionImpl p) : Prop :=
  (∃ done part pos, Live At responses s done part pos) ∨
    (s.closed = true ∧ s.reading = none ∧ s.returning = none ∧ Paired responses s)

theorem Inv.step (hfollows : p.Follows At) {e : Event} (h : Inv At responses s)
    (hpossible : s.Possible responses e) (hintime : s.InTime responses e) :
    ∃ s', s.step e = some s' ∧ Inv At responses s' := by
  rcases h with ⟨done, part, pos, h⟩ | ⟨hclosed, hreading, hreturning, -⟩
  · cases e with
    | newStream => exact ⟨s.newStream, rfl, .inl ⟨done, part, pos, h.newStream hpossible⟩⟩
    | encodeHeaders headers endStream =>
      obtain ⟨s', hs', hlive⟩ := h.encodeHeaders hpossible
      exact ⟨s', hs', .inl ⟨done, part, pos, hlive⟩⟩
    | encodeData data endStream =>
      obtain ⟨encoder, s', hencoder, hs', hlive⟩ :=
        h.encodeRest hpossible fun stream => stream.encodeData data endStream
      refine ⟨s', ?_, .inl ⟨done, part, pos, hlive⟩⟩
      rw [ClientConnectionImpl.step, hencoder]
      exact hs'
    | encodeTrailers =>
      obtain ⟨encoder, s', hencoder, hs', hlive⟩ :=
        h.encodeRest hpossible fun stream => stream.encodeTrailers
      refine ⟨s', ?_, .inl ⟨done, part, pos, hlive⟩⟩
      rw [ClientConnectionImpl.step, hencoder]
      exact hs'
    | dispatchSlice slice =>
      exact ⟨_, rfl, .inl ⟨done, part, pos, h.dispatchSlice hpossible⟩⟩
    | proceed =>
      obtain ⟨s', done', part', pos', hs', hlive⟩ := h.proceed hfollows hpossible
      exact ⟨s', hs', .inl ⟨done', part', pos', hlive⟩⟩
    | callbackReturns =>
      obtain ⟨s', part', pos', hs', hlive⟩ := h.callbackReturns hpossible hintime
      exact ⟨s', hs', .inl ⟨done, part', pos', hlive⟩⟩
    | disconnect =>
      obtain ⟨s', hs', hclosed, hreading, hreturning, hpaired⟩ := h.disconnect hfollows hpossible
      exact ⟨s', hs', .inr ⟨hclosed, hreading, hreturning, hpaired⟩⟩
  · -- Nothing happens on a closed connection.
    cases e with
    | newStream | encodeHeaders | encodeData | encodeTrailers | dispatchSlice | disconnect =>
      have hopen := hpossible.1
      rw [hclosed] at hopen
      cases hopen
    | proceed =>
      have hsome := hpossible.1
      rw [hreading] at hsome
      cases hsome
    | callbackReturns =>
      rw [Possible, hreturning] at hpossible
      cases hpossible

theorem inv_create (hstart : At p.init (.between responses)) : Inv At responses (create p) :=
  .inl ⟨[], [], .between responses, {
    split := rfl
    opened := rfl
    open_done := nofun
    complete := nofun
    later := fun _ _ => rfl
    requests := .inl ⟨rfl, rfl, responses, rfl⟩
    stage := .between hstart rfl ⟨rfl, HeaderString.holds_new, HeaderString.holds_new⟩ rfl rfl
    received := rfl
    stream := nil_prefix
    waiting := fun _ => ⟨rfl, trivial⟩ }⟩

/-- Each response goes to the decoder of its request: its headers, its body and one end. -/
theorem responses_paired (hfollows : p.Follows At) (hstart : At p.init (.between responses))
    {es : List Event}
    (hmeet : AllMeet step (fun s e => s.Possible responses e ∧ s.InTime responses e) (create p) es) :
    ∃ s, run step (create p) es = some s ∧ Paired responses s := by
  obtain ⟨s, hrun, hinv⟩ := run_safe (fun s e hinv hmeet => Inv.step hfollows hinv hmeet.1 hmeet.2)
    (inv_create hstart) hmeet
  refine ⟨s, hrun, ?_⟩
  rcases hinv with ⟨done, part, pos, hlive⟩ | ⟨-, -, -, hpaired⟩
  · exact hlive.paired rfl rfl (fun _ _ => rfl) (.inl ⟨rfl, .inl hlive.opened⟩)
  · exact hpaired

end ClientConnectionImpl

/-- The states of a parser that knows the responses: which fields it has told, and which not. -/
inductive Script where
  | between (rs : List Response)
  | inHead (r : Response) (left : Bytes) (told todo : List (Bytes × Bytes)) (rs : List Response)
  | inField (r : Response) (left : Bytes) (told : List (Bytes × Bytes)) (field : Bytes × Bytes)
      (todo : List (Bytes × Bytes)) (rs : List Response)
  | inBody (r : Response) (left data : Bytes) (rs : List Response)
  | lost

namespace Script

def afterHead (r : Response) (rs : List Response) (skipBody : Bool) : Script :=
  if skipBody = r.endsAtHead ∨ r.framing = .empty then .inBody r r.raw r.body rs else .lost

/-- The fields are told when the header block has been read, and the body when it has. -/
def execute : Script → Bytes → Execution Script
  | .between (r :: rs), _ :: rest =>
    .callback .messageBegin rest fun _ => .inHead r r.head.tail [] r.fields rs
  | .between rs, _ => .readAll (.between rs)
  | .inHead r left told todo rs, slice =>
    if slice.length < left.length then .readAll (.inHead r (left.drop slice.length) told todo rs)
    else
      match todo with
      | [] => .callback (.headersComplete r.status) (slice.drop left.length) (afterHead r rs)
      | f :: todo => .callback (.headerField f.1) slice fun _ => .inField r left told f todo rs
  | .inField r left told f todo rs, slice =>
    .callback (.headerValue f.2) slice fun _ => .inHead r left (told ++ [f]) todo rs
  | .inBody r left data rs, slice =>
    if slice.length < left.length then .readAll (.inBody r (left.drop slice.length) data rs)
    else if data ≠ [] then
      .callback (.body data) (slice.drop left.length) fun _ => .inBody r [] [] rs
    else if r.closes then .readAll (.inBody r [] [] rs)
    else .callback .messageComplete (slice.drop left.length) fun _ => .between rs
  | .lost, _ => .readAll .lost

def atEnd : Script → Bool
  | .inBody r _ _ _ => r.closes
  | _ => false

def parser (responses : List Response) : HttpParser := ⟨Script, .between responses, execute, atEnd⟩

def Named (rs : List Response) : Prop := ∀ r ∈ rs, ∀ f ∈ r.fields, f.1 ≠ []

def At : Script → Pos → Prop
  | .between rs, pos => pos = .between rs ∧ Named rs
  | .inHead r left told todo rs, pos =>
    pos = .head r left told false rs ∧ told ++ todo = r.fields ∧ Named (r :: rs)
  | .inField r left told f todo rs, pos =>
    pos = .head r left (told ++ [(f.1, [])]) true rs ∧ told ++ f :: todo = r.fields ∧ Named (r :: rs)
  | .inBody r left data rs, pos => pos = .body r left data rs ∧ Named rs
  | .lost, pos => pos = .lost

variable {r : Response} {rs : List Response}

theorem named_tail (h : Named (r :: rs)) : Named rs :=
  fun r' hr' => h r' (mem_cons_of_mem r hr')

theorem at_afterHead (r : Response) (h : Named rs) (skipBody : Bool) :
    At (afterHead r rs skipBody) (Pos.afterHead r rs skipBody) := by
  rw [afterHead, Pos.afterHead]
  split
  · exact ⟨rfl, h⟩
  · rfl

variable {slice : Bytes}

theorem fits_between (hnames : Named rs) (hslice : slice <+: Response.stream rs) :
    (execute (.between rs) slice).Fits At (.between rs) slice := by
  cases slice with
  | nil =>
    cases rs with
    | nil => exact ⟨_, .between [], rfl, hnames⟩
    | cons r rs => exact ⟨_, .between (r :: rs), rfl, hnames⟩
  | cons c rest =>
    cases rs with
    | nil => simp [Response.stream] at hslice
    | cons r rs =>
      obtain ⟨c', tail, hhead⟩ := exists_cons_of_ne_nil r.head_ne
      have hc : c = c' := by
        rw [Response.stream, Response.bytes, hhead] at hslice
        exact (cons_prefix_cons.mp hslice).1
      subst hc
      refine ⟨[c], _, rfl, .messageBegin rs (cons_ne_nil c []) hhead, fun _ => ?_⟩
      rw [hhead]
      exact ⟨rfl, rfl, hnames⟩

variable {left : Bytes}

theorem fits_inHead {told todo : List (Bytes × Bytes)} (hfields : told ++ todo = r.fields)
    (hnames : Named (r :: rs)) (hslice : slice <+: (Pos.head r left told false rs).bytes) :
    (execute (.inHead r left told todo rs) slice).Fits At (.head r left told false rs) slice := by
  rw [Pos.bytes, append_assoc] at hslice
  have hcases := slice_cases hslice
  simp only [execute]
  by_cases hlt : slice.length < left.length
  · rw [if_pos hlt] at hcases ⊢
    have hquiet : Quiet (.head r (slice ++ left.drop slice.length) told false rs) slice _ :=
      .head slice (by simpa using hlt)
    rw [hcases] at hquiet
    exact ⟨_, hquiet, rfl, hfields, hnames⟩
  · rw [if_neg hlt] at hcases ⊢
    cases todo with
    | nil =>
      rw [append_nil] at hfields
      subst hfields
      exact ⟨left, _, hcases.symm, .headersComplete r left rs, at_afterHead r (named_tail hnames)⟩
    | cons f todo =>
      exact ⟨[], _, rfl, .header [] left (.newName told f.1), fun _ => ⟨rfl, hfields, hnames⟩⟩

theorem fits_inBody {data : Bytes} (hnames : Named rs)
    (hslice : slice <+: (Pos.body r left data rs).bytes) :
    (execute (.inBody r left data rs) slice).Fits At (.body r left data rs) slice := by
  have hcases := slice_cases hslice
  rw [execute]
  by_cases hlt : slice.length < left.length
  · rw [if_pos hlt] at hcases ⊢
    have hquiet : Quiet (.body r (slice ++ left.drop slice.length) data rs) slice _ :=
      .body slice (.inl (by simpa using hlt))
    rw [hcases] at hquiet
    exact ⟨_, hquiet, rfl, hnames⟩
  · rw [if_neg hlt] at hcases ⊢
    by_cases hdata : data = []
    · subst hdata
      rw [if_neg (by simp)]
      cases hcloses : r.closes with
      | true =>
        have hleft : slice = left := by
          rw [Pos.bytes, hcloses, if_pos rfl, append_nil] at hslice
          exact hslice.eq_of_length (by have := hslice.length_le; omega)
        have hquiet : Quiet (.body r (slice ++ []) [] rs) slice _ := .body slice (.inr ⟨hcloses, rfl⟩)
        rw [append_nil, hleft] at hquiet
        rw [hleft]
        exact ⟨_, hquiet, rfl, hnames⟩
      | false => exact ⟨left, _, hcases.symm, .messageComplete left rs hcloses, fun _ => ⟨rfl, hnames⟩⟩
    · rw [if_pos hdata]
      have hmakes := Makes.body r left [] [] rs hdata
      rw [append_nil, append_nil] at hmakes
      exact ⟨left, _, hcases.symm, hmakes, fun _ => ⟨rfl, hnames⟩⟩

theorem follows (responses : List Response) : (parser responses).Follows At := by
  refine ⟨fun state pos slice hat hfound hslice => ?_, fun state r rs hat hcloses => ?_,
    fun state rs hat => ?_⟩
  · cases state with
    | between rs =>
      obtain ⟨rfl, hnames⟩ := hat
      exact fits_between hnames hslice
    | inHead r left told todo rs =>
      obtain ⟨rfl, hfields, hnames⟩ := hat
      exact fits_inHead hfields hnames hslice
    | inField r left told f todo rs =>
      obtain ⟨rfl, hfields, hnames⟩ := hat
      have hname : f.1 ≠ [] := hnames r mem_cons_self f (by simp [← hfields])
      refine ⟨[], _, rfl, .header [] left (.value told [] true f.2 hname), fun _ => ⟨rfl, ?_, hnames⟩⟩
      rw [append_assoc]
      exact hfields
    | inBody r left data rs =>
      obtain ⟨rfl, hnames⟩ := hat
      exact fits_inBody hnames hslice
    | lost => exact absurd hat hfound
  · cases state with
    | inBody r' left data rs' =>
      obtain ⟨hpos, -⟩ := hat
      injection hpos with hr
      exact hr ▸ hcloses
    | between | inHead | inField =>
      obtain ⟨hpos, -⟩ := hat
      cases hpos
    | lost => exact Pos.noConfusion hat
  · cases state with
    | between | inHead | inField | inBody =>
      obtain ⟨hpos, -⟩ := hat
      cases hpos
      try rfl
    | lost => rfl

end Script

def headResponse : Response where
  headRequest := true
  status := 200
  fields := [(ascii "content-length", ascii "5")]
  framing := .delimited
  head := ascii "HTTP/1.1 200 OK\r\ncontent-length: 5\r\n\r\n"
  raw := []
  body := []
  head_ne := by decide +kernel
  noBody := fun _ => ⟨rfl, rfl⟩
  empty := fun _ => ⟨rfl, rfl⟩

def getResponse : Response where
  headRequest := false
  status := 200
  fields := [(ascii "content-length", ascii "2")]
  framing := .delimited
  head := ascii "HTTP/1.1 200 OK\r\ncontent-length: 2\r\n\r\n"
  raw := ascii "ab"
  body := ascii "ab"
  head_ne := by decide +kernel
  noBody := fun h => absurd h (by decide)
  empty := fun h => absurd h (by decide)

def requestHeaders (method : Bytes) : Headers :=
  ⟨(HeaderMap.new.maybeCreateInline .method ⟨.inline, method⟩).maybeCreateInline .path
      ⟨.inline, ascii "/"⟩,
    HeaderMap.consistent_maybeCreateInline
      (HeaderMap.consistent_maybeCreateInline HeaderMap.consistent_new .method _) .path _⟩

def sampleEvents : List Event :=
  [.newStream, .encodeHeaders (requestHeaders (ascii "HEAD")) true,
    .dispatchSlice headResponse.head, .proceed, .proceed, .proceed, .proceed, .callbackReturns,
    .proceed, .proceed,
    .newStream, .encodeHeaders (requestHeaders (ascii "GET")) false,
    .dispatchSlice getResponse.head, .proceed, .proceed, .proceed, .proceed, .callbackReturns,
    .proceed, .encodeData (ascii "x") true,
    .dispatchSlice getResponse.raw, .proceed, .proceed, .proceed, .disconnect]

theorem sampleResponses_paired : ∃ s, run ClientConnectionImpl.step
        (.create (Script.parser [headResponse, getResponse])) sampleEvents = some s ∧
      s.Paired [headResponse, getResponse] := by
  have hnames : Script.Named [headResponse, getResponse] := by unfold Script.Named; decide +kernel
  have hmeet : AllMeet ClientConnectionImpl.step
      (fun s e => s.Possible [headResponse, getResponse] e ∧ s.InTime [headResponse, getResponse] e)
      (.create (Script.parser [headResponse, getResponse])) sampleEvents := by
    decide +kernel
  exact ClientConnectionImpl.responses_paired (Script.follows _) ⟨rfl, hnames⟩ hmeet

def earlyHeadResponse : List Event :=
  [.newStream, .encodeHeaders (requestHeaders (ascii "HEAD")) false,
    .dispatchSlice headResponse.head, .proceed, .proceed, .proceed, .proceed, .callbackReturns,
    .proceed, .encodeTrailers]

def Delivery.endStream : Delivery → Bool
  | .headers _ endStream => endStream
  | .data _ endStream => endStream

theorem Complete.ends {r : Response} {ds : List Delivery} (h : Complete r ds) :
    ∃ d ∈ ds, d.endStream = true := by
  cases h with
  | headersOnly hm hbody => exact ⟨_, mem_singleton_self _, rfl⟩
  | withBody hm chunks hbody => exact ⟨.data [] true, by simp, rfl⟩

/-- The response is never complete for its decoder. -/
theorem earlyHeadResponse_not_paired : (Script.parser [headResponse]).Follows Script.At ∧
      Script.At (Script.parser [headResponse]).init (.between [headResponse]) ∧
        AllMeet ClientConnectionImpl.step (fun s e => s.Possible [headResponse] e)
          (.create (Script.parser [headResponse])) earlyHeadResponse ∧
            ∃ s, run ClientConnectionImpl.step (.create (Script.parser [headResponse]))
              earlyHeadResponse = some s ∧ ¬s.Paired [headResponse] := by
  have hnames : Script.Named [headResponse] := by unfold Script.Named; decide +kernel
  refine ⟨Script.follows _, ⟨rfl, hnames⟩, by decide +kernel, ?_⟩
  have hrun : (run ClientConnectionImpl.step (.create (Script.parser [headResponse]))
      earlyHeadResponse).map (fun s =>
        (s.reading, s.received, (s.deliveriesTo 0).map Delivery.endStream)) =
      some (none, headResponse.head, [false]) := by
    decide +kernel
  obtain ⟨s, hs, hstate⟩ := map_eq_some_iff.mp hrun
  obtain ⟨hreading, hrest⟩ := Prod.mk.inj hstate
  obtain ⟨hreceived, hends⟩ := Prod.mk.inj hrest
  refine ⟨s, hs, fun hpaired => ?_⟩
  have hcomplete := hpaired.whole 0 headResponse rfl hreading (by
    rw [hreceived]
    exact prefix_rfl) fun hcloses => absurd hcloses (by decide)
  obtain ⟨d, hd, hend⟩ := hcomplete.ends
  have hmem := List.mem_map_of_mem (f := Delivery.endStream) hd
  rw [hends, hend] at hmem
  cases mem_singleton.mp hmem

end Meliproxy.Envoy.Http.Http1
