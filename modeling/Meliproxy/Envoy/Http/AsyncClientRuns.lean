import Meliproxy.Envoy.Http.AsyncClientSteps
import Meliproxy.Lib.Count

/-!
# Runs of an HTTP stream

What a user is called back about a stream or a request, over any order of answers of the router and
calls.
-/

namespace Meliproxy.Envoy.Http

open Lib List Option

namespace AsyncRun

variable {s s' : AsyncRun} {call : AsyncCall} {stack : List AsyncCall}

section Pop

variable (hstack : s.stack = call :: stack)
include hstack

theorem mem_of_pop {c : AsyncCall} (hc : c ∈ stack) : c ∈ s.stack :=
  hstack ▸ mem_cons_of_mem _ hc

theorem Listed.pop (h : s.Listed) : Listed { s with stack } := by
  have hbottom := h.bottom
  rw [hstack] at hbottom
  exact { h with
      bottom := (pairwise_cons.mp hbottom).2
      starting := fun hout c hc => h.starting hout c (mem_of_pop hstack hc) }

theorem Silent.pop (h : s.Silent) : Silent { s with stack } :=
  ⟨h.quiet, h.closed, fun c hc => h.closing c (mem_of_pop hstack hc), h.silent⟩

theorem Ended.pop (h : s.Ended) : Ended { s with stack } := by
  have hone := h.one
  have hunder := h.under
  rw [hstack] at hone hunder
  exact ⟨fun c hc => h.ends c (mem_of_pop hstack hc),
    Nat.le_trans (sublist_cons_self call stack).countP_le hone, h.unsent,
    fun hmem => h.body (mem_of_pop hstack hmem), h.headers, (pairwise_cons.mp hunder).2,
    h.failed⟩

theorem Requests.pop (h : s.Requests) : Requests { s with stack } :=
  { h with
    ends := fun hrequest c hc => h.ends hrequest c (mem_of_pop hstack hc)
    starting := fun c hc => h.starting c (mem_of_pop hstack hc) }

theorem Kept.pop (h : s.Kept) (hcall : call.closing = false) : Kept { s with stack } := by
  refine ⟨h.listed.pop hstack, h.silent.pop hstack, h.ended.pop hstack, h.requests.pop hstack,
    ⟨h.settled.left, h.settled.complete, fun hlog => ?_⟩⟩
  obtain hremote | ⟨c, hc, hclosing⟩ := h.settled.waiting hlog
  · exact .inl hremote
  · rw [hstack] at hc
    obtain rfl | hc := mem_cons.mp hc
    · cases hcall.symm.trans hclosing
    · exact .inr ⟨c, hc, hclosing⟩

theorem Ended.pop_ends (h : s.Ended) (hcall : call.ends = true) :
    s.localClosed = false ∧ s.localEnded = true ∧ ∀ c ∈ stack, c.ends = false := by
  have hmem : call ∈ s.stack := hstack ▸ mem_cons_self
  obtain ⟨hlocal, hlocalEnded⟩ := h.ends call hmem hcall
  refine ⟨hlocal, hlocalEnded, fun c hc => ?_⟩
  have hone := h.one
  rw [hstack, countP_cons_of_pos hcall] at hone
  have hzero : stack.countP AsyncCall.ends = 0 := by omega
  simpa using countP_eq_zero.mp hzero c hc

theorem Kept.sending (h : s.Kept) (hcall : call.starting = true) :
    stack = [] ∧ s.handed = false ∧ s.null = false ∧ s.request = true := by
  have hmem : call ∈ s.stack := hstack ▸ mem_cons_self
  have hbottom := h.listed.bottom
  rw [hstack] at hbottom
  have hfirst : ¬ (s.handed = true ∨ s.null = true) := fun hout =>
    absurd ((h.listed.starting hout call hmem).symm.trans hcall) (by decide)
  refine ⟨?_, ?_, ?_, h.requests.starting call hmem hcall⟩
  · cases stack with
    | nil => rfl
    | cons c rest =>
      have hnone := (pairwise_cons.mp hbottom).1 c mem_cons_self
      cases hnone.symm.trans hcall
  · simpa using fun htrue => hfirst (.inl htrue)
  · simpa using fun htrue => hfirst (.inr htrue)

end Pop

theorem Kept.delivered (h : s.Kept) (hstack : s.stack = []) (hhanded : s.handed = false)
    (hrequest : s.request = true) : s.log.any AsyncReport.isOutcome = s.remoteClosed := by
  cases hremote : s.remoteClosed with
  | true =>
    have hlog := (h.silent.closed hremote).2
    unfold Quiet at hlog
    push Not at hlog
    obtain ⟨report, hmem, hterminal⟩ := hlog
    refine any_eq_true.mpr ⟨report, hmem, ?_⟩
    have hcallback : report.isCallback = true := by
      cases report with
      | cancel => exact absurd hmem (h.requests.cancel hhanded)
      | removed | released => exact absurd rfl hterminal
      | _ => rfl
    exact h.requests.outcome hrequest report hmem hcallback
  | false =>
    have hquiet : Quiet s.log := by
      by_contra hlog
      obtain htrue | ⟨c, hc, -⟩ := h.settled.waiting hlog
      · cases hremote.symm.trans htrue
      · rw [hstack] at hc
        cases hc
    refine any_eq_false.mpr fun report hmem houtcome => ?_
    have hterminal : report.terminal = true := by
      cases report <;> first | rfl | cases houtcome
    cases (hquiet report hmem).symm.trans hterminal

theorem Kept.finishSend (h : s.Kept) (hstack : s.stack = []) (hhanded : s.handed = false)
    (hnull : s.null = false) (hrequest : s.request = true) : s.finishSend.Kept := by
  have hdelivered := h.delivered hstack hhanded hrequest
  have hout : s.inserted = false := by
    cases hinserted : s.inserted with
    | false => rfl
    | true => cases hhanded.symm.trans (h.listed.inserted hinserted)
  have hremoved := h.listed.removed
  have hreleased := h.listed.released
  simp only [hhanded, hnull, Bool.false_eq_true, false_and, or_self_iff, if_false] at hremoved hreleased
  unfold AsyncRun.finishSend
  dsimp only
  split
  · rename_i hremote
    have hopen : s.remoteClosed = false := by simpa using hremote
    refine ⟨⟨h.listed.bottom, fun _ c hc => ?_, fun hnull' => ?_, fun _ => rfl, ?_, ?_⟩,
      { h.silent with }, { h.ended with },
      { h.requests with cancel := fun hfalse => (by cases hfalse), returned := fun _ _ => ?_ },
      ⟨fun _ hfalse => (by cases hfalse), fun _ htrue => absurd htrue hremote, h.settled.waiting⟩⟩
    · rw [hstack] at hc
      cases hc
    · cases hnull.symm.trans hnull'
    · simpa using hremoved
    · simpa [hnull] using hreleased
    · rw [hdelivered, hopen]
      exact hnull
  · rename_i hremote
    have hclosed : s.remoteClosed = true := by simpa using hremote
    obtain ⟨hdone, hlog⟩ := h.silent.closed hclosed
    have hquiet : ∀ log : List AsyncReport, Quiet (.released :: log) ↔ Quiet log :=
      fun _ => quiet_cons rfl
    rw [cleanup_eq]
    simp only [hout, Bool.false_eq_true, if_false]
    refine ⟨⟨h.listed.bottom, fun _ c hc => ?_, fun _ => hhanded, fun hin => ?_, ?_, ?_⟩,
      ⟨fun hdone hdestroyed => (hquiet _).mpr (h.silent.quiet hdone hdestroyed),
        fun _ => ⟨hdone, fun hq => hlog ((hquiet _).mp hq)⟩,
        fun _ _ _ => ⟨hdone, fun hq => hlog ((hquiet _).mp hq)⟩,
        pairwise_cons.mpr ⟨fun _ _ _ => rfl, h.silent.silent⟩⟩,
      { h.ended with ends := fun c hc => ?_, unsent := fun _ => .inr rfl },
      ⟨fun hreq report hr hcallback => ?_, h.requests.ends, h.requests.starting,
        fun hfalse hmem => h.requests.cancel hfalse (by simpa using hmem),
        fun hcancelled hq => h.requests.cancelled hcancelled ((hquiet _).mp hq),
        fun _ _ => (hdelivered.trans hclosed).symm⟩,
      ⟨fun htrue => absurd (hhanded.symm.trans htrue) (by decide), fun _ _ => rfl,
        fun _ => .inl rfl⟩⟩
    · rw [hstack] at hc
      cases hc
    · cases hin
    · simpa [hhanded] using hremoved
    · simp [hreleased]
    · change c ∈ s.stack at hc
      rw [hstack] at hc
      cases hc
    · obtain rfl | hr := mem_cons.mp hr
      · cases hcallback
      · exact h.requests.outcome hreq report hr hcallback

theorem closeLocal_sending (s : AsyncRun) (endStream : Bool) :
    (s.closeLocal endStream).stack = s.stack ∧ (s.closeLocal endStream).handed = s.handed ∧
      (s.closeLocal endStream).null = s.null ∧ (s.closeLocal endStream).request = s.request ∧
      (s.closeLocal endStream).localEnded = s.localEnded := by
  unfold AsyncRun.closeLocal
  dsimp only
  rw [cleanup_eq]
  split
  · split <;> exact ⟨rfl, rfl, rfl, rfl, rfl⟩
  · exact ⟨rfl, rfl, rfl, rfl, rfl⟩

theorem finishClosed {endStream : Bool} (hclose : (s.closeLocal endStream).Kept)
    (hstack : s.stack = []) (hhanded : s.handed = false) (hnull : s.null = false)
    (hrequest : s.request = true) : (s.closeLocal endStream).finishSend.Kept := by
  obtain ⟨hstack', hhanded', hnull', hrequest', -⟩ := closeLocal_sending s endStream
  exact hclose.finishSend (hstack'.trans hstack) (hhanded'.trans hhanded) (hnull'.trans hnull)
    (hrequest'.trans hrequest)

theorem Kept.sendBody (h : s.Kept) (hstack : s.stack = []) (hrequest : s.request = true)
    (hhanded : s.handed = false) (hnull : s.null = false) (hlocalEnded : s.localEnded = false)
    (hremote : s.remoteClosed = false) :
    Kept { s with localEnded := true, stack := [.requestBody] } := by
  have hlocal : s.localClosed = false := by
    cases hlocal : s.localClosed with
    | false => rfl
    | true =>
      obtain htrue | htrue := h.ended.unsent hlocal
      · cases hlocalEnded.symm.trans htrue
      · cases hremote.symm.trans htrue
  refine ⟨{ h.listed with bottom := pairwise_singleton _ _, starting := fun hout => ?_ },
    { h.silent with closing := fun c hc hclosing => ?_ },
    ⟨fun _ _ _ => ⟨hlocal, rfl⟩, Nat.le_refl 1, fun _ => .inl rfl, fun hmem => ?_,
      fun hstream => absurd (hrequest.symm.trans hstream) (by decide), pairwise_singleton _ _,
      h.ended.failed⟩,
    { h.requests with ends := fun _ c hc _ => ?_, starting := fun _ _ _ => hrequest },
    ⟨h.settled.left, h.settled.complete, fun hlog => ?_⟩⟩
  · obtain htrue | htrue := hout
    · cases hhanded.symm.trans htrue
    · cases hnull.symm.trans htrue
  · obtain rfl := mem_singleton.mp hc
    cases hclosing
  · cases mem_singleton.mp hmem
  · obtain rfl := mem_singleton.mp hc
    rfl
  · obtain htrue | ⟨c, hc, -⟩ := h.settled.waiting hlog
    · exact .inl htrue
    · rw [hstack] at hc
      cases hc

theorem Kept.returned (h : s.Kept) (hreturned : s.returned = some s') : s'.Kept := by
  unfold AsyncRun.returned at hreturned
  split at hreturned
  · cases hreturned
  rename_i call stack hstack
  cases hreturned
  have hmem : call ∈ s.stack := hstack ▸ mem_cons_self
  cases call with
  | requestHeaders endStream =>
    obtain ⟨rfl, hhanded, hnull, hrequest⟩ := h.sending hstack rfl
    have hpop := h.pop hstack rfl
    have hlast := h.ended.pop_ends hstack
    have hclose : Kept (AsyncRun.closeLocal { s with stack := [] } endStream) :=
      hpop.closeLocal endStream fun hend => hlast hend
    obtain ⟨hstack', hhanded', hnull', hrequest', hlocalEnded'⟩ :=
      closeLocal_sending { s with stack := [] } endStream
    unfold resume
    dsimp only
    split
    · rename_i hopen
      obtain ⟨hremote, hend⟩ := hopen
      obtain rfl : endStream = false := by simpa using hend
      rw [hstack']
      exact hclose.sendBody hstack' (hrequest'.trans hrequest) (hhanded'.trans hhanded)
        (hnull'.trans hnull) (hlocalEnded'.trans (h.ended.body hmem)) (by simpa using hremote)
    · exact finishClosed hclose rfl hhanded hnull hrequest
  | requestBody =>
    obtain ⟨rfl, hhanded, hnull, hrequest⟩ := h.sending hstack rfl
    have hlast := h.ended.pop_ends hstack rfl
    have hclose := (h.pop hstack rfl).closeLocal true fun _ => hlast
    exact finishClosed hclose rfl hhanded hnull hrequest
  | decode endStream =>
    have hlast := h.ended.pop_ends hstack
    exact (h.pop hstack rfl).closeLocal endStream fun hend => hlast hend
  | encode endStream =>
    cases endStream with
    | false => exact (h.pop hstack rfl).closeRemote_false
    | true =>
      obtain ⟨hclosed, hlog⟩ := h.silent.closing _ hmem rfl
      exact kept_closeRemote (h.listed.pop hstack) (h.silent.pop hstack) (h.ended.pop hstack)
        (h.requests.pop hstack) h.settled.left hclosed hlog
  | reset =>
    obtain ⟨hclosed, hlog⟩ := h.silent.closing _ hmem rfl
    have hunder := h.ended.under
    rw [hstack] at hunder
    exact kept_cleanup (h.listed.pop hstack) (h.silent.pop hstack) (h.ended.pop hstack)
      (h.requests.pop hstack) hclosed hlog
      fun c hc => (pairwise_cons.mp hunder).1 c hc rfl

theorem kept_new : Kept new where
  listed := ⟨List.Pairwise.nil, fun _ _ hc => (by cases hc), fun h => (by cases h),
    fun h => (by cases h), rfl, rfl⟩
  silent := ⟨fun _ _ _ hr => (by cases hr), fun h => (by cases h), fun _ hc => (by cases hc),
    List.Pairwise.nil⟩
  ended := ⟨fun _ hc => (by cases hc), Nat.zero_le 1, fun h => (by cases h), fun h => (by cases h),
    fun _ _ => rfl, List.Pairwise.nil, rfl⟩
  requests := ⟨fun h => (by cases h), fun h => (by cases h), fun _ hc => (by cases hc),
    fun _ hr => (by cases hr), fun h => (by cases h), fun h => (by cases h)⟩
  settled := ⟨fun h => (by cases h), fun h => (by cases h),
    fun hlog => absurd (fun _ hr => (by cases hr)) hlog⟩

theorem kept_start : Kept { new with inserted := true, handed := true } where
  listed := ⟨List.Pairwise.nil, fun _ _ hc => (by cases hc), fun h => (by cases h), fun _ => rfl,
    rfl, rfl⟩
  silent := { kept_new.silent with }
  ended := { kept_new.ended with failed := rfl }
  requests := ⟨fun h => (by cases h), fun h => (by cases h), fun _ hc => (by cases hc),
    fun _ hr => (by cases hr), fun h => (by cases h), fun h => (by cases h)⟩
  settled := ⟨fun _ h => (by cases h), fun h => (by cases h), kept_new.settled.waiting⟩

theorem kept_send (body : Bool) : Kept { new with
      request := true, headersSent := true, localEnded := !body
      stack := [.requestHeaders (!body)] } where
  listed := ⟨pairwise_singleton _ _, fun h => (by cases h <;> contradiction),
    fun h => (by cases h), fun h => (by cases h), rfl, rfl⟩
  silent := by
    refine ⟨fun _ _ _ hr => (by cases hr), fun h => (by cases h), fun c hc hclosing => ?_,
      List.Pairwise.nil⟩
    obtain rfl := mem_singleton.mp hc
    cases hclosing
  ended := by
    refine ⟨fun c hc hend => ⟨rfl, ?_⟩, by cases body <;> decide, fun h => (by cases h),
      fun hmem => ?_, fun h => (by cases h), pairwise_singleton _ _, rfl⟩
    · obtain rfl := mem_singleton.mp hc
      exact hend
    · cases body with
      | false => cases mem_singleton.mp hmem
      | true => rfl
  requests := by
    refine ⟨fun _ _ hr => (by cases hr), fun _ c hc _ => ?_, fun _ _ _ => rfl,
      fun _ hr => (by cases hr), fun h => (by cases h), fun _ h => (by cases h <;> contradiction)⟩
    obtain rfl := mem_singleton.mp hc
    rfl
  settled := ⟨fun h => (by cases h), fun h => (by cases h),
    fun hlog => absurd (fun _ hr => (by cases hr)) hlog⟩

theorem maySend_open (hmay : s.maySend = true) :
    s.inserted = true ∧ s.request = false ∧ s.localEnded = false := by
  simp only [maySend, Bool.and_eq_true, Bool.not_eq_true'] at hmay
  exact ⟨hmay.1.1.1, hmay.1.1.2, hmay.2⟩

theorem Kept.step (h : s.Kept) {event : AsyncEvent} (horderly : s.Orderly event)
    (hstep : s.step event = some s') : s'.Kept := by
  cases event with
  | start =>
    obtain ⟨hnew, hs⟩ := ite_none_right_eq_some.mp hstep
    subst hnew
    cases hs
    exact kept_start
  | send body =>
    obtain ⟨hnew, hs⟩ := ite_none_right_eq_some.mp hstep
    subst hnew
    cases hs
    exact kept_send body
  | sendHeaders endStream =>
    obtain ⟨hmay, rfl⟩ := ite_some_none_eq_some.mp hstep
    simp only [Bool.and_eq_true, Bool.not_eq_true'] at hmay
    obtain ⟨⟨hinserted, hstream⟩, hsent⟩ := hmay
    exact h.decode hinserted hstream (h.ended.headers hstream hsent) endStream
  | sendData endStream =>
    obtain ⟨hmay, rfl⟩ := ite_some_none_eq_some.mp hstep
    obtain ⟨hinserted, hstream, hlocalEnded⟩ := maySend_open hmay
    exact h.decode hinserted hstream hlocalEnded endStream
  | sendTrailers =>
    obtain ⟨hmay, rfl⟩ := ite_some_none_eq_some.mp hstep
    obtain ⟨hinserted, hstream, hlocalEnded⟩ := maySend_open hmay
    exact h.decode hinserted hstream hlocalEnded true
  | reset =>
    obtain ⟨hmay, rfl⟩ := ite_some_none_eq_some.mp hstep
    obtain ⟨hquiet, hends⟩ := horderly (Bool.and_eq_true_iff.mp hmay).1
    exact h.reset hquiet hends
  | cancel =>
    obtain ⟨hmay, rfl⟩ := ite_some_none_eq_some.mp hstep
    obtain ⟨hinserted, hrequest⟩ := Bool.and_eq_true_iff.mp hmay
    exact h.cancel hinserted hrequest
  | destroyClient =>
    obtain ⟨-, hs⟩ := ite_none_left_eq_some.mp hstep
    cases hs
    split
    · rename_i hinserted
      obtain ⟨hquiet, hends⟩ := horderly hinserted
      exact h.reset hquiet hends
    · exact h
  | encodeHeaders endStream =>
    obtain ⟨hmay, rfl⟩ := ite_some_none_eq_some.mp hstep
    obtain ⟨hquiet, hremote⟩ := routing_quiet h (Bool.and_eq_true_iff.mp hmay).1
    have hflags := h.flags hquiet true endStream s.destroyed
    exact hflags.encode hquiet hremote (fun hend => hend) rfl rfl
  | encodeData endStream =>
    obtain ⟨hmay, rfl⟩ := ite_some_none_eq_some.mp hstep
    obtain ⟨hquiet, hremote⟩ := routing_quiet h (Bool.and_eq_true_iff.mp hmay).1
    have hflags := h.flags hquiet s.responseStarted endStream s.destroyed
    exact hflags.encode hquiet hremote (fun hend => hend) rfl rfl
  | encodeTrailers =>
    obtain ⟨hmay, rfl⟩ := ite_some_none_eq_some.mp hstep
    obtain ⟨hquiet, hremote⟩ := routing_quiet h (Bool.and_eq_true_iff.mp hmay).1
    have hflags := h.flags hquiet s.responseStarted true s.destroyed
    exact hflags.encode hquiet hremote (fun _ => rfl) rfl rfl
  | resetStream =>
    obtain ⟨hrouting, rfl⟩ := ite_some_none_eq_some.mp hstep
    obtain ⟨hquiet, -⟩ := routing_quiet h hrouting
    have hflags := h.flags hquiet s.responseStarted true s.destroyed
    exact hflags.resetStream hquiet (.inl rfl) horderly
  | returned => exact h.returned hstep

theorem Finished.step (hs : s.Finished) (h : s.Kept) {event : AsyncEvent}
    (hstep : s.step event = some s') : s'.Finished := by
  have hcancelled := h.requests.cancelled
  cases event with
  | start | send =>
    obtain ⟨hnew, hs'⟩ := ite_none_right_eq_some.mp hstep
    subst hnew
    cases hs'
    exact hs
  | sendHeaders | sendData | sendTrailers =>
    obtain ⟨-, rfl⟩ := ite_some_none_eq_some.mp hstep
    exact hs
  | reset =>
    obtain ⟨-, rfl⟩ := ite_some_none_eq_some.mp hstep
    exact fun _ => not_quiet_resetStream (s := { s with destroyed := true }) hcancelled
  | cancel =>
    obtain ⟨-, rfl⟩ := ite_some_none_eq_some.mp hstep
    exact fun _ => not_quiet_resetStream
      (s := { s with cancelled := true, log := .cancel :: s.log, destroyed := true })
      fun _ => not_quiet_of_terminal rfl
  | destroyClient =>
    obtain ⟨-, hs'⟩ := ite_none_left_eq_some.mp hstep
    cases hs'
    split
    · exact fun _ => not_quiet_resetStream (s := { s with destroyed := true }) hcancelled
    · exact hs
  | encodeHeaders endStream =>
    obtain ⟨hmay, rfl⟩ := ite_some_none_eq_some.mp hstep
    exact finished_encode (Bool.and_eq_true_iff.mp hmay).1 true endStream _ rfl
  | encodeData endStream =>
    obtain ⟨hmay, rfl⟩ := ite_some_none_eq_some.mp hstep
    exact finished_encode (Bool.and_eq_true_iff.mp hmay).1 s.responseStarted endStream _ rfl
  | encodeTrailers =>
    obtain ⟨hmay, rfl⟩ := ite_some_none_eq_some.mp hstep
    exact finished_encode (Bool.and_eq_true_iff.mp hmay).1 s.responseStarted true _ rfl
  | resetStream =>
    obtain ⟨-, rfl⟩ := ite_some_none_eq_some.mp hstep
    exact fun _ => not_quiet_resetStream (s := { s with done := true }) hcancelled
  | returned =>
    change s.returned = some s' at hstep
    unfold AsyncRun.returned at hstep
    split at hstep
    · cases hstep
    · rename_i call stack hstack
      cases hstep
      have hresume := sameEnd_resume { s with stack } call
      exact hresume.finished hs

/-- A request has one outcome, or was cancelled, when its response has ended or it was reset, and
no callback follows any of these. A stream leaves the list and is released once, when it is closed
on both sides. -/
structure Correct (s : AsyncRun) : Prop where
  silent : s.log.Pairwise fun newer older => older.terminal = true → newer.isCallback = false
  once : s.log.countP AsyncReport.isOutcome ≤ 1
  outcome : s.request = true → s.done = true ∨ s.destroyed = true →
    s.log.countP AsyncReport.isOutcome = 1 ∨ .cancel ∈ s.log
  null : s.request = true → s.handed = true ∨ s.null = true → s.null = s.delivered
  closed : s.stack = [] → (s.remoteClosed = true ↔ s.done = true ∨ s.destroyed = true)
  gone : s.handed = true → (s.inserted = false ↔ s.localClosed = true ∧ s.remoteClosed = true)
  removed : s.log.count .removed = if s.handed = true ∧ s.inserted = false then 1 else 0
  released : s.log.count .released =
    if (s.handed = true ∧ s.inserted = false) ∨ s.null = true then 1 else 0
  failed : s.failed = false

theorem countP_isOutcome_le {log : List AsyncReport}
    (h : log.Pairwise fun newer older => older.terminal = true → newer.isCallback = false) :
    log.countP AsyncReport.isOutcome ≤ 1 := by
  refine countP_le_one (h.imp fun {newer older} hsilent houtcome => ?_)
  have hterminal : older.terminal = true := by
    cases older <;> first | rfl | cases houtcome
  have hcallback := hsilent hterminal
  cases newer <;> first | rfl | cases hcallback

theorem Kept.correct (h : s.Kept) (hfinished : s.Finished) : s.Correct := by
  have honce := countP_isOutcome_le h.silent.silent
  refine ⟨h.silent.silent, honce, fun hrequest hended => ?_, h.requests.returned, fun hstack => ?_,
    fun hhanded => ?_, h.listed.removed, h.listed.released, h.ended.failed⟩
  · have hlog := hfinished hended
    unfold Quiet at hlog
    push Not at hlog
    obtain ⟨report, hmem, hterminal⟩ := hlog
    by_cases hcancel : report = .cancel
    · exact .inr (hcancel ▸ hmem)
    · have hcallback : report.isCallback = true := by
        cases report with
        | cancel => exact absurd rfl hcancel
        | removed | released => exact absurd rfl hterminal
        | _ => rfl
      have hpos : 0 < s.log.countP AsyncReport.isOutcome :=
        countP_pos_iff.mpr ⟨report, hmem, h.requests.outcome hrequest report hmem hcallback⟩
      exact .inl (by omega)
  · constructor
    · exact fun hremote => (h.silent.closed hremote).1
    · intro hended
      obtain hremote | ⟨c, hc, -⟩ := h.settled.waiting (hfinished hended)
      · exact hremote
      · rw [hstack] at hc
        cases hc
  · constructor
    · exact h.settled.left hhanded
    · exact fun hclosed => h.settled.complete hclosed.1 hclosed.2

end AsyncRun

end Meliproxy.Envoy.Http
