import Meliproxy.Envoy.Grpc.AsyncClientSteps
import Meliproxy.Lib.Count

/-!
# Runs of a gRPC stream

What a user is called back about a stream or a request, over any order of HTTP events and calls.
-/

namespace Meliproxy.Envoy.Grpc

open Lib List Option

namespace StreamRun

variable {s s' : StreamRun} {call : Call} {stack : List Call}

/-- Nothing has been closed, and no callback goes on that another one follows. -/
structure Ready (s : StreamRun) : Prop where
  quiet : Quiet s.log
  pending : ∀ call ∈ s.stack, call.pending = false
  error : ∀ call ∈ s.stack, call.error = false

section

variable (h : s.Kept)
include h

section

variable (hready : s.Ready)
include hready

theorem Kept.streamError (status : GrpcStatus) (message : Bytes) :
    (s.streamError status message).Kept :=
  ⟨h.listed.callRemoteClose rfl,
    silent_callRemoteClose hready.quiet hready.pending hready.error h.silent.silent rfl,
    torn_error rfl h.torn.complete h.torn.ended, h.counted.callRemoteClose⟩

theorem Kept.onReset : s.onReset.Kept := by
  unfold StreamRun.onReset
  split
  · exact h
  · have hlisted : Listed { s with httpReset := true } := { h.listed with left := fun _ _ => rfl }
    have hcounted : Counted { s with httpReset := true } := ⟨h.counted.outcomes, h.counted.defined⟩
    exact ⟨hlisted.callRemoteClose rfl,
      silent_callRemoteClose hready.quiet hready.pending hready.error h.silent.silent rfl,
      torn_error rfl (fun _ _ => rfl) h.torn.ended, hcounted.callRemoteClose⟩

theorem Kept.onTrailers (hended : s.httpEnded = true)
    (trailers : Metadata) : (s.onTrailers trailers).Kept := by
  unfold StreamRun.onTrailers
  split
  · exact h.streamError hready _ _
  · split
    · exact h.streamError hready _ _
    · exact ⟨h.listed.callBack rfl rfl,
        h.silent.callBack hready.quiet hready.pending hready.error rfl rfl,
        h.torn.callBack rfl fun _ => hended, h.counted.callBack rfl⟩

theorem Kept.onHeaders (headers : Metadata) {endStream : Bool}
    (hended : endStream = true → s.httpEnded = true) : (s.onHeaders headers endStream).Kept := by
  unfold StreamRun.onHeaders
  split
  · split
    · rename_i hend
      exact h.onTrailers hready (hended hend.1) headers
    · exact h.streamError hready _ _
  · split
    · rename_i hend
      exact h.onTrailers hready (hended hend) headers
    · exact ⟨h.listed.callBack rfl rfl,
        h.silent.callBack hready.quiet hready.pending hready.error rfl rfl,
        h.torn.callBack rfl fun heq => (by cases heq), h.counted.callBack rfl⟩

theorem Kept.receive (frames : List DataFrame) : (s.receive frames).Kept := by
  cases frames with
  | nil => exact h
  | cons frame rest =>
    rw [StreamRun.receive]
    split
    · exact h.streamError hready _ _
    · have hresponse : Kept { s with response := true } :=
        ⟨{ h.listed with }, { h.silent with }, { h.torn with },
          ⟨h.counted.outcomes, h.counted.defined⟩⟩
      exact ⟨hresponse.listed.callBack rfl rfl,
        hresponse.silent.callBack hready.quiet hready.pending hready.error rfl rfl,
        hresponse.torn.callBack rfl fun heq => (by cases heq), hresponse.counted.callBack rfl⟩

theorem Kept.onData (frames : Option (List DataFrame))
    {endStream : Bool} (hmessage : endStream = false → ∀ call ∈ s.stack, call.isMessage = false) :
    (s.onData frames endStream).Kept := by
  unfold StreamRun.onData
  split
  · exact h.streamError hready _ _
  · rename_i hend
    have hnone : s.stack.any Call.isMessage = false :=
      any_eq_false.mpr fun call hcall => by simp [hmessage (by simpa using hend) call hcall]
    have heq : { s with undefined := s.undefined || s.stack.any Call.isMessage } = s := by
      rw [hnone, Bool.or_false]
    rw [heq]
    cases frames with
    | none => exact h.streamError hready _ _
    | some frames => exact h.receive hready frames

end

theorem Kept.ready (hreset : s.httpReset = false) (hended : s.httpEnded = false)
    (hcalls : ∀ call ∈ s.stack, call.pending = false ∧ call.error = false) : s.Ready := by
  refine ⟨(h.torn.quiet hreset hended).resolve_right ?_, fun call hcall => (hcalls call hcall).1,
    fun call hcall => (hcalls call hcall).2⟩
  rintro ⟨call, hcall, htrue⟩
  cases (hcalls call hcall).2.symm.trans htrue

theorem Kept.flags (hready : s.Ready) (headers ended : Bool)
    (hended : s.httpEnded = false) :
    Kept { s with httpHeaders := headers, httpEnded := ended } := by
  refine ⟨{ h.listed with }, { h.silent with },
    ⟨fun _ _ => .inl hready.quiet, h.torn.reset, h.torn.complete, fun hmem => ?_⟩,
    ⟨h.counted.outcomes, h.counted.defined⟩⟩
  cases hended.symm.trans (h.torn.ended hmem)

theorem Kept.deliver {event : HttpEvent} (hcan : s.canDeliver event = true)
    (horderly : s.Orderly (.http event)) : (s.deliver event).Kept := by
  obtain ⟨hcalls, horderly⟩ := horderly
  cases event with
  | headers headers endStream =>
    simp only [canDeliver, Bool.and_eq_true, Bool.not_eq_true'] at hcan
    have hready := h.ready hcan.1.1 hcan.1.2 hcalls
    exact (h.flags hready true endStream hcan.1.2).onHeaders
      { hready with } headers fun hend => hend
  | data frames endStream =>
    simp only [canDeliver, Bool.and_eq_true, Bool.not_eq_true'] at hcan
    have hready := h.ready hcan.1.1 hcan.1.2 hcalls
    refine (h.flags hready s.httpHeaders endStream hcan.1.2).onData
      { hready with } frames fun hend => ?_
    subst hend
    exact horderly
  | trailers trailers =>
    simp only [canDeliver, Bool.and_eq_true, Bool.not_eq_true'] at hcan
    have hready := h.ready hcan.1.1 hcan.1.2 hcalls
    exact (h.flags hready s.httpHeaders true hcan.1.2).onTrailers
      { hready with } rfl trailers
  | reset =>
    simp only [canDeliver, Bool.and_eq_true, Bool.not_eq_true'] at hcan
    exact h.onReset (h.ready hcan.1 horderly hcalls)

theorem Kept.closeLocal : s.closeLocal.Kept := by
  have hlisted : Listed { s with localClosed := true } := { h.listed with }
  have hsilent : Silent { s with localClosed := true } := { h.silent with }
  have hcounted : Counted { s with localClosed := true } := ⟨h.counted.outcomes, h.counted.defined⟩
  unfold StreamRun.closeLocal
  dsimp only
  split
  · rename_i hcomplete
    have hremote : s.remoteClosed = true := by simpa [complete] using hcomplete
    exact ⟨hlisted.cleanup, hsilent.cleanup (h.silent.closed (.inl hremote)),
      torn_cleanup h.torn.ended, hcounted.cleanup⟩
  · rename_i hcomplete
    have hremote : s.remoteClosed = false := by simpa [complete] using hcomplete
    refine ⟨hlisted, hsilent, { h.torn with complete := fun _ hclosed => ?_ },
      hcounted⟩
    cases hremote.symm.trans hclosed

theorem Kept.closeRemote (hclosed : ¬ Quiet s.log) : s.closeRemote.Kept := by
  have hlisted : Listed { s with remoteClosed := true } := { h.listed with }
  have hsilent : Silent { s with remoteClosed := true } :=
    { h.silent with closed := fun _ => hclosed }
  have hcounted : Counted { s with remoteClosed := true } := ⟨h.counted.outcomes, h.counted.defined⟩
  unfold StreamRun.closeRemote
  dsimp only
  split
  · exact ⟨hlisted.cleanup, hsilent.cleanup hclosed, torn_cleanup h.torn.ended, hcounted.cleanup⟩
  · rename_i hcomplete
    have hlocal : s.localClosed = false := by simpa [complete] using hcomplete
    refine ⟨hlisted, hsilent, { h.torn with complete := fun hclosed _ => ?_ },
      hcounted⟩
    cases hlocal.symm.trans hclosed

end

theorem kept_resetStream (hlisted : s.Listed) (hsilent : s.Silent) (hcounted : s.Counted)
    (hended : .trailingMetadata ∈ s.stack → s.httpEnded = true) (hclosed : ¬ Quiet s.log) :
    s.resetStream.Kept := by
  have hlisted' : Listed { s with localClosed := true, remoteClosed := true } := { hlisted with }
  have hsilent' : Silent { s with localClosed := true, remoteClosed := true } :=
    { hsilent with closed := fun _ => hclosed }
  have hcounted' : Counted { s with localClosed := true, remoteClosed := true } :=
    ⟨hcounted.outcomes, hcounted.defined⟩
  exact ⟨hlisted'.cleanup, hsilent'.cleanup hclosed, torn_cleanup hended, hcounted'.cleanup⟩

theorem Kept.finishStart (h : s.Kept) (hstack : s.stack.countP Call.starting = 0)
    (hhanded : s.handed = false) : s.finishStart.Kept := by
  unfold StreamRun.finishStart
  split
  · exact h
  · rename_i hreset
    have hremoved := h.listed.removed
    rw [hhanded] at hremoved
    refine ⟨⟨Nat.le_of_eq hstack, fun _ => rfl, fun _ hout => (by cases hout), ?_⟩,
      { h.silent with },
      { h.torn with reset := fun htrue => absurd htrue hreset },
      ⟨h.counted.outcomes, h.counted.defined⟩⟩
    simpa using hremoved

section Pop

variable (hstack : s.stack = call :: stack)
include hstack

theorem Listed.pop (h : s.Listed) : Listed { s with stack } := by
  refine ⟨Nat.le_trans ?_ h.starting, h.inserted, h.left, h.removed⟩
  rw [hstack]
  exact (sublist_cons_self call stack).countP_le

theorem Silent.pop (h : s.Silent) : Silent { s with stack } := by
  have hmem : ∀ c ∈ stack, c ∈ s.stack := fun c hc => hstack ▸ mem_cons_of_mem _ hc
  refine ⟨Nat.le_trans ?_ h.one, fun c hc => h.pending c (hmem c hc), fun c hc => ?_,
    fun c hc => h.closing c (hmem c hc), h.closed, h.silent⟩
  · rw [hstack]
    exact (sublist_cons_self call stack).countP_le
  · have htail := h.error
    rw [hstack] at htail
    exact htail c (mem_of_mem_tail hc)

theorem error_of_pop (h : s.Silent) : ∀ c ∈ stack, c.error = false := by
  have htail := h.error
  rwa [hstack] at htail

theorem Torn.pop (h : s.Torn) (hcall : call.error = false) : Torn { s with stack } := by
  have herror : (∃ c ∈ s.stack, c.error = true) → ∃ c ∈ stack, c.error = true := by
    rintro ⟨c, hc, htrue⟩
    rw [hstack] at hc
    obtain rfl | hc := mem_cons.mp hc
    · cases hcall.symm.trans htrue
    · exact ⟨c, hc, htrue⟩
  exact ⟨fun hreset hended => (h.quiet hreset hended).imp_right herror,
    fun hreset hinserted => herror (h.reset hreset hinserted), h.complete,
    fun hmem => h.ended (hstack ▸ mem_cons_of_mem _ hmem)⟩

theorem Kept.pop (h : s.Kept) (hcall : call.error = false) : Kept { s with stack } :=
  ⟨h.listed.pop hstack, h.silent.pop hstack, h.torn.pop hstack hcall,
    ⟨h.counted.outcomes, h.counted.defined⟩⟩

theorem Listed.started (h : s.Listed) (hcall : call.starting = true) :
    s.handed = false ∧ stack.countP Call.starting = 0 := by
  have hstarting := h.starting
  rw [hstack, countP_cons_of_pos hcall] at hstarting
  cases hhanded : s.handed with
  | true => simp [hhanded] at hstarting
  | false =>
    simp only [hhanded, Bool.false_eq_true, if_false] at hstarting
    exact ⟨rfl, by omega⟩

theorem Kept.readyPop (h : s.Kept) (hcall : call.pending = true) : Ready { s with stack } := by
  refine ⟨h.silent.pending call (hstack ▸ mem_cons_self) hcall, ?_,
    error_of_pop hstack h.silent⟩
  have hone := h.silent.one
  rw [hstack, countP_cons_of_pos hcall] at hone
  have hzero : stack.countP Call.pending = 0 := by omega
  intro c hc
  simpa using countP_eq_zero.mp hzero c hc

theorem Kept.startPush (h : s.Kept) {next : Call} (hcall : call.starting = true)
    (herror : call.error = false) (hstart : next.starting = true) (hpending : next.pending = false)
    (hclosing : next.closing = false) : Kept { s with stack := next :: stack } := by
  have hpop := h.pop hstack herror
  have hnext : next ≠ .trailingMetadata := by
    rintro rfl
    cases hpending
  refine ⟨{ h.listed with starting := ?_ },
    hpop.silent.push hpending hclosing (error_of_pop hstack h.silent), hpop.torn.push hnext,
    ⟨h.counted.outcomes, h.counted.defined⟩⟩
  have hstarting := h.listed.starting
  rw [hstack, countP_cons_of_pos hcall] at hstarting
  rwa [countP_cons_of_pos hstart]

end Pop

theorem Kept.returned (h : s.Kept) (hreturned : s.returned = some s') : s'.Kept := by
  unfold StreamRun.returned at hreturned
  split at hreturned
  · cases hreturned
  rename_i call stack hstack
  cases hreturned
  have hmem : call ∈ s.stack := hstack ▸ mem_cons_self
  have hcounted : Counted { s with stack } := ⟨h.counted.outcomes, h.counted.defined⟩
  have hended : .trailingMetadata ∈ stack → s.httpEnded = true :=
    fun hin => h.torn.ended (hstack ▸ mem_cons_of_mem _ hin)
  cases call with
  | unavailable =>
    obtain ⟨hhanded, hzero⟩ := h.listed.started hstack rfl
    have hout : s.inserted = false := by
      cases hinserted : s.inserted with
      | false => rfl
      | true => cases hhanded.symm.trans (h.listed.inserted hinserted)
    have hlisted := h.listed.pop hstack
    have hsilent := h.silent.pop hstack
    exact ⟨{ hlisted with left := fun _ _ => rfl },
      { hsilent with closed := fun _ => h.silent.closing _ hmem rfl },
      ⟨fun hreset => (by cases hreset),
        fun _ hinserted => absurd (hout.symm.trans hinserted) (by decide), fun _ _ => rfl, hended⟩,
      ⟨hcounted.outcomes, hcounted.defined⟩⟩
  | creating => exact h.startPush hstack rfl rfl rfl rfl rfl
  | sendingHeaders =>
    obtain ⟨hhanded, hzero⟩ := h.listed.started hstack rfl
    unfold resume
    dsimp only
    split
    · exact h.startPush hstack rfl rfl rfl rfl rfl
    · exact (h.pop hstack rfl).finishStart hzero hhanded
  | sendingRequest =>
    obtain ⟨hhanded, hzero⟩ := h.listed.started hstack rfl
    obtain ⟨hcalls, hsame, -⟩ := closeLocal_frame { s with stack }
    exact (h.pop hstack rfl).closeLocal.finishStart (hcalls ▸ hzero) (hsame.trans hhanded)
  | sendingData endStream =>
    cases endStream with
    | false => exact h.pop hstack rfl
    | true => exact (h.pop hstack rfl).closeLocal
  | initialMetadata => exact h.pop hstack rfl
  | message rest =>
    cases rest with
    | nil => exact h.pop hstack rfl
    | cons frame rest => exact (h.pop hstack rfl).receive (h.readyPop hstack rfl) (frame :: rest)
  | trailingMetadata =>
    have hready := h.readyPop hstack rfl
    have hpop := h.pop hstack rfl
    exact ⟨hpop.listed.callRemoteClose rfl,
      silent_callRemoteClose hready.quiet hready.pending hready.error hpop.silent.silent rfl,
      hpop.torn.callRemoteClose (h.torn.ended hmem), hpop.counted.callRemoteClose⟩
  | remoteClose error =>
    have hclosed := h.silent.closing _ hmem rfl
    cases error with
    | true =>
      exact kept_resetStream (h.listed.pop hstack) (h.silent.pop hstack) hcounted hended hclosed
    | false => exact (h.pop hstack rfl).closeRemote hclosed

theorem Kept.pushData (h : s.Kept) (hnone : s.stack.any Call.error = false) (endStream : Bool) :
    Kept { s with stack := .sendingData endStream :: s.stack } := by
  have herror : ∀ call ∈ s.stack, call.error = false :=
    fun call hcall => by simpa using any_eq_false.mp hnone call hcall
  exact ⟨h.listed.push rfl, h.silent.push rfl rfl herror, h.torn.push fun heq => (by cases heq),
    ⟨h.counted.outcomes, h.counted.defined⟩⟩

theorem Kept.histories (h : s.Kept) (ended sent : Bool) : Kept { s with ended, sent } :=
  ⟨{ h.listed with }, { h.silent with }, { h.torn with }, ⟨h.counted.outcomes, h.counted.defined⟩⟩

theorem Kept.userCall (h : s.Kept) {call : UserCall} (hmay : s.mayCall call = true)
    (horderly : s.Orderly (.user call)) : ((s.asked call).userCall call).Kept := by
  cases call with
  | sendMessage endStream =>
    simp only [mayCall, Bool.and_eq_true, Bool.not_eq_true'] at hmay
    exact (h.histories s.ended (s.sent || endStream)).pushData hmay.2 endStream
  | closeStream =>
    simp only [mayCall, Bool.and_eq_true, Bool.not_eq_true'] at hmay
    exact (h.histories s.ended true).pushData hmay.2 true
  | resetStream =>
    have hclosed : ¬ Quiet (.resetStream :: s.log) := not_quiet_of_terminal rfl
    refine kept_resetStream (s := { s with log := .resetStream :: s.log })
      { h.listed with removed := ?_ }
      ⟨h.silent.one, fun c hc hpending => ?_, h.silent.error, fun _ _ _ => hclosed,
        fun _ => hclosed, pairwise_cons.mpr ⟨fun _ _ _ => rfl, h.silent.silent⟩⟩
      ⟨fun hunary => ?_, h.counted.defined⟩ h.torn.ended hclosed
    · rw [count_cons_of_ne (by decide)]
      exact h.listed.removed
    · cases (horderly c hc).symm.trans hpending
    · rw [countP_cons_of_neg (by decide)]
      exact h.counted.outcomes hunary

theorem kept_new : Kept new where
  listed := ⟨Nat.zero_le _, fun h => (by cases h), fun h => (by cases h), rfl⟩
  silent := ⟨Nat.zero_le _, fun _ h => (by cases h), fun _ h => (by cases h),
    fun _ h => (by cases h), fun h => (by simp [new] at h), List.Pairwise.nil⟩
  torn := ⟨fun _ _ => .inl fun _ h => (by cases h), fun h => (by cases h), fun h => (by cases h),
    fun h => (by cases h)⟩
  counted := ⟨fun _ => rfl, rfl⟩

theorem kept_started (unary : Bool) : Kept { new with started := true, unary } where
  listed := { kept_new.listed with removed := rfl }
  silent := { kept_new.silent with }
  torn := { kept_new.torn with }
  counted := ⟨fun _ => rfl, rfl⟩

theorem kept_start (unary available : Bool) : (new.start unary available).Kept := by
  have h := kept_started unary
  have hquiet : Quiet new.log := fun _ hmem => by cases hmem
  have hnone : ∀ call ∈ new.stack, call.pending = false := fun _ hmem => by cases hmem
  have herror : ∀ call ∈ new.stack, call.error = false := fun _ hmem => by cases hmem
  unfold StreamRun.start
  split
  · exact ⟨⟨Nat.le_refl 1, h.listed.inserted, h.listed.left, rfl⟩,
      h.silent.callBack hquiet hnone herror rfl rfl,
      h.torn.callBack rfl fun heq => (by cases heq), h.counted.callBack rfl⟩
  · exact ⟨⟨Nat.le_refl 1, h.listed.inserted, h.listed.left, rfl⟩,
      silent_callRemoteClose hquiet hnone herror h.silent.silent rfl,
      torn_error rfl h.torn.complete h.torn.ended, h.counted.callRemoteClose⟩

theorem Kept.step (h : s.Kept) {event : Event} (horderly : s.Orderly event)
    (hstep : s.step event = some s') : s'.Kept := by
  cases event with
  | start unary available =>
    obtain ⟨rfl, rfl⟩ := ite_some_none_eq_some.mp hstep
    exact kept_start unary available
  | http event =>
    obtain ⟨hcan, rfl⟩ := ite_some_none_eq_some.mp hstep
    exact (h.histories _ s.sent).deliver (Bool.and_eq_true_iff.mp hcan).2 horderly
  | user call =>
    obtain ⟨hmay, rfl⟩ := ite_some_none_eq_some.mp hstep
    exact h.userCall hmay horderly
  | returned => exact h.returned hstep

theorem Told.returned (h : s.Told) (hreturned : s.returned = some s') : s'.Told := by
  unfold StreamRun.returned at hreturned
  split at hreturned
  · cases hreturned
  rename_i call stack hstack
  cases hreturned
  have hpush (next : Call) : Onward { s with stack } { s with stack := next :: stack } :=
    ⟨suffix_rfl, suffix_cons .., id, id, rfl, rfl, rfl, rfl⟩
  cases call with
  | unavailable => exact h.popped hstack ⟨suffix_rfl, suffix_rfl, id, id, rfl, rfl, rfl, rfl⟩ rfl
  | creating => exact h.popped hstack (hpush _) rfl
  | sendingHeaders =>
    unfold resume
    dsimp only
    split
    · exact h.popped hstack (hpush _) rfl
    · rename_i hrequest
      have hpop := h.popped hstack (.refl _) rfl
      exact hpop.finishStart fun hunary hreset => absurd ⟨hunary, by simpa using hreset⟩ hrequest
  | sendingRequest =>
    have hclose := h.popped hstack (onward_closeLocal _) rfl
    exact hclose.finishStart fun _ _ => (closeLocal_frame _).2.2
  | sendingData endStream =>
    cases endStream with
    | false => exact h.popped hstack (.refl _) rfl
    | true =>
      exact h.resumed hstack (onward_closeLocal _) (fun hcall => by cases hcall)
        fun _ => (closeLocal_frame _).2.2
  | initialMetadata => exact h.popped hstack (.refl _) rfl
  | message rest => exact h.popped hstack (onward_receive _ rest) rfl
  | trailingMetadata =>
    refine h.resumed hstack ⟨suffix_cons .., suffix_cons .., id, id, rfl, rfl, rfl, rfl⟩
      (fun _ _ => ?_) fun hcall => by cases hcall
    exact .inr ⟨not_quiet_of_terminal rfl, .inr ⟨false, mem_cons_self⟩⟩
  | remoteClose error =>
    have hreported {s' : StreamRun} (honward : Onward { s with stack } s')
        (hclosed : s'.remoteClosed = true) (hreported : s.Reported) : s'.Reported := by
      refine hreported.imp (fun hmem => ?_) fun hlog =>
        ⟨not_quiet_of_suffix honward.log hlog.1, .inl hclosed⟩
      rw [hstack] at hmem
      exact honward.stack.subset ((mem_cons.mp hmem).resolve_left (by simp))
    cases error with
    | true =>
      have honward := (onward_closed { s with stack } (fun _ => rfl) fun _ => rfl).2
      exact h.resumed hstack honward (fun _ => hreported honward (cleanup_remoteClosed _))
        fun hcall => by cases hcall
    | false =>
      have honward := onward_closeRemote { s with stack }
      exact h.resumed hstack honward (fun _ => hreported honward (closeRemote_remoteClosed _))
        fun hcall => by cases hcall

theorem told_idle (hended : s.ended = false) (hsent : s.sent = false) (hhanded : s.handed = false) :
    s.Told := by
  refine ⟨fun h => ?_, fun h => ?_, fun _ h => ?_⟩
  · cases hended.symm.trans h
  · cases hsent.symm.trans h
  · cases hhanded.symm.trans h

theorem Told.step (h : s.Told) {event : Event} (hstep : s.step event = some s') : s'.Told := by
  cases event with
  | start unary available =>
    obtain ⟨hnew, rfl⟩ := ite_some_none_eq_some.mp hstep
    subst hnew
    unfold StreamRun.start
    split <;> exact told_idle rfl rfl rfl
  | http event =>
    obtain ⟨hcan, rfl⟩ := ite_some_none_eq_some.mp hstep
    exact h.deliver (Bool.and_eq_true_iff.mp hcan).2
  | user call =>
    obtain ⟨-, rfl⟩ := ite_some_none_eq_some.mp hstep
    exact h.userCall call
  | returned => exact h.returned hstep

/-- The stream reports its end once and nothing behind that or behind a reset by the user, and the
end of the response when `onReceiveTrailingMetadata` has returned. It is taken from the list once,
with both sides ended, and a request has one outcome for the end that is reported. -/
structure Correct (s : StreamRun) : Prop where
  silent : s.log.Pairwise fun newer older => older.terminal = true → newer.isCallback = false
  once : s.log.countP Report.isRemoteClose ≤ 1
  closed : s.remoteClosed = true ∨ s.httpReset = true →
    s.log.countP Report.isRemoteClose = 1 ∨ .resetStream ∈ s.log
  reported : s.ended = true → .trailingMetadata ∉ s.stack →
    s.log.countP Report.isRemoteClose = 1 ∨ .resetStream ∈ s.log
  gone : s.stack = [] → s.handed = true →
    ((s.localClosed = true ∧ s.remoteClosed = true) ∨ s.httpReset = true ↔ s.inserted = false)
  left : s.stack = [] → s.handed = true → s.ended = true → s.sent = true ∨ s.unary = true →
    s.inserted = false
  removed : s.log.count .removed = if s.handed = true ∧ s.inserted = false then 1 else 0
  outcomes : s.unary = true → s.outcomes.length = s.log.countP Report.isRemoteClose
  defined : s.undefined = false

theorem countP_remoteClose_le {log : List Report}
    (h : log.Pairwise fun newer older => older.terminal = true → newer.isCallback = false) :
    log.countP Report.isRemoteClose ≤ 1 := by
  refine countP_le_one (h.imp fun {newer older} hsilent hclose => ?_)
  have hterminal : older.terminal = true := by
    cases older <;> first | rfl | cases hclose
  have hcallback := hsilent hterminal
  cases newer <;> first | rfl | cases hcallback

theorem Kept.correct (h : s.Kept) (htold : s.Told) : s.Correct := by
  have honce := countP_remoteClose_le h.silent.silent
  have hreports (hnot : ¬ Quiet s.log) :
      s.log.countP Report.isRemoteClose = 1 ∨ .resetStream ∈ s.log := by
    unfold Quiet at hnot
    push Not at hnot
    obtain ⟨report, hmem, hterminal⟩ := hnot
    cases report with
    | onRemoteClose status message =>
      have hpos : 0 < s.log.countP Report.isRemoteClose := countP_pos_iff.mpr ⟨_, hmem, rfl⟩
      exact .inl (by omega)
    | resetStream => exact .inr hmem
    | _ => exact absurd rfl hterminal
  have hgone (hstack : s.stack = []) (hhanded : s.handed = true) :
      (s.localClosed = true ∧ s.remoteClosed = true) ∨ s.httpReset = true ↔ s.inserted = false := by
    constructor
    · intro hclosed
      have hreset : s.httpReset = true := hclosed.elim (fun h' => h.torn.complete h'.1 h'.2) id
      cases hinserted : s.inserted with
      | false => rfl
      | true =>
        obtain ⟨call, hcall, -⟩ := h.torn.reset hreset hinserted
        rw [hstack] at hcall
        cases hcall
    · exact fun hout => .inr (h.listed.left hhanded hout)
  refine ⟨h.silent.silent, honce, fun hclosed => hreports (h.silent.closed hclosed),
    fun hended hreturned => hreports ((htold.ended hended).resolve_left hreturned).1, hgone,
    fun hstack hhanded hended hsent => (hgone hstack hhanded).mp (.inl ⟨?_, ?_⟩), h.listed.removed,
    h.counted.outcomes, h.counted.defined⟩
  · rcases hsent with hsent | hunary
    · exact (htold.sent hsent).resolve_right (by simp [hstack])
    · exact htold.unary hunary hhanded
  · obtain ⟨-, hclosed | ⟨error, hmem⟩⟩ := (htold.ended hended).resolve_left (by simp [hstack])
    · exact hclosed
    · rw [hstack] at hmem
      cases hmem

/-- In every orderly run a stream calls its user back as it should. -/
theorem run_correct (events : List Event) (hmeet : AllMeet step Orderly new events)
    (h : run step new events = some s) : s.Correct := by
  have hkept := run_invariant (fun _ _ _ hinv hord hstep => Kept.step hinv hord hstep) hmeet kept_new h
  have htold := run_keeps (fun _ _ _ hinv hstep => Told.step hinv hstep) (told_idle rfl rfl rfl) h
  exact hkept.correct htold

/-! A stream that gets a response with two messages, and one whose user resets it in the callback
for the first message. -/

def okHeaders : Metadata := ⟨200, none, []⟩

def okTrailers : Metadata := ⟨0, some .ok, []⟩

def emptyFrame : DataFrame := ⟨0, 0, true⟩

def openEvents : List Event :=
  [.start false true, .returned, .returned, .http (.headers okHeaders false), .returned,
    .http (.data (some [emptyFrame, emptyFrame]) false)]

def responseEvents : List Event :=
  openEvents ++ [.returned, .returned, .user (.sendMessage true), .returned,
    .http (.trailers okTrailers), .returned, .returned]

theorem responseEvents_correct :
    ∃ s, run step new responseEvents = some s ∧ s.inserted = false ∧ s.handed = true ∧
      s.Correct := by
  have hran : (run step new responseEvents).map (fun s => (s.inserted, s.handed)) =
      some (false, true) := by decide +kernel
  obtain ⟨s, hs, hout⟩ := map_eq_some_iff.mp hran
  obtain ⟨hinserted, hhanded⟩ := Prod.mk.inj hout
  exact ⟨s, hs, hinserted, hhanded, run_correct responseEvents (by decide +kernel) hs⟩

/-- The second message is reported behind the reset. -/
theorem resetInCallback_not_correct :
    ¬ ∀ (events : List Event) (s : StreamRun), run step new events = some s → s.Correct := by
  intro h
  obtain ⟨s, hs, hlog⟩ : ∃ s,
      run step new (openEvents ++ [.user .resetStream, .returned]) = some s ∧
        s.log.take 3 = [.onReceiveMessage, .removed, .resetStream] := ⟨_, rfl, by decide +kernel⟩
  have hsilent := (h _ s hs).silent
  rw [← take_append_drop 3 s.log, hlog] at hsilent
  have hreset := (pairwise_cons.mp hsilent).1 .resetStream
    (mem_append_left _ (by decide)) rfl
  cases hreset

end StreamRun

end Meliproxy.Envoy.Grpc
