import Meliproxy.Envoy.Grpc.AsyncClient

/-!
# The steps of a gRPC stream

Where a stream is in the list of its client, and what has been called back, as one step after the
other changes them. A step is orderly if no user call and no HTTP event comes under a callback
behind which the stream calls back again, no HTTP event under the report of an error, and no reset
of the HTTP stream when the response has ended.
-/

namespace Meliproxy.Envoy.Grpc

open Lib List

def Quiet (log : List Report) : Prop := ∀ report ∈ log, report.terminal = false

variable {report : Report} {log : List Report}

theorem quiet_cons (h : report.terminal = false) : Quiet (report :: log) ↔ Quiet log := by
  simp [Quiet, h]

theorem not_quiet_cons (h : ¬ Quiet log) :
    ¬ Quiet (report :: log) := fun hquiet => h fun r hr => hquiet r (mem_cons_of_mem _ hr)

theorem not_quiet_of_terminal (h : report.terminal = true) :
    ¬ Quiet (report :: log) := fun hquiet => by
  simp [hquiet report mem_cons_self] at h

def Call.closing : Call → Bool
  | unavailable | remoteClose _ => true
  | _ => false

def Call.ending : Call → Bool
  | trailingMetadata | remoteClose _ => true
  | _ => false

/-- Its return ends a side. -/
def Call.awaited : Call → Bool
  | sendingData true => true
  | call => call.ending

namespace StreamRun

variable (s : StreamRun)

/-- Data do not come while a loop runs, and a response that has ended is not reset. -/
def OrderlyHttp : HttpEvent → Prop
  | .data _ false => ∀ call ∈ s.stack, call.isMessage = false
  | .reset => s.httpEnded = false
  | _ => True

/-- No step closes a stream under a callback that another one follows. -/
def Orderly : Event → Prop
  | .user .resetStream => ∀ call ∈ s.stack, call.pending = false
  | .http event =>
    (∀ call ∈ s.stack, call.pending = false ∧ call.error = false) ∧ s.OrderlyHttp event
  | _ => True

instance (event : HttpEvent) : Decidable (s.OrderlyHttp event) := by
  unfold OrderlyHttp
  split <;> infer_instance

instance (event : Event) : Decidable (s.Orderly event) := by
  unfold Orderly
  split <;> infer_instance

/-- The stream in the list of the client: it is put there once, when `start` returns, and removed
once. -/
structure Listed : Prop where
  starting : s.stack.countP Call.starting ≤ if s.handed then 0 else 1
  inserted : s.inserted = true → s.handed = true
  left : s.handed = true → s.inserted = false → s.httpReset = true
  removed : s.log.count .removed = if s.handed = true ∧ s.inserted = false then 1 else 0

/-- What keeps callbacks away from a stream that is closed. -/
structure Silent : Prop where
  one : s.stack.countP Call.pending ≤ 1
  pending : ∀ call ∈ s.stack, call.pending = true → Quiet s.log
  error : ∀ call ∈ s.stack.tail, call.error = false
  closing : ∀ call ∈ s.stack, call.closing = true → ¬ Quiet s.log
  closed : s.remoteClosed = true ∨ s.httpReset = true → ¬ Quiet s.log
  silent : s.log.Pairwise fun newer older => older.terminal = true → newer.isCallback = false

/-- A stream that is closed on both sides, or whose HTTP stream is gone, is torn down, and so is one
that was closed before the response has ended. -/
structure Torn : Prop where
  quiet : s.httpReset = false → s.httpEnded = false →
    Quiet s.log ∨ ∃ call ∈ s.stack, call.error = true
  reset : s.httpReset = true → s.inserted = true → ∃ call ∈ s.stack, call.error = true
  complete : s.localClosed = true → s.remoteClosed = true → s.httpReset = true
  ended : .trailingMetadata ∈ s.stack → s.httpEnded = true

structure Counted : Prop where
  outcomes : s.unary = true → s.outcomes.length = s.log.countP Report.isRemoteClose
  defined : s.undefined = false

/-- What every step keeps. -/
structure Kept : Prop where
  listed : s.Listed
  silent : s.Silent
  torn : s.Torn
  counted : s.Counted

variable {s : StreamRun}

theorem cleanup_eq (s : StreamRun) : s.cleanup = if s.inserted
      then { s with httpReset := true, inserted := false, log := .removed :: s.log }
      else { s with httpReset := true } := by
  obtain ⟨⟨_, _, httpReset, _⟩, _⟩ := s
  cases httpReset <;> rfl

theorem cleanup_httpReset (s : StreamRun) : s.cleanup.httpReset = true := by
  rw [cleanup_eq]
  split <;> rfl

theorem cleanup_inserted (s : StreamRun) : s.cleanup.inserted = false := by
  rw [cleanup_eq]
  split
  · rfl
  · rename_i h
    simpa using h

theorem Listed.cleanup (h : s.Listed) : s.cleanup.Listed := by
  rw [cleanup_eq]
  split
  · rename_i hinserted
    have hhanded := h.inserted hinserted
    refine ⟨h.starting, fun h => absurd h (by simp), fun _ _ => rfl, ?_⟩
    have hremoved := h.removed
    rw [hhanded, hinserted] at hremoved
    rw [count_cons_self, hremoved]
    simp [hhanded]
  · exact { h with left := fun _ _ => rfl }

theorem Silent.cleanup (h : s.Silent) (hclosed : ¬ Quiet s.log) : s.cleanup.Silent := by
  rw [cleanup_eq]
  split
  · have hquiet : Quiet (.removed :: s.log) ↔ Quiet s.log := quiet_cons rfl
    refine ⟨h.one, fun call hcall hpending => hquiet.mpr (h.pending call hcall hpending), h.error,
      fun call hcall hclosing => ?_, fun _ => ?_, ?_⟩
    · exact not_quiet_cons (h.closing call hcall hclosing)
    · exact not_quiet_cons hclosed
    · exact pairwise_cons.mpr ⟨fun _ _ _ => rfl, h.silent⟩
  · exact { h with closed := fun _ => hclosed }

theorem torn_cleanup (h : .trailingMetadata ∈ s.stack → s.httpEnded = true) : s.cleanup.Torn := by
  refine ⟨fun h => absurd (s.cleanup_httpReset.symm.trans h) (by decide),
    fun _ h => absurd (s.cleanup_inserted.symm.trans h) (by decide), fun _ _ => s.cleanup_httpReset,
    ?_⟩
  rw [cleanup_eq]
  split <;> exact h

theorem Counted.cleanup (h : s.Counted) : s.cleanup.Counted := by
  rw [cleanup_eq]
  split
  · refine ⟨fun hunary => ?_, h.defined⟩
    rw [countP_cons_of_neg (by decide)]
    exact h.outcomes hunary
  · exact ⟨h.outcomes, h.defined⟩

section Calls

variable {report : Report} {call : Call} {stack : List Call} {status : GrpcStatus}
  {message : Bytes}

theorem countP_starting (h : call.starting = false) :
    (call :: s.stack).countP Call.starting = s.stack.countP Call.starting :=
  countP_cons_of_neg (by simp [h])

theorem Listed.push (h : s.Listed) (hcall : call.starting = false) :
    Listed { s with stack := call :: s.stack } := by
  refine ⟨?_, h.inserted, h.left, h.removed⟩
  have hstarting := h.starting
  rwa [← countP_starting hcall] at hstarting

theorem Listed.callBack (h : s.Listed) (hcall : call.starting = false)
    (hreport : report.isCallback = true) : (s.callBack report call).Listed := by
  have hpush := h.push hcall
  refine ⟨hpush.starting, h.inserted, h.left, ?_⟩
  have hne : report ≠ .removed := by
    rintro rfl
    cases hreport
  rw [StreamRun.callBack, count_cons_of_ne hne]
  exact h.removed

theorem Listed.callRemoteClose (h : s.Listed) (hcall : call.starting = false) :
    (s.callRemoteClose status message call).Listed := by
  have houtcome : Listed { s with
      outcomes := if s.unary then s.outcome status message :: s.outcomes else s.outcomes } :=
    { h with }
  exact houtcome.callBack hcall rfl

theorem Silent.push (h : s.Silent) (hcall : call.pending = false) (hclosing : call.closing = false)
    (herror : ∀ call ∈ s.stack, call.error = false) :
    Silent { s with stack := call :: s.stack } := by
  refine ⟨?_, fun c hc hpending => ?_, herror, fun c hc hclose => ?_, h.closed, h.silent⟩
  · change (call :: s.stack).countP Call.pending ≤ 1
    rw [countP_cons_of_neg (by simp [hcall])]
    exact h.one
  · obtain rfl | hc := mem_cons.mp hc
    · cases hcall.symm.trans hpending
    · exact h.pending c hc hpending
  · obtain rfl | hc := mem_cons.mp hc
    · cases hclosing.symm.trans hclose
    · exact h.closing c hc hclose

theorem countP_pending (h : ∀ call ∈ s.stack, call.pending = false) :
    s.stack.countP Call.pending = 0 := countP_eq_zero.mpr fun call hcall => by simp [h call hcall]

theorem Silent.callBack (h : s.Silent) (hquiet : Quiet s.log)
    (hpending : ∀ call ∈ s.stack, call.pending = false)
    (herror : ∀ call ∈ s.stack, call.error = false) (hreport : report.terminal = false)
    (hcall : call.closing = false) : (s.callBack report call).Silent := by
  have hlog : Quiet (report :: s.log) := (quiet_cons hreport).mpr hquiet
  refine ⟨?_, fun _ _ _ => hlog, herror, fun c hc hclose => ?_, fun hclosed => ?_, ?_⟩
  · change (call :: s.stack).countP Call.pending ≤ 1
    rw [countP_cons, countP_pending hpending]
    split <;> decide
  · obtain rfl | hc := mem_cons.mp hc
    · cases hcall.symm.trans hclose
    · exact absurd hquiet (h.closing c hc hclose)
  · exact absurd hquiet (h.closed hclosed)
  · refine pairwise_cons.mpr ⟨fun older holder hterminal => ?_, h.silent⟩
    cases (hquiet older holder).symm.trans hterminal

theorem silent_callRemoteClose (hquiet : Quiet s.log)
    (hpending : ∀ call ∈ s.stack, call.pending = false)
    (herror : ∀ call ∈ s.stack, call.error = false)
    (hsilent : s.log.Pairwise fun newer older => older.terminal = true → newer.isCallback = false)
    (hcall : call.pending = false) : (s.callRemoteClose status message call).Silent := by
  have hlog : ¬ Quiet (.onRemoteClose status message :: s.log) := not_quiet_of_terminal rfl
  refine ⟨?_, fun c hc hpend => ?_, herror, fun _ _ _ => hlog, fun _ => hlog, ?_⟩
  · change (call :: s.stack).countP Call.pending ≤ 1
    rw [countP_cons_of_neg (by simp [hcall]), countP_pending hpending]
    exact Nat.zero_le 1
  · obtain rfl | hc := mem_cons.mp hc
    · cases hcall.symm.trans hpend
    · cases (hpending c hc).symm.trans hpend
  · refine pairwise_cons.mpr ⟨fun older holder hterminal => ?_, hsilent⟩
    cases (hquiet older holder).symm.trans hterminal

theorem Torn.callRemoteClose (h : s.Torn) (hend : s.httpEnded = true) :
    (s.callRemoteClose status message call).Torn := by
  refine ⟨fun _ hended => absurd (hend.symm.trans hended) (by decide), fun hreset hinserted => ?_,
    h.complete, fun _ => hend⟩
  obtain ⟨c, hc, herror⟩ := h.reset hreset hinserted
  exact ⟨c, mem_cons_of_mem _ hc, herror⟩

theorem torn_error (hcall : call.error = true)
    (hcomplete : s.localClosed = true → s.remoteClosed = true → s.httpReset = true)
    (hended : .trailingMetadata ∈ s.stack → s.httpEnded = true) :
    (s.callRemoteClose status message call).Torn := by
  refine ⟨fun _ _ => .inr ⟨call, mem_cons_self, hcall⟩,
    fun _ _ => ⟨call, mem_cons_self, hcall⟩, hcomplete, fun hmem => ?_⟩
  obtain rfl | hmem := mem_cons.mp hmem
  · cases hcall
  · exact hended hmem

theorem Torn.push (h : s.Torn) (hcall : call ≠ .trailingMetadata) :
    Torn { s with stack := call :: s.stack } := by
  refine ⟨fun hreset hended => ?_, fun hreset hinserted => ?_, h.complete, fun hmem => ?_⟩
  · refine (h.quiet hreset hended).imp_right ?_
    rintro ⟨c, hc, herror⟩
    exact ⟨c, mem_cons_of_mem _ hc, herror⟩
  · obtain ⟨c, hc, herror⟩ := h.reset hreset hinserted
    exact ⟨c, mem_cons_of_mem _ hc, herror⟩
  · obtain heq | hmem := mem_cons.mp hmem
    · exact absurd heq.symm hcall
    · exact h.ended hmem

theorem Torn.callBack (h : s.Torn) (hreport : report.terminal = false)
    (hcall : call = .trailingMetadata → s.httpEnded = true) : (s.callBack report call).Torn := by
  refine ⟨fun hreset hended => ?_, fun hreset hinserted => ?_, h.complete, fun hmem => ?_⟩
  · refine (h.quiet hreset hended).imp (quiet_cons hreport).mpr ?_
    rintro ⟨c, hc, herror⟩
    exact ⟨c, mem_cons_of_mem _ hc, herror⟩
  · obtain ⟨c, hc, herror⟩ := h.reset hreset hinserted
    exact ⟨c, mem_cons_of_mem _ hc, herror⟩
  · obtain heq | hmem := mem_cons.mp hmem
    · exact hcall heq.symm
    · exact h.ended hmem

theorem Counted.callBack (h : s.Counted) (hreport : report.isRemoteClose = false) :
    (s.callBack report call).Counted := by
  refine ⟨fun hunary => ?_, h.defined⟩
  change s.outcomes.length = (report :: s.log).countP Report.isRemoteClose
  rw [countP_cons_of_neg (by simp [hreport])]
  exact h.outcomes hunary

theorem Counted.callRemoteClose (h : s.Counted) :
    (s.callRemoteClose status message call).Counted := by
  refine ⟨fun hunary => ?_, h.defined⟩
  change (if s.unary then s.outcome status message :: s.outcomes else s.outcomes).length =
    (Report.onRemoteClose status message :: s.log).countP Report.isRemoteClose
  change s.unary = true at hunary
  rw [if_pos hunary, countP_cons_of_pos rfl, length_cons, h.outcomes hunary]

end Calls

/-- What was reported, called and closed stays so. -/
structure Onward (s s' : StreamRun) : Prop where
  log : s.log <:+ s'.log
  stack : s.stack <:+ s'.stack
  remoteClosed : s.remoteClosed = true → s'.remoteClosed = true
  localClosed : s.localClosed = true → s'.localClosed = true
  unary : s'.unary = s.unary
  handed : s'.handed = s.handed
  ended : s'.ended = s.ended
  sent : s'.sent = s.sent

variable (s)

theorem Onward.refl : Onward s s :=
  ⟨suffix_rfl, suffix_rfl, id, id, rfl, rfl, rfl, rfl⟩

theorem onward_callBack (report : Report) (call : Call) : Onward s (s.callBack report call) :=
  ⟨suffix_cons .., suffix_cons .., id, id, rfl, rfl, rfl, rfl⟩

theorem onward_streamError (status : GrpcStatus) (message : Bytes) :
    Onward s (s.streamError status message) :=
  ⟨suffix_cons .., suffix_cons .., id, id, rfl, rfl, rfl, rfl⟩

theorem onward_closed {localClosed remoteClosed : Bool}
    (hlocal : s.localClosed = true → localClosed = true)
    (hremote : s.remoteClosed = true → remoteClosed = true) :
    Onward s { s with localClosed, remoteClosed } ∧
      Onward s { s with localClosed, remoteClosed }.cleanup := by
  refine ⟨⟨suffix_rfl, suffix_rfl, hremote, hlocal, rfl, rfl, rfl, rfl⟩, ?_⟩
  rw [cleanup_eq]
  split
  · exact ⟨suffix_cons .., suffix_rfl, hremote, hlocal, rfl, rfl, rfl, rfl⟩
  · exact ⟨suffix_rfl, suffix_rfl, hremote, hlocal, rfl, rfl, rfl, rfl⟩

theorem onward_closeLocal : Onward s s.closeLocal := by
  obtain ⟨hopen, hclosed⟩ := s.onward_closed (fun _ => rfl) id
  unfold closeLocal
  dsimp only
  split
  · exact hclosed
  · exact hopen

theorem onward_closeRemote : Onward s s.closeRemote := by
  obtain ⟨hopen, hclosed⟩ := s.onward_closed id fun _ => rfl
  unfold closeRemote
  dsimp only
  split
  · exact hclosed
  · exact hopen

theorem onward_receive (frames : List DataFrame) : Onward s (s.receive frames) := by
  cases frames with
  | nil => exact .refl s
  | cons frame rest =>
    rw [receive]
    split
    · exact s.onward_streamError _ _
    · exact ⟨suffix_cons .., suffix_cons .., id, id, rfl, rfl, rfl, rfl⟩

/-- The end of the response is reported, or will be when `onReceiveTrailingMetadata` returns. -/
def Reported : Prop :=
  .trailingMetadata ∈ s.stack ∨
    ¬ Quiet s.log ∧ (s.remoteClosed = true ∨ ∃ error, .remoteClose error ∈ s.stack)

variable {s}

theorem not_quiet_of_suffix {log log' : List Report} (hlog : log <:+ log') (h : ¬ Quiet log) :
    ¬ Quiet log' := fun hquiet => h fun report hreport => hquiet report (hlog.subset hreport)

variable {s' : StreamRun}

theorem Onward.reported (h : Onward s s') (hreported : s.Reported) :
    s'.Reported := by
  rcases hreported with htrailing | ⟨hlog, hclosed | ⟨error, herror⟩⟩
  · exact .inl (h.stack.subset htrailing)
  · exact .inr ⟨not_quiet_of_suffix h.log hlog, .inl (h.remoteClosed hclosed)⟩
  · exact .inr ⟨not_quiet_of_suffix h.log hlog, .inr ⟨error, h.stack.subset herror⟩⟩

/-- What has ended or was sent has an effect. -/
structure Told (s : StreamRun) : Prop where
  ended : s.ended = true → s.Reported
  sent : s.sent = true → s.localClosed = true ∨ .sendingData true ∈ s.stack
  unary : s.unary = true → s.handed = true → s.localClosed = true

theorem Onward.told (h : Onward s s') (htold : s.Told) : s'.Told := by
  refine ⟨fun hended => h.reported (htold.ended (h.ended ▸ hended)), fun hsent => ?_,
    fun hunary hhanded => h.localClosed (htold.unary (h.unary ▸ hunary) (h.handed ▸ hhanded))⟩
  exact (htold.sent (h.sent ▸ hsent)).imp h.localClosed fun hmem => h.stack.subset hmem

variable (s)

theorem reported_streamError (status : GrpcStatus) (message : Bytes) :
    (s.streamError status message).Reported :=
  .inr ⟨not_quiet_of_terminal rfl, .inr ⟨true, mem_cons_self⟩⟩

theorem reported_onTrailers (trailers : Metadata) :
    Onward s (s.onTrailers trailers) ∧ (s.onTrailers trailers).Reported := by
  unfold onTrailers
  split
  · exact ⟨s.onward_streamError _ _, s.reported_streamError _ _⟩
  · split
    · exact ⟨s.onward_streamError _ _, s.reported_streamError _ _⟩
    · exact ⟨s.onward_callBack _ _, .inl mem_cons_self⟩

theorem reported_onHeaders (headers : Metadata) (endStream : Bool) :
    Onward s (s.onHeaders headers endStream) ∧
      (endStream = true → (s.onHeaders headers endStream).Reported) := by
  have htrailers := s.reported_onTrailers headers
  unfold onHeaders
  split
  · split
    · exact ⟨htrailers.1, fun _ => htrailers.2⟩
    · exact ⟨s.onward_streamError _ _, fun _ => s.reported_streamError _ _⟩
  · split
    · exact ⟨htrailers.1, fun _ => htrailers.2⟩
    · rename_i hend
      exact ⟨s.onward_callBack _ _, fun hended => absurd hended hend⟩

theorem reported_onData (frames : Option (List DataFrame)) (endStream : Bool) :
    Onward s (s.onData frames endStream) ∧
      (endStream = true → (s.onData frames endStream).Reported) := by
  unfold onData
  split
  · exact ⟨s.onward_streamError _ _, fun _ => s.reported_streamError _ _⟩
  · rename_i hend
    refine ⟨?_, fun hended => absurd hended hend⟩
    cases frames with
    | none => exact { onward_streamError _ _ _ with }
    | some frames => exact { onward_receive _ frames with }

variable {s}

theorem reported_deliver {event : HttpEvent} (hcan : s.canDeliver event = true) :
    Onward s (s.deliver event) ∧ (event.ends = true → (s.deliver event).Reported) := by
  cases event with
  | headers headers endStream =>
    obtain ⟨honward, hreported⟩ :=
      reported_onHeaders { s with httpHeaders := true, httpEnded := endStream } headers endStream
    exact ⟨{ honward with }, hreported⟩
  | data frames endStream =>
    obtain ⟨honward, hreported⟩ := reported_onData { s with httpEnded := endStream } frames endStream
    exact ⟨{ honward with }, hreported⟩
  | trailers trailers =>
    obtain ⟨honward, hreported⟩ := reported_onTrailers { s with httpEnded := true } trailers
    exact ⟨{ honward with }, fun _ => hreported⟩
  | reset =>
    simp only [canDeliver, Bool.and_eq_true, Bool.not_eq_true'] at hcan
    rw [deliver, onReset, if_neg (Bool.eq_false_iff.mp hcan.1)]
    exact ⟨{ onward_streamError { s with httpReset := true } _ _ with },
      fun _ => reported_streamError _ _ _⟩

theorem Told.deliver (h : s.Told) {event : HttpEvent} (hcan : s.canDeliver event = true) :
    Told ({ s with ended := s.ended || event.ends }.deliver event) := by
  obtain ⟨honward, hreported⟩ :=
    reported_deliver (s := { s with ended := s.ended || event.ends }) hcan
  refine ⟨fun hended => ?_, fun hsent => ?_, fun hunary hhanded => ?_⟩
  · rw [honward.ended, Bool.or_eq_true] at hended
    rcases hended with hended | hends
    · exact honward.reported (h.ended hended)
    · exact hreported hends
  · exact (h.sent (honward.sent ▸ hsent)).imp honward.localClosed fun hmem => honward.stack.subset hmem
  · exact honward.localClosed (h.unary (honward.unary ▸ hunary) (honward.handed ▸ hhanded))

theorem Told.userCall (h : s.Told) (call : UserCall) : ((s.asked call).userCall call).Told := by
  have hpush {endStream sent : Bool} (hsent : sent = true → s.sent = true ∨ endStream = true) :
      Told { s with sent, stack := .sendingData endStream :: s.stack } := by
    have honward : Onward s { s with stack := .sendingData endStream :: s.stack } :=
      ⟨suffix_rfl, suffix_cons .., id, id, rfl, rfl, rfl, rfl⟩
    refine ⟨(honward.told h).ended, fun htrue => ?_, h.unary⟩
    rcases hsent htrue with hbefore | rfl
    · exact (honward.told h).sent hbefore
    · exact .inr mem_cons_self
  cases call with
  | sendMessage endStream => exact hpush fun hsent => (Bool.or_eq_true ..).mp hsent
  | closeStream => exact hpush fun _ => .inr rfl
  | resetStream =>
    have hlog : Onward s { s with log := .resetStream :: s.log } :=
      ⟨suffix_cons .., suffix_rfl, id, id, rfl, rfl, rfl, rfl⟩
    exact (onward_closed _ (fun _ => rfl) fun _ => rfl).2.told (hlog.told h)

theorem Told.finishStart (h : s.Told) (hclosed : s.unary = true → s.httpReset = false →
    s.localClosed = true) : s.finishStart.Told := by
  unfold StreamRun.finishStart
  split
  · exact h
  · rename_i hreset
    exact { h with unary := fun hunary _ => hclosed hunary (Bool.eq_false_iff.mpr hreset) }

/-- A call that has returned leaves what is told to the rest, but for what it goes on with. -/
theorem Told.resumed (h : s.Told) {call : Call} {stack : List Call} (hstack : s.stack = call :: stack)
    (honward : Onward { s with stack } s')
    (hending : call.ending = true → s.Reported → s'.Reported)
    (hsending : call = .sendingData true → s'.localClosed = true) : s'.Told := by
  have hrest {other : Call} (hmem : other ∈ s.stack) (hne : call ≠ other) : other ∈ s'.stack := by
    rw [hstack] at hmem
    exact honward.stack.subset ((mem_cons.mp hmem).resolve_left hne.symm)
  refine ⟨fun hended => ?_, fun hsent => ?_, fun hunary hhanded => honward.localClosed
    (h.unary (honward.unary ▸ hunary) (honward.handed ▸ hhanded))⟩
  · have hreported := h.ended (honward.ended ▸ hended)
    cases hcall : call.ending with
    | true => exact hending hcall hreported
    | false =>
      refine honward.reported ?_
      unfold Reported at hreported ⊢
      rw [hstack] at hreported
      refine hreported.imp (fun hmem => ?_) (And.imp_right (Or.imp_right (Exists.imp fun _ hmem => ?_)))
      all_goals
        refine (mem_cons.mp hmem).resolve_left ?_
        rintro rfl
        cases hcall
  · by_cases hcall : call = .sendingData true
    · exact .inl (hsending hcall)
    · exact (h.sent (honward.sent ▸ hsent)).imp honward.localClosed fun hmem => hrest hmem hcall

theorem Told.popped (h : s.Told) {call : Call} {stack : List Call} (hstack : s.stack = call :: stack)
    (honward : Onward { s with stack } s') (hcall : call.awaited = false) :
    s'.Told := by
  refine h.resumed hstack honward (fun hending => ?_) ?_
  · cases call <;> cases hending <;> cases hcall
  · rintro rfl
    cases hcall

theorem closeLocal_frame (s : StreamRun) : s.closeLocal.stack = s.stack ∧
    s.closeLocal.handed = s.handed ∧ s.closeLocal.localClosed = true := by
  unfold closeLocal
  dsimp only
  rw [cleanup_eq]
  split
  · split <;> exact ⟨rfl, rfl, rfl⟩
  · exact ⟨rfl, rfl, rfl⟩

theorem cleanup_remoteClosed (s : StreamRun) : s.cleanup.remoteClosed = s.remoteClosed := by
  rw [cleanup_eq]
  split <;> rfl

theorem closeRemote_remoteClosed (s : StreamRun) : s.closeRemote.remoteClosed = true := by
  unfold closeRemote
  dsimp only
  rw [cleanup_eq]
  split
  · split <;> rfl
  · rfl

end StreamRun

end Meliproxy.Envoy.Grpc
