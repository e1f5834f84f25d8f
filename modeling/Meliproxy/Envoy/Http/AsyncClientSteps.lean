import Meliproxy.Envoy.Http.AsyncClient

/-!
# The steps of an HTTP stream

Where a stream is in the list of its client, what has been called back and which side is closed, as
one step after the other changes them. A step is orderly if no stream is reset inside the call that
ends its local side, nor by its user or its client when the response has ended or it was reset
already.
-/

namespace Meliproxy.Envoy.Http

open Lib List

namespace AsyncRun

def Quiet (log : List AsyncReport) : Prop := ∀ report ∈ log, report.terminal = false

instance (log : List AsyncReport) : Decidable (Quiet log) :=
  inferInstanceAs (Decidable (∀ report ∈ log, report.terminal = false))

theorem quiet_cons {report : AsyncReport} {log : List AsyncReport} (h : report.terminal = false) :
    Quiet (report :: log) ↔ Quiet log := by
  simp [Quiet, h]

theorem not_quiet_of_terminal {report : AsyncReport} {log : List AsyncReport}
    (h : report.terminal = true) : ¬ Quiet (report :: log) := fun hquiet => by
  simp [hquiet report mem_cons_self] at h

variable (s : AsyncRun)

/-- A reset does not come inside the call that ends the local side, and not behind the end. -/
def Orderly : AsyncEvent → Prop
  | .reset | .destroyClient =>
    s.inserted = true → Quiet s.log ∧ ∀ call ∈ s.stack, call.ends = false
  | .resetStream => ∀ call ∈ s.stack, call.ends = false
  | _ => True

instance (event : AsyncEvent) : Decidable (s.Orderly event) := by
  unfold Orderly
  split <;> infer_instance

/-- A stream is in the list from when it is handed out until it leaves, and is released then. -/
structure Listed : Prop where
  bottom : s.stack.Pairwise fun upper _ => upper.starting = false
  starting : s.handed = true ∨ s.null = true → ∀ call ∈ s.stack, call.starting = false
  null : s.null = true → s.handed = false
  inserted : s.inserted = true → s.handed = true
  removed : s.log.count .removed = if s.handed = true ∧ s.inserted = false then 1 else 0
  released : s.log.count .released =
    if (s.handed = true ∧ s.inserted = false) ∨ s.null = true then 1 else 0

/-- What keeps callbacks away from a stream that has ended. -/
structure Silent : Prop where
  quiet : s.done = false → s.destroyed = false → Quiet s.log
  closed : s.remoteClosed = true → (s.done = true ∨ s.destroyed = true) ∧ ¬ Quiet s.log
  closing : ∀ call ∈ s.stack, call.closing = true →
    (s.done = true ∨ s.destroyed = true) ∧ ¬ Quiet s.log
  silent : s.log.Pairwise fun newer older => older.terminal = true → newer.isCallback = false

/-- The local side is ended once, and closed when the call that ends it returns. -/
structure Ended : Prop where
  ends : ∀ call ∈ s.stack, call.ends = true → s.localClosed = false ∧ s.localEnded = true
  one : s.stack.countP AsyncCall.ends ≤ 1
  unsent : s.localClosed = true → s.localEnded = true ∨ s.remoteClosed = true
  body : .requestHeaders false ∈ s.stack → s.localEnded = false
  headers : s.request = false → s.headersSent = false → s.localEnded = false
  under : s.stack.Pairwise fun upper lower => upper = .reset → lower.ends = false
  failed : s.failed = false

/-- What is true of requests only. -/
structure Requests : Prop where
  outcome : s.request = true → ∀ report ∈ s.log, report.isCallback = true → report.isOutcome = true
  ends : s.request = true → ∀ call ∈ s.stack, call.ends = true → call.starting = true
  starting : ∀ call ∈ s.stack, call.starting = true → s.request = true
  cancel : s.handed = false → .cancel ∉ s.log
  cancelled : s.cancelled = true → ¬ Quiet s.log
  returned : s.request = true → s.handed = true ∨ s.null = true → s.null = s.delivered

/-- What a stream that is closed on both sides has come to, and what one waits for that has called
back for the last time. -/
structure Settled : Prop where
  left : s.handed = true → s.inserted = false → s.localClosed = true ∧ s.remoteClosed = true
  complete : s.localClosed = true → s.remoteClosed = true → s.inserted = false
  waiting : ¬ Quiet s.log → s.remoteClosed = true ∨ ∃ call ∈ s.stack, call.closing = true

/-- What every step keeps. -/
structure Kept : Prop where
  listed : s.Listed
  silent : s.Silent
  ended : s.Ended
  requests : s.Requests
  settled : s.Settled

variable {s : AsyncRun} {call : AsyncCall} {report : AsyncReport}

theorem cleanup_eq (s : AsyncRun) : s.cleanup = if s.inserted
      then { s with
        localClosed := true, remoteClosed := true, inserted := false
        log := .released :: .removed :: s.log }
      else { s with localClosed := true, remoteClosed := true } := rfl

theorem Listed.cleanup (h : s.Listed) : s.cleanup.Listed := by
  rw [cleanup_eq]
  split
  · rename_i hinserted
    have hhanded := h.inserted hinserted
    have hnull : s.null = false := by
      cases hnull : s.null with
      | false => rfl
      | true => cases (h.null hnull).symm.trans hhanded
    have hremoved := h.removed
    have hreleased := h.released
    simp only [hhanded, hinserted, hnull, Bool.true_eq_false, Bool.false_eq_true, and_false,
      or_self, if_false] at hremoved hreleased
    refine ⟨h.bottom, h.starting, h.null, fun hin => (by cases hin), ?_, ?_⟩
    · simp [hremoved, hhanded]
    · simp [hreleased, hhanded]
  · exact { h with }

theorem Silent.cleanup (h : s.Silent) (hclosed : s.done = true ∨ s.destroyed = true)
    (hlog : ¬ Quiet s.log) : s.cleanup.Silent := by
  rw [cleanup_eq]
  split
  · have hquiet : Quiet (.released :: .removed :: s.log) ↔ Quiet s.log :=
      (quiet_cons rfl).trans (quiet_cons rfl)
    refine ⟨fun hdone hdestroyed => hquiet.mpr (h.quiet hdone hdestroyed),
      fun _ => ⟨hclosed, fun hq => hlog (hquiet.mp hq)⟩,
      fun _ _ _ => ⟨hclosed, fun hq => hlog (hquiet.mp hq)⟩, ?_⟩
    refine pairwise_cons.mpr ⟨fun _ _ _ => rfl, ?_⟩
    exact pairwise_cons.mpr ⟨fun _ _ _ => rfl, h.silent⟩
  · exact ⟨h.quiet, fun _ => ⟨hclosed, hlog⟩, h.closing, h.silent⟩

theorem Ended.cleanup (h : s.Ended) (hends : ∀ call ∈ s.stack, call.ends = false) :
    s.cleanup.Ended := by
  have hnone : ∀ call ∈ s.stack, call.ends = true → False :=
    fun call hcall htrue => absurd ((hends call hcall).symm.trans htrue) (by decide)
  rw [cleanup_eq]
  split <;>
    exact { h with
        ends := fun call hcall htrue => (hnone call hcall htrue).elim, unsent := fun _ => .inr rfl }

theorem Requests.cleanup (h : s.Requests) : s.cleanup.Requests := by
  rw [cleanup_eq]
  split
  · refine ⟨fun hrequest r hr hcallback => ?_, h.ends, h.starting, fun hhanded hmem => ?_,
      fun hcancelled hquiet => ?_, h.returned⟩
    · obtain rfl | hr := mem_cons.mp hr
      · cases hcallback
      obtain rfl | hr := mem_cons.mp hr
      · cases hcallback
      · exact h.outcome hrequest r hr hcallback
    · exact h.cancel hhanded (by simpa using hmem)
    · exact h.cancelled hcancelled ((quiet_cons rfl).mp ((quiet_cons rfl).mp hquiet))
  · exact { h with }

theorem settled_cleanup (s : AsyncRun) : s.cleanup.Settled := by
  rw [cleanup_eq]
  split
  · exact ⟨fun _ _ => ⟨rfl, rfl⟩, fun _ _ => rfl, fun _ => .inl rfl⟩
  · rename_i hout
    exact ⟨fun _ _ => ⟨rfl, rfl⟩, fun _ _ => by simpa using hout, fun _ => .inl rfl⟩

theorem kept_cleanup (hlisted : s.Listed) (hsilent : s.Silent) (hended : s.Ended)
    (hrequests : s.Requests) (hclosed : s.done = true ∨ s.destroyed = true)
    (hlog : ¬ Quiet s.log) (hends : ∀ call ∈ s.stack, call.ends = false) : s.cleanup.Kept :=
  ⟨hlisted.cleanup, hsilent.cleanup hclosed hlog, hended.cleanup hends, hrequests.cleanup,
    settled_cleanup s⟩

theorem kept_close (hlisted : s.Listed) (hsilent : s.Silent) (hended : s.Ended)
    (hrequests : s.Requests)
    (hleft : s.handed = true → s.inserted = false → s.localClosed = true ∧ s.remoteClosed = true)
    (hwaiting : ¬ Quiet s.log → s.remoteClosed = true ∨ ∃ call ∈ s.stack, call.closing = true) :
    Kept (if s.complete then s.cleanup else s) := by
  split
  · rename_i hcomplete
    obtain ⟨hlocal, hremote⟩ := Bool.and_eq_true_iff.mp hcomplete
    obtain ⟨hclosed, hlog⟩ := hsilent.closed hremote
    refine kept_cleanup hlisted hsilent hended hrequests hclosed hlog fun call hcall => ?_
    cases hends : call.ends with
    | false => rfl
    | true => cases (hended.ends call hcall hends).1.symm.trans hlocal
  · rename_i hcomplete
    refine ⟨hlisted, hsilent, hended, hrequests, hleft, fun hlocal hremote => ?_, hwaiting⟩
    exact absurd (Bool.and_eq_true_iff.mpr ⟨hlocal, hremote⟩) hcomplete

theorem Kept.closeLocal (h : s.Kept) (endStream : Bool)
    (hend : endStream = true → s.localClosed = false ∧ s.localEnded = true ∧
      ∀ call ∈ s.stack, call.ends = false) : (s.closeLocal endStream).Kept := by
  cases endStream with
  | false =>
    have heq : s.closeLocal false = if s.complete then s.cleanup else s := by
      unfold AsyncRun.closeLocal
      simp
    rw [heq]
    exact kept_close h.listed h.silent h.ended h.requests h.settled.left h.settled.waiting
  | true =>
    obtain ⟨hlocal, hlocalEnded, hnone⟩ := hend rfl
    have heq : s.closeLocal true =
        if complete { s with localClosed := true } then cleanup { s with localClosed := true }
        else { s with localClosed := true } := by
      unfold AsyncRun.closeLocal
      simp [hlocal]
    rw [heq]
    refine kept_close { h.listed with }
      { h.silent with }
      { h.ended with ends := fun call hcall hends => ?_, unsent := fun _ => .inl hlocalEnded }
      { h.requests with }
      (fun hhanded hout => ⟨rfl, (h.settled.left hhanded hout).2⟩) h.settled.waiting
    cases (hnone call hcall).symm.trans hends

theorem kept_closeRemote (hlisted : s.Listed) (hsilent : s.Silent) (hended : s.Ended)
    (hrequests : s.Requests)
    (hleft : s.handed = true → s.inserted = false → s.localClosed = true ∧ s.remoteClosed = true)
    (hclosed : s.done = true ∨ s.destroyed = true) (hlog : ¬ Quiet s.log) :
    (s.closeRemote true).Kept := by
  have heq : s.closeRemote true =
      if complete { s with remoteClosed := true } then cleanup { s with remoteClosed := true }
      else { s with remoteClosed := true } := by
    unfold AsyncRun.closeRemote
    simp
  rw [heq]
  exact kept_close { hlisted with }
    { hsilent with closed := fun _ => ⟨hclosed, hlog⟩ }
    { hended with unsent := fun _ => .inr rfl }
    { hrequests with }
    (fun hhanded hout => ⟨(hleft hhanded hout).1, rfl⟩) fun _ => .inl rfl

theorem Kept.closeRemote_false (h : s.Kept) : (s.closeRemote false).Kept := by
  have heq : s.closeRemote false = if s.complete then s.cleanup else s := by
    unfold AsyncRun.closeRemote
    simp
  rw [heq]
  exact kept_close h.listed h.silent h.ended h.requests h.settled.left h.settled.waiting

theorem Listed.callBack (h : s.Listed) (hreport : report.isCallback = true)
    (hcall : call.starting = false) : (s.callBack report call).Listed := by
  have hremoved : report ≠ .removed := by
    rintro rfl
    cases hreport
  have hreleased : report ≠ .released := by
    rintro rfl
    cases hreport
  refine ⟨pairwise_cons.mpr ⟨fun _ _ => hcall, h.bottom⟩, fun hout c hc => ?_, h.null,
    h.inserted, ?_, ?_⟩
  · obtain rfl | hc := mem_cons.mp hc
    · exact hcall
    · exact h.starting hout c hc
  · exact (count_cons_of_ne hremoved).trans h.removed
  · exact (count_cons_of_ne hreleased).trans h.released

theorem Silent.callBack (h : s.Silent) (hquiet : Quiet s.log)
    (hdone : report.terminal = true → s.done = true ∨ s.destroyed = true)
    (hcall : call.closing = true → report.terminal = true) : (s.callBack report call).Silent := by
  refine ⟨fun hopen hdestroyed => ?_, fun hremote => absurd hquiet (h.closed hremote).2,
    fun c hc hclosing => ?_, ?_⟩
  · have hterminal : report.terminal = false := by
      cases hterminal : report.terminal with
      | false => rfl
      | true =>
        obtain htrue | htrue := hdone hterminal
        · cases hopen.symm.trans htrue
        · cases hdestroyed.symm.trans htrue
    exact (quiet_cons hterminal).mpr hquiet
  · obtain rfl | hc := mem_cons.mp hc
    · exact ⟨hdone (hcall hclosing), not_quiet_of_terminal (hcall hclosing)⟩
    · exact absurd hquiet (h.closing c hc hclosing).2
  · refine pairwise_cons.mpr ⟨fun older holder hterminal => ?_, h.silent⟩
    cases (hquiet older holder).symm.trans hterminal

theorem Ended.callBack (h : s.Ended) (hends : call.ends = false)
    (hbody : call ≠ .requestHeaders false)
    (hunder : call = .reset → ∀ lower ∈ s.stack, lower.ends = false) :
    (s.callBack report call).Ended := by
  refine ⟨fun c hc htrue => ?_, ?_, h.unsent, fun hmem => ?_, h.headers, ?_, h.failed⟩
  · obtain rfl | hc := mem_cons.mp hc
    · cases hends.symm.trans htrue
    · exact h.ends c hc htrue
  · change (call :: s.stack).countP AsyncCall.ends ≤ 1
    rw [countP_cons_of_neg (by simp [hends])]
    exact h.one
  · obtain heq | hmem := mem_cons.mp hmem
    · exact absurd heq.symm hbody
    · exact h.body hmem
  · exact pairwise_cons.mpr ⟨fun lower hlower heq => hunder heq lower hlower, h.under⟩

theorem Requests.callBack (h : s.Requests) (hends : call.ends = false)
    (hstarting : call.starting = false)
    (houtcome : s.request = true → report.isOutcome = true) (hcancel : report ≠ .cancel) :
    (s.callBack report call).Requests := by
  refine ⟨fun hrequest r hr hcallback => ?_, fun hrequest c hc htrue => ?_, fun c hc htrue => ?_,
    fun hhanded hmem => ?_, fun hcancelled hquiet => ?_, h.returned⟩
  · obtain rfl | hr := mem_cons.mp hr
    · exact houtcome hrequest
    · exact h.outcome hrequest r hr hcallback
  · obtain rfl | hc := mem_cons.mp hc
    · cases hends.symm.trans htrue
    · exact h.ends hrequest c hc htrue
  · obtain rfl | hc := mem_cons.mp hc
    · cases hstarting.symm.trans htrue
    · exact h.starting c hc htrue
  · obtain heq | hmem := mem_cons.mp hmem
    · exact hcancel heq.symm
    · exact h.cancel hhanded hmem
  · exact h.cancelled hcancelled fun r hr => hquiet r (mem_cons_of_mem _ hr)

theorem Settled.callBack (h : s.Settled) (hquiet : Quiet s.log)
    (hcall : report.terminal = true → call.closing = true) : (s.callBack report call).Settled := by
  refine ⟨h.left, h.complete, fun hlog => .inr ⟨call, mem_cons_self, hcall ?_⟩⟩
  cases hterminal : report.terminal with
  | true => rfl
  | false => exact absurd ((quiet_cons hterminal).mpr hquiet) hlog

/-!
## Answers and calls of an HTTP stream

What the answers of the router and the calls of a user keep.
-/

variable {s' : AsyncRun} {stack : List AsyncCall}

section

variable (h : s.Kept)
include h

theorem Kept.flags (hquiet : Quiet s.log) (started done destroyed : Bool) :
    Kept { s with responseStarted := started, done, destroyed } := by
  refine ⟨{ h.listed with },
    ⟨fun _ _ => hquiet, fun hremote => absurd hquiet (h.silent.closed hremote).2,
      fun c hc hclosing => absurd hquiet (h.silent.closing c hc hclosing).2, h.silent.silent⟩,
    { h.ended with }, { h.requests with },
    ⟨h.settled.left, h.settled.complete, fun hlog => absurd hquiet hlog⟩⟩

theorem Kept.callBack (hquiet : Quiet s.log) {report : AsyncReport}
    (hreport : report.isCallback = true) (hstarting : call.starting = false)
    (hends : call.ends = false) (hclosing : call.closing = report.terminal)
    (hdone : report.terminal = true → s.done = true ∨ s.destroyed = true)
    (hunder : call = .reset → ∀ lower ∈ s.stack, lower.ends = false)
    (houtcome : s.request = true → report.isOutcome = true) : (s.callBack report call).Kept := by
  have hbody : call ≠ .requestHeaders false := by
    rintro rfl
    cases hstarting
  have hcancel : report ≠ .cancel := by
    rintro rfl
    cases hreport
  exact ⟨h.listed.callBack hreport hstarting,
    h.silent.callBack hquiet hdone fun htrue => hclosing.symm.trans htrue,
    h.ended.callBack hends hbody hunder, h.requests.callBack hends hstarting houtcome hcancel,
    h.settled.callBack hquiet fun htrue => hclosing.trans htrue⟩

theorem routing_quiet (hrouting : s.routing = true) : Quiet s.log ∧ s.remoteClosed = false := by
  simp only [routing, Bool.and_eq_true, Bool.not_eq_true'] at hrouting
  obtain ⟨⟨-, hdone⟩, hdestroyed⟩ := hrouting
  have hquiet := h.silent.quiet hdone hdestroyed
  refine ⟨hquiet, ?_⟩
  cases hremote : s.remoteClosed with
  | false => rfl
  | true => exact absurd hquiet (h.silent.closed hremote).2

theorem Kept.encode (hquiet : Quiet s.log) (hremote : s.remoteClosed = false)
    {report : AsyncReport} {endStream : Bool} (hdone : endStream = true → s.done = true)
    (hreport : report.isCallback = true) (hterminal : report.terminal = endStream) :
    (s.encode report endStream).Kept := by
  have heq : { s with failed := s.failed || s.remoteClosed } = s := by rw [hremote, Bool.or_false]
  unfold AsyncRun.encode
  rw [heq]
  dsimp only
  split
  · split
    · rename_i hend
      exact h.callBack hquiet rfl rfl rfl rfl (fun _ => .inl (hdone hend)) (fun hcall => by
        cases hcall) fun _ => rfl
    · exact h.closeRemote_false
  · rename_i hstream
    exact h.callBack hquiet hreport rfl rfl hterminal.symm
      (fun hend => .inl (hdone (hterminal.symm.trans hend))) (fun hcall => by cases hcall)
      fun hrequest => absurd hrequest hstream

theorem Kept.resetStream (hquiet : Quiet s.log)
    (hdone : s.done = true ∨ s.destroyed = true) (hends : ∀ call ∈ s.stack, call.ends = false) :
    s.resetStream.Kept := by
  unfold AsyncRun.resetStream
  split
  · split
    · rename_i hcancelled
      exact absurd hquiet (h.requests.cancelled hcancelled)
    · exact h.callBack hquiet rfl rfl rfl rfl (fun _ => hdone) (fun _ => hends) fun _ => rfl
  · rename_i hstream
    exact h.callBack hquiet rfl rfl rfl rfl (fun _ => hdone) (fun _ => hends)
      fun hrequest => absurd hrequest hstream

theorem Kept.reset (hquiet : Quiet s.log)
    (hends : ∀ call ∈ s.stack, call.ends = false) :
    ({ s with destroyed := true } : AsyncRun).reset.Kept :=
  (h.flags hquiet s.responseStarted s.done true).resetStream hquiet (.inr rfl) hends

theorem Kept.cancel (hinserted : s.inserted = true) (hrequest : s.request = true) :
    ({ s with destroyed := true, log := .cancel :: s.log } : AsyncRun).cancel.Kept := by
  have hhanded := h.listed.inserted hinserted
  have hends : ∀ call ∈ s.stack, call.ends = false := by
    intro call hcall
    cases hend : call.ends with
    | false => rfl
    | true =>
      have hstarting := h.requests.ends hrequest call hcall hend
      exact absurd ((h.listed.starting (.inl hhanded) call hcall).symm.trans hstarting) (by decide)
  have hclosed : ¬ Quiet (.cancel :: s.log) := not_quiet_of_terminal rfl
  unfold AsyncRun.cancel AsyncRun.reset AsyncRun.resetStream
  rw [if_pos hrequest, if_pos rfl]
  refine kept_cleanup
    { h.listed with
      removed := (count_cons_of_ne (by decide)).trans h.listed.removed
      released := (count_cons_of_ne (by decide)).trans h.listed.released }
    ⟨fun _ htrue => (by cases htrue), fun _ => ⟨.inr rfl, hclosed⟩, fun _ _ _ => ⟨.inr rfl, hclosed⟩,
      pairwise_cons.mpr ⟨fun _ _ _ => rfl, h.silent.silent⟩⟩
    { h.ended with }
    ⟨fun hreq report hr hcallback => ?_, h.requests.ends, h.requests.starting, fun hout => ?_,
      fun _ => hclosed, h.requests.returned⟩ (.inr rfl) hclosed hends
  · obtain rfl | hr := mem_cons.mp hr
    · cases hcallback
    · exact h.requests.outcome hreq report hr hcallback
  · cases hhanded.symm.trans hout

theorem Kept.open_of_inserted (hinserted : s.inserted = true)
    (hlocalEnded : s.localEnded = false) : s.localClosed = false := by
  cases hlocal : s.localClosed with
  | false => rfl
  | true =>
    obtain htrue | hremote := h.ended.unsent hlocal
    · cases hlocalEnded.symm.trans htrue
    · cases hinserted.symm.trans (h.settled.complete hlocal hremote)

theorem Kept.decode (hinserted : s.inserted = true) (hstream : s.request = false)
    (hlocalEnded : s.localEnded = false) (endStream : Bool) : (s.decode endStream).Kept := by
  have hopen := h.open_of_inserted hinserted hlocalEnded
  have hstarting := h.listed.starting (.inl (h.listed.inserted hinserted))
  have hnone : ∀ call ∈ s.stack, call.ends = false := by
    intro call hcall
    cases hend : call.ends with
    | false => rfl
    | true => cases hlocalEnded.symm.trans (h.ended.ends call hcall hend).2
  have hzero : s.stack.countP AsyncCall.ends = 0 :=
    countP_eq_zero.mpr fun call hcall => by simp [hnone call hcall]
  refine ⟨{ h.listed with
      bottom := pairwise_cons.mpr ⟨fun _ _ => rfl, h.listed.bottom⟩
      starting := fun _ c hc => ?_ },
    { h.silent with closing := fun c hc hclosing => ?_ },
    ⟨fun c hc hend => ⟨hopen, ?_⟩, ?_, fun hlocal => ?_, fun hmem => ?_,
      fun _ hsent => (by cases hsent),
      pairwise_cons.mpr ⟨fun _ _ hcall => (by cases hcall), h.ended.under⟩, h.ended.failed⟩,
    { h.requests with ends := fun hrequest => ?_, starting := fun c hc htrue => ?_ },
    ⟨h.settled.left, h.settled.complete, fun hlog => ?_⟩⟩
  · obtain rfl | hc := mem_cons.mp hc
    · rfl
    · exact hstarting c hc
  · obtain rfl | hc := mem_cons.mp hc
    · cases hclosing
    · exact h.silent.closing c hc hclosing
  · obtain rfl | hc := mem_cons.mp hc
    · exact hend
    · cases (hnone c hc).symm.trans hend
  · change (AsyncCall.decode endStream :: s.stack).countP AsyncCall.ends ≤ 1
    rw [countP_cons, hzero]
    split <;> decide
  · cases hopen.symm.trans hlocal
  · obtain hcall | hmem := mem_cons.mp hmem
    · cases hcall
    · exact absurd (hstarting _ hmem) (by decide)
  · cases hstream.symm.trans hrequest
  · obtain rfl | hc := mem_cons.mp hc
    · cases htrue
    · exact h.requests.starting c hc htrue
  · obtain hremote | ⟨c, hc, hclosing⟩ := h.settled.waiting hlog
    · exact .inl hremote
    · exact .inr ⟨c, mem_cons_of_mem _ hc, hclosing⟩

end

def Finished (s : AsyncRun) : Prop := s.done = true ∨ s.destroyed = true → ¬ Quiet s.log

/-- The end of the response and of the callbacks is where it was. -/
structure SameEnd (s s' : AsyncRun) : Prop where
  done : s'.done = s.done
  destroyed : s'.destroyed = s.destroyed
  quiet : Quiet s'.log → Quiet s.log

theorem SameEnd.finished (h : s.SameEnd s') (hs : s.Finished) : s'.Finished := by
  unfold Finished
  rw [h.done, h.destroyed]
  exact fun hended hquiet => hs hended (h.quiet hquiet)

variable (s)

theorem sameEnd_cleanup : s.SameEnd s.cleanup := by
  rw [cleanup_eq]
  split
  · exact ⟨rfl, rfl, fun hquiet => (quiet_cons rfl).mp ((quiet_cons rfl).mp hquiet)⟩
  · exact ⟨rfl, rfl, id⟩

theorem sameEnd_closeLocal (endStream : Bool) :
    s.SameEnd (s.closeLocal endStream) := by
  unfold AsyncRun.closeLocal
  dsimp only
  split
  · have h := sameEnd_cleanup { s with
      failed := s.failed || (s.localClosed && endStream), localClosed := s.localClosed || endStream }
    exact { h with }
  · exact ⟨rfl, rfl, id⟩

theorem sameEnd_closeRemote (endStream : Bool) :
    s.SameEnd (s.closeRemote endStream) := by
  unfold AsyncRun.closeRemote
  dsimp only
  split
  · have h := sameEnd_cleanup { s with remoteClosed := s.remoteClosed || endStream }
    exact { h with }
  · exact ⟨rfl, rfl, id⟩

theorem sameEnd_finishSend : s.SameEnd s.finishSend := by
  unfold AsyncRun.finishSend
  dsimp only
  split
  · exact ⟨rfl, rfl, id⟩
  · have h := sameEnd_cleanup { s with delivered := s.log.any AsyncReport.isOutcome }
    exact ⟨h.done, h.destroyed, fun hquiet => h.quiet ((quiet_cons rfl).mp hquiet)⟩

variable {s}

theorem SameEnd.trans {s'' : AsyncRun} (h : s.SameEnd s') (h' : s'.SameEnd s'') : s.SameEnd s'' :=
  ⟨h'.done.trans h.done, h'.destroyed.trans h.destroyed, fun hquiet => h.quiet (h'.quiet hquiet)⟩

theorem sameEnd_resume (s : AsyncRun) (call : AsyncCall) : s.SameEnd (s.resume call) := by
  cases call with
  | requestHeaders endStream =>
    have hclose := sameEnd_closeLocal s endStream
    unfold resume
    dsimp only
    split
    · exact { hclose with }
    · exact hclose.trans (sameEnd_finishSend _)
  | requestBody => exact (sameEnd_closeLocal s true).trans (sameEnd_finishSend _)
  | decode endStream => exact sameEnd_closeLocal s endStream
  | encode endStream => exact sameEnd_closeRemote s endStream
  | reset => exact sameEnd_cleanup s

theorem not_quiet_resetStream (hcancelled : s.cancelled = true → ¬ Quiet s.log) :
    ¬ Quiet s.resetStream.log := by
  unfold AsyncRun.resetStream
  split
  · split
    · rename_i htrue
      exact fun hquiet => hcancelled htrue ((sameEnd_cleanup s).quiet hquiet)
    · exact not_quiet_of_terminal rfl
  · exact not_quiet_of_terminal rfl

theorem finished_encode (hrouting : s.routing = true) (started endStream : Bool)
    (report : AsyncReport) (hterminal : report.terminal = endStream) :
    Finished ({ s with responseStarted := started, done := endStream }.encode report endStream) := by
  simp only [routing, Bool.and_eq_true, Bool.not_eq_true'] at hrouting
  cases endStream with
  | true =>
    intro _
    unfold AsyncRun.encode
    dsimp only
    split
    · exact not_quiet_of_terminal rfl
    · exact not_quiet_of_terminal hterminal
  | false =>
    have hopen : ∀ t : AsyncRun, t.done = false → t.destroyed = false → t.Finished := by
      intro t hdone hdestroyed hended
      rw [hdone, hdestroyed] at hended
      simp at hended
    unfold AsyncRun.encode
    dsimp only
    split
    · have hclose := sameEnd_closeRemote { s with
        responseStarted := started, done := false, failed := s.failed || s.remoteClosed } false
      exact hopen _ hclose.done (hclose.destroyed.trans hrouting.2)
    · exact hopen _ rfl hrouting.2

end AsyncRun

end Meliproxy.Envoy.Http
