import Meliproxy.Envoy.Server.HotRestartLinks

/-!
# Requests to the parent

A process that asks its parent for something appends to the queue of the parent. `asked` is the
general step, and the requests below are cases of it.
-/

namespace Meliproxy.Envoy.Server.HotRestart

open Lib List Option Function

namespace System

variable {s s' : System} {epoch : Nat} {child : Process} {message type : RpcMessageType}

/-- The processes after `message` has been sent, and the sender has changed to `child`. -/
def askedProcess (s : System) (epoch : Nat) (message : RpcMessageType) (child : Process) :
    Nat → Process :=
  Function.update (Function.update s.process epoch
    { s.process epoch with queue := (s.process epoch).queue ++ [message] }) (epoch + 1) child

theorem askedProcess_self : s.askedProcess epoch message child (epoch + 1) = child :=
  update_self ..

theorem askedProcess_same (other : Nat) (hne : other ≠ epoch + 1) :
    (s.askedProcess epoch message child other).waiting = (s.process other).waiting ∧
    (s.askedProcess epoch message child other).started = (s.process other).started := by
  rw [askedProcess, update_of_ne hne]
  by_cases hself : other = epoch
  · rw [hself, update_self]
    exact ⟨rfl, rfl⟩
  · rw [update_of_ne hself]
    exact ⟨rfl, rfl⟩

theorem askedProcess_setProcess (process : Process) :
    (s.setProcess (epoch + 1) process).askedProcess epoch message child =
      s.askedProcess epoch message child := by
  rw [askedProcess, askedProcess, setProcess]
  dsimp only
  rw [update_of_ne (Nat.succ_ne_self epoch).symm, update_comm (Nat.succ_ne_self epoch), update_idem]

theorem askedProcess_update (process : Process) :
    Function.update (s.askedProcess epoch message child) (epoch + 1) process =
      s.askedProcess epoch message process := update_idem ..

section

variable (h : s.Inv)
include h

theorem Inv.asked (hepoch : epoch + 1 < s.epochs)
    (hprocess : s'.process = s.askedProcess epoch message child) (hepochs : s'.epochs = s.epochs)
    (hmessage : message.isReply = false) (hidle : (s.process (epoch + 1)).waiting = none)
    (hawake : (s.process epoch).waiting = none ∨ (s.process epoch).queue ≠ [])
    (hsame : child.queue = (s.process (epoch + 1)).queue ∧
      child.sigterm = (s.process (epoch + 1)).sigterm ∧
      child.exiting = (s.process (epoch + 1)).exiting ∧
      child.exited = (s.process (epoch + 1)).exited)
    (hterminated : (s.process (epoch + 1)).parentTerminated = true → child.parentTerminated = true)
    (hstarted : (s.process (epoch + 1)).started = true → child.started = true)
    (hrequested : child.adminRequested = true) (hwaiting : child.waiting = message.replyType)
    (hquiet : message = .shutdownAdminRequest ∨ Quiet epoch (s.process epoch))
    (hend : message = .terminateRequest → child.parentTerminated = true)
    (halone : Local (epoch + 1) child) (hinitializing : ∀ last, last + 1 = s.epochs →
      (s.askedProcess epoch message child last).started = false → s'.initializing = true)
    (hlock : ∀ other, s'.initLock = some other ↔
      HoldsLock (s.askedProcess epoch message child other)) : s'.Inv := by
  have hlocal := h.alone epoch
  obtain ⟨hrequests, hreplies⟩ := h.requests_nil hidle
  refine h.pair hepoch hprocess hepochs ?_ halone ?_ ?_ ?_ rfl hstarted (hprocess ▸ hinitializing)
    (hprocess ▸ hlock) rfl hsame.2.2.2
  · refine { hlocal with head := fun type htype => ?_ }
    rcases hawake with hnone | hqueue
    · rw [hnone] at htype
      cases htype
    · rw [head?_append_of_ne_nil _ hqueue]
      exact hlocal.head type htype
  · refine ⟨fun hfresh => absurd (hrequested.symm.trans hfresh) nofun, fun _ => ?_, ?_, fun hended => ?_⟩
    · rcases hquiet with rfl | hquiet
      · exact .inl (mem_append_right _ (mem_singleton_self _))
      · exact .inr hquiet
    · rw [hsame.1, hreplies, hwaiting, requests, filterMap_append, ← requests, hrequests]
      cases message <;> rfl
    · rcases hended with hsigterm | hexiting | hmem
      · exact hterminated ((h.link epoch).ended (.inl hsigterm))
      · exact hterminated ((h.link epoch).ended (.inr (.inl hexiting)))
      · rcases mem_append.mp hmem with hold | hnew
        · exact hterminated ((h.link epoch).ended (.inr (.inr hold)))
        · exact hend (mem_singleton.mp hnew).symm
  · refine ⟨rfl, rfl, id, ?_⟩
    rw [replies, filter_append, filter_cons_of_neg (by simp [hmessage]), filter_nil,
      append_nil]
    rfl
  · refine ⟨fun message _ => by rw [hsame.1], by rw [hsame.1], hterminated, ?_⟩
    rw [hsame.2.1, hsame.2.2.1]
    exact id

theorem Inv.queue_nil (hidle : (s.process (epoch + 1)).waiting = none)
    (hterminated : (s.process (epoch + 1)).parentTerminated = false)
    (hrequest : .shutdownAdminRequest ∉ (s.process (epoch + 1)).queue) :
    (s.process (epoch + 1)).queue = [] := by
  have hreplies := (h.requests_nil hidle).2
  have hlink := h.link (epoch + 1)
  have hfresh : (s.process (epoch + 1 + 1)).adminRequested = false :=
    Bool.eq_false_iff.mpr fun hrequested => by
      rcases hlink.quiet hrequested with hmem | hzero | hquiet
      · exact hrequest hmem
      · exact Nat.succ_ne_zero epoch hzero
      · cases hterminated.symm.trans hquiet
  rw [← hreplies, replies, filter_eq_self.mpr (hlink.silent hfresh)]

theorem Inv.no_request (hlock : s.initLock = none) :
    .shutdownAdminRequest ∉ (s.process epoch).queue := fun hmem => by
  have htype := mem_requests hmem rfl
  have htokens := (h.link epoch).tokens
  have hwaiting : (s.process (epoch + 1)).waiting = some .shutdownAdminReply := by
    have hin : RpcMessageType.shutdownAdminReply ∈ (s.process (epoch + 1)).waiting.toList :=
      htokens ▸ mem_append_left _ htype
    exact mem_toList.mp hin
  have hheld := (h.lock (epoch + 1)).mpr (.inl hwaiting)
  rw [hlock] at hheld
  cases hheld

theorem Inv.parent_awake (hrequested : (s.process (epoch + 1)).adminRequested = true)
    (hidle : (s.process (epoch + 1)).waiting = none) :
    Quiet epoch (s.process epoch) ∧ (s.process epoch).waiting = none := by
  have hquiet := h.parent_quiet hrequested hidle
  exact ⟨hquiet, (h.alone epoch).awake hquiet⟩

theorem Inv.parent_reaches (hepoch : epoch + 1 < s.epochs)
    (hterminated : (s.process (epoch + 1)).parentTerminated = false) : s.Reaches epoch :=
  h.reaches (Nat.lt_of_succ_lt hepoch) (h.parent_present hterminated).2

theorem lock_of_not_holds {process : Nat → Process}
    (hother : ∀ other, other ≠ epoch + 1 → (process other).waiting = (s.process other).waiting)
    (hbefore : (s.process (epoch + 1)).waiting = none) (hafter : ¬HoldsLock (process (epoch + 1)))
    (other : Nat) : s.initLock = some other ↔ HoldsLock (process other) := by
  by_cases hne : other = epoch + 1
  · subst hne
    refine ⟨fun hheld => ?_, fun hheld => absurd hheld hafter⟩
    rcases (h.lock _).mp hheld with hwaiting | hwaiting
    · rw [hbefore] at hwaiting
      cases hwaiting
    · rw [hbefore] at hwaiting
      cases hwaiting
  · rw [h.lock, HoldsLock, HoldsLock, hother other hne]

theorem lock_of_holds {process : Nat → Process}
    (hother : ∀ other, other ≠ epoch + 1 → (process other).waiting = (s.process other).waiting)
    (hfree : s.initLock = none) (hafter : HoldsLock (process (epoch + 1)))
    (other : Nat) : some (epoch + 1) = some other ↔ HoldsLock (process other) := by
  by_cases hne : other = epoch + 1
  · subst hne
    exact iff_of_true rfl hafter
  · refine iff_of_false (fun heq => hne (Option.some.inj heq).symm) fun hheld => ?_
    rw [HoldsLock, hother other hne] at hheld
    have hlocked := (h.lock other).mpr hheld
    rw [hfree] at hlocked
    cases hlocked

theorem initializing_asked
    (hstarted : (s.process (epoch + 1)).started = true → child.started = true) (last : Nat)
    (hlast : last + 1 = s.epochs)
    (hunstarted : (s.askedProcess epoch message child last).started = false) :
    s.initializing = true := by
  refine h.initializing last hlast (Bool.eq_false_iff.mpr fun hold => ?_)
  by_cases hne : last = epoch + 1
  · subst hne
    rw [askedProcess_self, hstarted hold] at hunstarted
    cases hunstarted
  · rw [(askedProcess_same last hne).2, hold] at hunstarted
    cases hunstarted

end

theorem waiting_local (h : Local epoch (s.process epoch)) (hnext : epoch ≠ 0)
    (htype : type = .getListenSocketReply ∨ type = .shutdownAdminReply ∨ type = .getStatsReply)
    (hterminated : (s.process epoch).parentTerminated = false)
    (hqueue : (s.process epoch).queue = []) :
    Local epoch { s.process epoch with adminRequested := true, waiting := some type } := by
  refine ⟨nofun, h.unstarted, fun hquiet => ?_, fun other hother => Option.some.inj hother ▸ htype,
    fun type _ message hmem => ?_, h.exited⟩
  · rcases hquiet with hzero | hquiet
    · exact absurd hzero hnext
    · cases hterminated.symm.trans hquiet
  · dsimp only at hmem
    rw [hqueue] at hmem
    cases hmem

theorem changed_process (change : Process → Process) :
    ((s.setProcess epoch { s.process epoch with queue := (s.process epoch).queue ++ [message] }
      ).setProcess (epoch + 1) (change ((s.setProcess epoch { s.process epoch with
        queue := (s.process epoch).queue ++ [message] }).process (epoch + 1)))).process =
      s.askedProcess epoch message (change (s.process (epoch + 1))) := by
  rw [setProcess, setProcess, askedProcess]
  dsimp only
  rw [update_of_ne (Nat.succ_ne_self epoch)]

theorem duplicateParentListenSocket_of_reaches (hreaches : s.Reaches epoch)
    (hterminated : (s.process (epoch + 1)).parentTerminated = false) :
    ∃ s', s.duplicateParentListenSocket (epoch + 1) = some s' ∧
      s'.process = s.askedProcess epoch .getListenSocketRequest
        ({ s.process (epoch + 1) with waiting := some .getListenSocketReply }) := by
  rw [duplicateParentListenSocket, hterminated, Bool.or_false, if_neg (by simp), parentAddress,
    Nat.succ_sub_one, sendMessage_eq hreaches]
  exact ⟨_, rfl, changed_process fun process =>
    { process with waiting := some .getListenSocketReply }⟩

theorem shutdownParentAdmin_of_reaches (hreaches : s.Reaches epoch) :
    ∃ s', s.shutdownParentAdmin (epoch + 1) = some s' ∧
      s'.process = s.askedProcess epoch .shutdownAdminRequest ({ s.process (epoch + 1) with
        adminRequested := true, waiting := some .shutdownAdminReply }) := by
  have hlocked : (s.lock (epoch + 1)).Reaches epoch := hreaches.congr rfl fun _ => rfl
  rw [shutdownParentAdmin, if_neg (Nat.succ_ne_zero epoch), parentAddress, Nat.succ_sub_one,
    sendMessage_eq hlocked]
  exact ⟨_, rfl, @changed_process (s.lock (epoch + 1)) _ _ fun process =>
    { process with adminRequested := true, waiting := some .shutdownAdminReply }⟩

theorem Inv.duplicateParentListenSocket (h : s.Inv)
    (henabled : s.Enabled (.duplicateParentListenSocket epoch))
    (hregular : epoch ≠ 0 → (s.process epoch).parentTerminated = false →
      .shutdownAdminRequest ∉ (s.process epoch).queue) :
    ∃ s', s.duplicateParentListenSocket epoch = some s' ∧ s'.Inv := by
  obtain ⟨⟨hepoch, -, hidle⟩, hrequested⟩ := henabled
  rw [System.duplicateParentListenSocket]
  split
  · exact ⟨s, rfl, h⟩
  · rename_i hasks
    simp only [Bool.or_eq_true, decide_eq_true_eq, not_or, Bool.not_eq_true] at hasks
    obtain ⟨hnext, hterminated⟩ := hasks
    obtain ⟨epoch, rfl⟩ := Nat.exists_eq_succ_of_ne_zero hnext
    have hsent := sendMessage_eq (h.parent_reaches hepoch hterminated) .getListenSocketRequest
    have hqueue := h.queue_nil hidle hterminated (hregular hnext hterminated)
    obtain ⟨hquiet, hawake⟩ := h.parent_awake hrequested hidle
    rw [parentAddress, Nat.succ_sub_one, hsent]
    refine ⟨_, rfl, ?_⟩
    refine h.asked hepoch (changed_process fun process =>
      { process with waiting := some .getListenSocketReply }) rfl rfl hidle (.inl hawake)
      ⟨rfl, rfl, rfl, rfl⟩ id id hrequested rfl (.inr hquiet) nofun
      (hrequested ▸ waiting_local (h.alone _) hnext (.inl rfl) hterminated hqueue)
      (initializing_asked h id) (lock_of_not_holds h (fun other hne => (askedProcess_same other hne).1)
        hidle ?_)
    rw [askedProcess_self]
    exact nofun

theorem Inv.getParentStats (h : s.Inv) (henabled : s.Enabled (.flushStats epoch))
    (hrequested : (s.process epoch).adminRequested = true) :
    ∃ s', s.getParentStats epoch = some s' ∧ s'.Inv := by
  obtain ⟨⟨hepoch, -, hidle⟩, -⟩ := henabled
  rw [System.getParentStats]
  split
  · exact ⟨s, rfl, h⟩
  · rename_i hasks
    simp only [Bool.or_eq_true, decide_eq_true_eq, not_or, Bool.not_eq_true, isSome_eq_false_iff,
      isNone_iff_eq_none] at hasks
    obtain ⟨⟨hnext, hterminated⟩, hfree⟩ := hasks
    obtain ⟨epoch, rfl⟩ := Nat.exists_eq_succ_of_ne_zero hnext
    have hreaches : (s.lock (epoch + 1)).Reaches epoch :=
      (h.parent_reaches hepoch hterminated).congr rfl fun _ => rfl
    have hqueue := h.queue_nil hidle hterminated (h.no_request hfree)
    obtain ⟨hquiet, hawake⟩ := h.parent_awake hrequested hidle
    rw [parentAddress, Nat.succ_sub_one, sendMessage_eq hreaches]
    refine ⟨_, rfl, ?_⟩
    refine h.asked hepoch (@changed_process (s.lock (epoch + 1)) _ .getStatsRequest fun process =>
      { process with waiting := some .getStatsReply }) rfl rfl hidle (.inl hawake)
      ⟨rfl, rfl, rfl, rfl⟩ id id hrequested rfl (.inr hquiet) nofun
      (hrequested ▸ waiting_local (h.alone _) hnext (.inr (.inr rfl)) hterminated hqueue)
      (initializing_asked h id) (lock_of_holds h (fun other hne => (askedProcess_same other hne).1)
        hfree ?_)
    rw [askedProcess_self]
    exact .inr rfl

theorem Inv.shutdownParentAdmin (h : s.Inv) (henabled : s.Enabled (.shutdownParentAdmin epoch))
    (hregular : ¬((s.process (epoch - 1)).waiting = some .getListenSocketReply ∧
      (s.process (epoch - 1)).queue = [])) :
    ∃ s', s.shutdownParentAdmin epoch = some s' ∧ s'.Inv := by
  obtain ⟨⟨hepoch, -, hidle⟩, hfresh, hfree⟩ := henabled
  have hterminated := (h.alone epoch).unstarted ((h.alone epoch).fresh hfresh).1
  rw [System.shutdownParentAdmin]
  by_cases hnext : epoch = 0
  · subst hnext
    refine ⟨_, if_pos rfl, h.single hepoch rfl rfl ?_ nofun ?_ id (h.initializing_single id)
      (h.lock_single rfl) id fun _ => h.first⟩
    · have hlocal := h.alone 0
      exact { hlocal with fresh := nofun }
    · exact (h.link 0).sameParent ⟨fun _ _ => Iff.rfl, rfl, id, id⟩
  · obtain ⟨epoch, rfl⟩ := Nat.exists_eq_succ_of_ne_zero hnext
    have hreaches : (s.lock (epoch + 1)).Reaches epoch :=
      (h.parent_reaches hepoch hterminated).congr rfl fun _ => rfl
    have hqueue := h.queue_nil hidle hterminated (h.no_request hfree)
    have hawake : (s.process epoch).waiting = none ∨ (s.process epoch).queue ≠ [] := by
      cases hwaiting : (s.process epoch).waiting with
      | none => exact .inl rfl
      | some type =>
        have hunlocked : ¬HoldsLock (s.process epoch) := fun hholds => by
          have hlocked := (h.lock epoch).mpr hholds
          rw [hfree] at hlocked
          cases hlocked
        rcases (h.alone epoch).types type hwaiting with rfl | rfl | rfl
        · exact .inr fun hempty => hregular ⟨hwaiting, hempty⟩
        · exact absurd (.inl hwaiting) hunlocked
        · exact absurd (.inr hwaiting) hunlocked
    rw [if_neg hnext, parentAddress, Nat.succ_sub_one, sendMessage_eq hreaches]
    refine ⟨_, rfl, ?_⟩
    refine h.asked hepoch (@changed_process (s.lock (epoch + 1)) _ .shutdownAdminRequest fun process =>
      { process with adminRequested := true, waiting := some .shutdownAdminReply }) rfl rfl hidle hawake
      ⟨rfl, rfl, rfl, rfl⟩ id id rfl rfl (.inl rfl) nofun
      (waiting_local (h.alone _) hnext (.inr (.inl rfl)) hterminated hqueue)
      (initializing_asked h id) (lock_of_holds h (fun other hne => (askedProcess_same other hne).1)
        hfree ?_)
    rw [askedProcess_self]
    exact .inl rfl

theorem silent_local (h : Local epoch (s.process epoch))
    (hsame : child.adminRequested = true ∧ child.started = true ∧ child.waiting = none ∧
      child.exiting = (s.process epoch).exiting ∧ child.exited = (s.process epoch).exited) :
    Local epoch child := by
  obtain ⟨hrequested, hstarted, hwaiting, hexiting, hexited⟩ := hsame
  refine ⟨fun hfresh => absurd (hrequested.symm.trans hfresh) nofun,
    fun hunstarted => absurd (hstarted.symm.trans hunstarted) nofun, fun _ => hwaiting,
    fun type htype => ?_, fun type htype => ?_, fun hgone => ?_⟩
  · rw [hwaiting] at htype
    cases htype
  · rw [hwaiting] at htype
    cases htype
  · rw [hexiting]
    exact h.exited (hexited ▸ hgone)

theorem Inv.terminateParent (h : s.Inv) (hepoch : epoch < s.epochs)
    (hidle : (s.process epoch).waiting = none) (hstarted : (s.process epoch).started = true) :
    ∃ s', s.terminateParent epoch = some s' ∧ s'.Inv := by
  rw [System.terminateParent]
  split
  · exact ⟨s, rfl, h⟩
  · rename_i hasks
    simp only [Bool.or_eq_true, decide_eq_true_eq, not_or, Bool.not_eq_true] at hasks
    obtain ⟨hnext, hterminated⟩ := hasks
    obtain ⟨epoch, rfl⟩ := Nat.exists_eq_succ_of_ne_zero hnext
    have hrequested := Local.requested (h.alone (epoch + 1)) hstarted
    obtain ⟨hquiet, hawake⟩ := h.parent_awake hrequested hidle
    rw [parentAddress, Nat.succ_sub_one, sendMessage_eq (h.parent_reaches hepoch hterminated)]
    refine ⟨_, rfl, ?_⟩
    refine h.asked hepoch (changed_process fun process => { process with parentTerminated := true })
      rfl rfl hidle (.inl hawake) ⟨rfl, rfl, rfl, rfl⟩ (fun _ => rfl) id hrequested hidle (.inr hquiet)
      (fun _ => rfl) (silent_local (h.alone _) ⟨hrequested, hstarted, hidle, rfl, rfl⟩)
      (initializing_asked h id) (lock_of_not_holds h (fun other hne => (askedProcess_same other hne).1)
        hidle ?_)
    rw [askedProcess_self, HoldsLock]
    simp [hidle]

theorem Inv.startWorkers (h : s.Inv) (henabled : s.Enabled (.startWorkers epoch)) :
    ∃ s', s.startWorkers epoch = some s' ∧ s'.Inv := by
  obtain ⟨⟨hepoch, -, hidle⟩, hrequested, hunstarted⟩ := henabled
  have hlast : epoch + 1 = s.epochs := by
    by_contra hne
    rw [h.started epoch (by omega)] at hunstarted
    cases hunstarted
  have hterminated := (h.alone epoch).unstarted hunstarted
  rw [System.startWorkers, drainParentListeners]
  cases epoch with
  | zero =>
    refine ⟨_, rfl, h.single hepoch rfl rfl (silent_local (h.alone 0) ⟨hrequested, rfl, hidle, rfl, rfl⟩)
      nofun ((h.link 0).sameParent ⟨fun _ _ => Iff.rfl, rfl, id, id⟩) (fun _ => rfl)
      (fun last hlast' hlaststarted => ?_) (h.lock_single rfl) id fun _ => h.first⟩
    obtain rfl : last = 0 := by omega
    exact absurd ((congrArg Process.started (process_self ..)).symm.trans hlaststarted) nofun
  | succ epoch =>
    obtain ⟨hquiet, hawake⟩ := h.parent_awake hrequested hidle
    rw [if_pos (Nat.succ_pos epoch), parentAddress, Nat.succ_sub_one,
      sendMessage_eq (h.parent_reaches hepoch hterminated)]
    refine ⟨_, rfl, ?_⟩
    refine h.asked hepoch (changed_process fun process => { process with started := true })
      rfl rfl hidle (.inl hawake) ⟨rfl, rfl, rfl, rfl⟩ id (fun _ => rfl) hrequested hidle (.inr hquiet)
      nofun (silent_local (h.alone _) ⟨hrequested, rfl, hidle, rfl, rfl⟩)
      (fun last hlast' hlaststarted => ?_)
      (lock_of_not_holds h (fun other hne => (askedProcess_same other hne).1) hidle ?_)
    · obtain rfl : last = epoch + 1 := by omega
      rw [askedProcess_self] at hlaststarted
      cases hlaststarted
    · rw [askedProcess_self, HoldsLock]
      simp [hidle]

end System

/-!
## Replies to the child

A process that handles a request of its child appends the reply to the queue of the child, which is
empty then. The other events change one process.
-/

variable {message type : RpcMessageType} {queue : List RpcMessageType} {process : Process}

theorem replyType_request (hreply : message.replyType = some type) :
    message.isReply = false ∧ type.isReply = true ∧ type.replyType = none := by
  cases message <;> cases hreply <;> exact ⟨rfl, rfl, rfl⟩

theorem requests_cons (hreply : message.replyType = some type) :
    requests (message :: queue) = type :: requests queue := filterMap_cons_some hreply

theorem requests_cons_none (hnone : message.replyType = none) :
    requests (message :: queue) = requests queue := filterMap_cons_none hnone

theorem token_unique {requests replies : List RpcMessageType}
    (h : (some type).toList = requests ++ type :: replies) : requests = [] ∧ replies = [] := by
  cases requests with
  | nil => exact ⟨rfl, (List.cons.inj h).2.symm⟩
  | cons request requests =>
    have hlength := congrArg List.length h
    simp at hlength

namespace System

variable {s s' : System} {epoch : Nat}

theorem Inv.replies_nil (h : s.Inv) (hidle : (s.process epoch).waiting = none) :
    replies (s.process epoch).queue = [] := by
  cases epoch with
  | zero => exact h.first
  | succ epoch => exact (h.requests_nil hidle).2

theorem Inv.child_waits (h : s.Inv) (hqueue : (s.process epoch).queue = message :: queue)
    (hreply : message.replyType = some type) :
    (s.process (epoch + 1)).waiting = some type ∧ requests queue = [] ∧
      (s.process (epoch + 1)).queue = [] := by
  have htokens := (h.link epoch).tokens
  rw [hqueue, requests_cons hreply, cons_append] at htokens
  cases hwaiting : (s.process (epoch + 1)).waiting with
  | none =>
    rw [hwaiting] at htokens
    cases htokens
  | some other =>
    rw [hwaiting] at htokens
    obtain ⟨rfl, hnone⟩ := List.cons.inj htokens
    obtain ⟨hrequests, hreplies⟩ := append_eq_nil_iff.mp hnone.symm
    refine ⟨rfl, hrequests, ?_⟩
    cases hchild : (s.process (epoch + 1)).queue with
    | nil => rfl
    | cons head rest =>
      have hhead := (h.alone (epoch + 1)).head other hwaiting head (by rw [hchild]; rfl)
      rw [hchild, hhead, replies, filter_cons_of_pos (replyType_request hreply).2.1] at hreplies
      cases hreplies

/-- The processes after `epoch` has taken a message and replied to its child. -/
def answeredProcess (s : System) (epoch : Nat) (queue : List RpcMessageType) (type : RpcMessageType) :
    Nat → Process :=
  Function.update (Function.update s.process epoch { s.process epoch with queue := queue }) (epoch + 1)
    { s.process (epoch + 1) with queue := (s.process (epoch + 1)).queue ++ [type] }

theorem answeredProcess_same (other : Nat) :
    (s.answeredProcess epoch queue type other).waiting = (s.process other).waiting ∧
    (s.answeredProcess epoch queue type other).started = (s.process other).started := by
  rw [answeredProcess]
  by_cases hnext : other = epoch + 1
  · rw [hnext, update_self]
    exact ⟨rfl, rfl⟩
  · rw [update_of_ne hnext]
    by_cases hself : other = epoch
    · rw [hself, update_self]
      exact ⟨rfl, rfl⟩
    · rw [update_of_ne hself]
      exact ⟨rfl, rfl⟩

theorem Inv.answered (h : s.Inv) (hidle : (s.process epoch).waiting = none)
    (hqueue : (s.process epoch).queue = message :: queue) (hreply : message.replyType = some type)
    (hquiet : message = .shutdownAdminRequest → Quiet epoch (s.process epoch))
    (hprocess : s'.process = s.answeredProcess epoch queue type) (hepochs : s'.epochs = s.epochs)
    (hinitializing : s'.initializing = s.initializing) (hlock : s'.initLock = s.initLock) :
    s'.Inv := by
  obtain ⟨hrequest, htype, hnone⟩ := replyType_request hreply
  obtain ⟨hwaiting, hrequests, hchild⟩ := h.child_waits hqueue hreply
  have hlocal := h.alone epoch
  have hlocal' := h.alone (epoch + 1)
  have hlink := h.link epoch
  refine h.pair (h.present hwaiting).1 hprocess hepochs ?_ ?_ ⟨fun hfresh => ?_, fun hrequested => ?_,
    ?_, fun hended => ?_⟩ ⟨rfl, rfl, id, ?_⟩ ⟨fun other hother => ?_, ?_, id, id⟩ rfl id
    (fun last hlast hunstarted => ?_) (fun other => ?_) rfl rfl
  · refine { hlocal with head := fun type hsome => ?_ }
    rw [hidle] at hsome
    cases hsome
  · refine { hlocal' with head := fun other hsome head hhead => ?_ }
    rw [hchild] at hhead
    rw [hwaiting] at hsome
    exact (Option.some.inj hhead).symm.trans (Option.some.inj hsome)
  · have hmessage := hlink.silent hfresh message (hqueue ▸ mem_cons_self ..)
    rw [hrequest] at hmessage
    cases hmessage
  · rcases hlink.quiet hrequested with hmem | hquiet'
    · rw [hqueue] at hmem
      rcases mem_cons.mp hmem with heq | hmem
      · exact .inr (hquiet heq.symm)
      · exact .inl hmem
    · exact .inr hquiet'
  · rw [hchild, nil_append, hrequests, replies, filter_cons_of_pos htype]
    exact congrArg Option.toList hwaiting
  · rcases hended with hsigterm | hexiting | hmem
    · exact hlink.ended (.inl hsigterm)
    · exact hlink.ended (.inr (.inl hexiting))
    · exact hlink.ended (.inr (.inr (hqueue ▸ mem_cons_of_mem _ hmem)))
  · rw [hqueue, replies, replies, filter_cons_of_neg (by simp [hrequest])]
  · rw [mem_append, mem_singleton, or_iff_left_iff_imp]
    rintro rfl
    rw [htype] at hother
    cases hother
  · rw [requests, filterMap_append, filterMap_cons_none hnone, filterMap_nil, append_nil]
    rfl
  · rw [hinitializing]
    rw [hprocess, (answeredProcess_same last).2] at hunstarted
    exact h.initializing last hlast hunstarted
  · rw [hlock, hprocess, h.lock, HoldsLock, HoldsLock, (answeredProcess_same other).1]

theorem Inv.taken (h : s.Inv) (hepoch : epoch < s.epochs) (hidle : (s.process epoch).waiting = none)
    (hqueue : (s.process epoch).queue = message :: queue) (hrequest : message.isReply = false)
    (hnone : message.replyType = none) (sigterm : Bool)
    (hsigterm : sigterm = true → (s.process epoch).sigterm = true ∨ message = .terminateRequest) :
    (s.setProcess epoch { s.process epoch with queue := queue, sigterm := sigterm }).Inv := by
  have hlocal := h.alone epoch
  have hlink := h.link epoch
  have hreplies : replies (s.process epoch).queue = replies queue := by
    rw [hqueue, replies, replies, filter_cons_of_neg (by simp [hrequest])]
  have hmem : message ∈ (s.process epoch).queue := hqueue ▸ mem_cons_self ..
  have hrest (other : RpcMessageType) (hother : other ∈ queue) : other ∈ (s.process epoch).queue :=
    hqueue ▸ mem_cons_of_mem _ hother
  refine h.single hepoch rfl rfl ?_ (fun parent hparent => ?_) ⟨fun hfresh => ?_,
    fun hrequested => ?_, ?_, fun hended => ?_⟩ id (h.initializing_single id) (h.lock_single rfl) id
    fun hzero => ?_
  · refine { hlocal with head := fun type hsome => ?_ }
    rw [hidle] at hsome
    cases hsome
  · subst hparent
    exact (h.link parent).sameChild ⟨rfl, rfl, id, hreplies.symm⟩
  · have hmessage := hlink.silent hfresh message hmem
    rw [hrequest] at hmessage
    cases hmessage
  · rcases hlink.quiet hrequested with hin | hquiet
    · rw [hqueue] at hin
      rcases mem_cons.mp hin with rfl | hin
      · cases hnone
      · exact .inl hin
    · exact .inr hquiet
  · rw [hlink.tokens, hqueue, requests_cons_none hnone]
  · rcases hended with hsig | hexiting | hin
    · rcases hsigterm hsig with hold | rfl
      · exact hlink.ended (.inl hold)
      · exact hlink.ended (.inr (.inr hmem))
    · exact hlink.ended (.inr (.inl hexiting))
    · exact hlink.ended (.inr (.inr (hrest _ hin)))
  · rw [← hreplies]
    exact h.replies_nil hidle

theorem unlock_iff (other : Nat) :
    (s.unlock epoch).initLock = some other ↔ s.initLock = some other ∧ other ≠ epoch := by
  rw [unlock]
  by_cases hheld : s.initLock = some epoch
  · rw [if_pos hheld, hheld]
    refine iff_of_false nofun ?_
    rintro ⟨heq, hne⟩
    exact hne (Option.some.inj heq).symm
  · rw [if_neg hheld]
    refine (and_iff_left_of_imp ?_).symm
    rintro heq rfl
    exact hheld heq

theorem Inv.receiveTypedRpc (h : s.Inv) (epoch : Nat) :
    ∃ s', s.receiveTypedRpc epoch = some s' ∧ s'.Inv := by
  rw [System.receiveTypedRpc]
  split
  · rename_i type message queue hwaiting hqueue
    have hlocal := h.alone epoch
    obtain rfl := hlocal.head type hwaiting message (by rw [hqueue]; rfl)
    obtain ⟨hreply, hnone⟩ : message.isReply = true ∧ message.replyType = none := by
      rcases hlocal.types message hwaiting with rfl | rfl | rfl <;> exact ⟨rfl, rfl⟩
    rw [if_pos (by simp)]
    refine ⟨_, rfl, h.single (h.present hwaiting).1 rfl rfl
      ⟨fun hfresh => ⟨(hlocal.fresh hfresh).1, rfl, (hlocal.fresh hfresh).2.2⟩, hlocal.unstarted, fun _ => rfl,
        nofun, nofun,
        hlocal.exited⟩ (fun parent hparent => ?_) ?_ id (h.initializing_single id) (fun other => ?_) id
      fun hzero => ?_⟩
    · subst hparent
      have hlink := h.link parent
      have htokens := hlink.tokens
      rw [hwaiting, hqueue, replies, filter_cons_of_pos hreply] at htokens
      obtain ⟨hrequests, hreplies⟩ := token_unique htokens
      refine { hlink with tokens := ?_ }
      rw [hrequests, replies, hreplies]
      rfl
    · refine (h.link epoch).sameParent ⟨fun other hother => ?_, ?_, id, id⟩
      · rw [hqueue, mem_cons, or_iff_right]
        rintro rfl
        rw [hreply] at hother
        cases hother
      · rw [hqueue, requests_cons_none hnone]
    · refine (unlock_iff other).trans ?_
      by_cases hne : other = epoch
      · subst hne
        refine iff_of_false (fun hheld => hheld.2 rfl) ?_
        refine (congrArg HoldsLock (process_self s other
          { s.process other with queue := queue, waiting := none })).mp.mt (not_or_intro nofun nofun)
      · exact (and_iff_left hne).trans ((h.lock other).trans
          (iff_of_eq (congrArg HoldsLock (process_of_ne s _ hne).symm)))
    · exact absurd (hlocal.awake (.inl hzero)) (by rw [hwaiting]; exact nofun)
  · exact ⟨s, rfl, h⟩

end System

end Meliproxy.Envoy.Server.HotRestart
