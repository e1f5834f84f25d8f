import Meliproxy.Envoy.Server.HotRestartRequests

/-!
# Runs of hot restart

`Answered` says that every process that waits gets the reply it waits for: it is at the head of its
queue, or the request is with the parent, which runs and does not itself wait for more. `Regular` is
what the steps of a run need: a process asks its parent for a listen socket only before its child has
asked for the admin, and the child asks only once the reply is there.
-/

namespace Meliproxy.Envoy.Server.HotRestart

open Lib List Function

namespace System

variable {s s' : System} {epoch : Nat} {message type : RpcMessageType}
  {queue : List RpcMessageType}

def Answered (s : System) : Prop :=
  ∀ epoch type, (s.process epoch).waiting = some type →
    (s.process epoch).queue.head? = some type ∨
    ((s.process epoch).queue = [] ∧ ∃ parent request, epoch = parent + 1 ∧
      request ∈ (s.process parent).queue ∧ request.replyType = some type ∧
      (s.process parent).exiting = false ∧ ∀ other, (s.process parent).waiting = some other →
        (s.process parent).queue.head? = some other)

def Regular (s : System) : Event → Prop
  | .duplicateParentListenSocket epoch =>
    s.Enabled (.duplicateParentListenSocket epoch) → epoch ≠ 0 →
      (s.process epoch).parentTerminated = false →
      .shutdownAdminRequest ∉ (s.process epoch).queue
  | .shutdownParentAdmin epoch =>
    s.Enabled (.shutdownParentAdmin epoch) →
      ¬((s.process (epoch - 1)).waiting = some .getListenSocketReply ∧
        (s.process (epoch - 1)).queue = [])
  | _ => True

theorem create_inv : create.Inv := by
  refine ⟨fun epoch => ⟨fun _ => ⟨rfl, rfl, rfl⟩, fun _ => rfl, fun _ => rfl, nofun, nofun, nofun⟩,
    fun epoch => ⟨fun _ => nofun, nofun, rfl, ?_⟩, fun _ _ => rfl, nofun, nofun, fun epoch => ?_, nofun,
    rfl⟩
  · rintro (h | h | h) <;> cases h
  · exact iff_of_false nofun (not_or_intro nofun nofun)

section

variable (h : s.Inv)
include h

theorem Inv.head_of_mem (hwaiting : (s.process epoch).waiting = some type)
    (hmem : message ∈ (s.process epoch).queue) : (s.process epoch).queue.head? = some type := by
  have hhead := (h.alone epoch).head type hwaiting
  cases hqueue : (s.process epoch).queue with
  | nil =>
    rw [hqueue] at hmem
    cases hmem
  | cons head rest =>
    rw [hhead head (by rw [hqueue]; rfl)]
    rfl

theorem Inv.answered_all : s.Answered := by
  intro epoch type hwaiting
  have hlocal := h.alone epoch
  cases hqueue : (s.process epoch).queue with
  | cons head rest =>
    exact .inl (hqueue ▸ h.head_of_mem hwaiting (hqueue ▸ mem_cons_self ..))
  | nil =>
    refine .inr ⟨rfl, ?_⟩
    cases epoch with
    | zero => exact absurd (hlocal.awake (.inl rfl)) (by rw [hwaiting]; exact nofun)
    | succ parent =>
      have htokens := (h.link parent).tokens
      rw [hwaiting, hqueue, replies, filter_nil, append_nil] at htokens
      have hmem : type ∈ requests (s.process parent).queue := htokens ▸ mem_singleton_self _
      obtain ⟨request, hrequest, hreply⟩ := mem_filterMap.mp hmem
      have hterminated : (s.process (parent + 1)).parentTerminated = false :=
        Bool.eq_false_iff.mpr fun hterminated => by
          rw [hlocal.awake (.inr hterminated)] at hwaiting
          cases hwaiting
      exact ⟨parent, request, rfl, hrequest, hreply, (h.parent_present hterminated).1,
        fun other hother => h.head_of_mem hother hrequest⟩

theorem Inv.start : s.start.Inv := by
  rw [System.start]
  split
  · exact h
  · rename_i hfree
    have hinitialized : ({ s with initializing := true } : System).Inv :=
      { h with initializing := fun _ _ _ => rfl }
    dsimp only
    split
    · exact hinitialized
    · rename_i hunbound
      have hsame : Function.update s.process s.epochs {} = s.process := by
        rw [← h.absent s.epochs (Nat.le_refl _), update_eq_self]
      have hnew (other : Nat) (hother : other < s.epochs) (hexited : (s.process other).exited = false) :
          other % 3 ≠ s.epochs % 3 := by
        intro haddress
        refine hunbound (find?_isSome.mpr ⟨other, mem_range.mpr hother, ?_⟩)
        simp [hexited, createDomainSocketAddress, haddress]
      rw [setProcess]
      dsimp only
      rw [hsame]
      refine ⟨h.alone, h.link, fun epoch hepoch => h.absent epoch (Nat.le_of_succ_le hepoch),
        fun epoch hepoch => ?_, fun _ _ _ => rfl, h.lock, fun first hfirst second hsecond => ?_, h.first⟩
      · by_cases hlast : epoch + 1 < s.epochs
        · exact h.started epoch hlast
        · by_contra hunstarted
          have hlast' : epoch + 1 = s.epochs :=
            Nat.le_antisymm (Nat.le_of_lt_succ hepoch) (Nat.le_of_not_lt hlast)
          exact hfree (h.initializing epoch hlast' (Bool.eq_false_iff.mpr hunstarted))
      · dsimp only at hfirst hsecond ⊢
        intro hfirst' hsecond' haddress
        rcases Nat.lt_succ_iff_lt_or_eq.mp hfirst with hfirst | rfl
        · rcases Nat.lt_succ_iff_lt_or_eq.mp hsecond with hsecond | rfl
          · exact h.addresses first hfirst second hsecond hfirst' hsecond' haddress
          · exact absurd haddress (hnew first hfirst hfirst')
        · rcases Nat.lt_succ_iff_lt_or_eq.mp hsecond with hsecond | rfl
          · exact absurd haddress.symm (hnew second hsecond hsecond')
          · rfl

theorem Inv.setTimer (hepoch : epoch < s.epochs) (statFlushTimer : Bool)
    (hrequested : statFlushTimer = true → (s.process epoch).adminRequested = true) :
    (s.setProcess epoch { s.process epoch with statFlushTimer := statFlushTimer }).Inv := by
  have hlocal := h.alone epoch
  refine h.single hepoch rfl rfl { hlocal with
    fresh := fun hfresh => ⟨(hlocal.fresh hfresh).1, (hlocal.fresh hfresh).2.1,
      Bool.eq_false_iff.mpr fun htimer => ?_⟩ } (fun parent hparent => ?_) ?_ id (h.initializing_single id)
    (h.lock_single rfl) id fun hzero => ?_
  · cases (hrequested htimer).symm.trans hfresh
  · subst hparent
    exact (h.link parent).sameChild ⟨rfl, rfl, id, rfl⟩
  · exact (h.link epoch).sameParent ⟨fun _ _ => Iff.rfl, rfl, id, id⟩
  · subst hzero
    exact h.first

theorem Inv.started_of_child (hchild : s.process (epoch + 1) ≠ {}) :
    epoch < s.epochs ∧ (s.process epoch).started = true := by
  have hepoch : epoch + 1 < s.epochs := by
    by_contra habsent
    exact hchild (h.absent _ (by omega))
  exact ⟨by omega, h.started epoch hepoch⟩

theorem Inv.child_of_ended (hended : (s.process epoch).sigterm = true ∨
    (s.process epoch).exiting = true ∨ .terminateRequest ∈ (s.process epoch).queue) :
    s.process (epoch + 1) ≠ {} := fun habsent => by
  have hterminated := (h.link epoch).ended hended
  rw [habsent] at hterminated
  cases hterminated

end

theorem getParentStats_of_quiet (hquiet : Quiet epoch (s.process epoch)) :
    s.getParentStats epoch = some s := by
  rw [getParentStats]
  refine if_pos ?_
  rcases hquiet with rfl | hquiet
  · rfl
  · rw [hquiet, Bool.or_true]
    rfl

theorem terminateParent_of_quiet (hquiet : Quiet epoch (s.process epoch)) :
    s.terminateParent epoch = some s := by
  rw [terminateParent]
  refine if_pos ?_
  rcases hquiet with rfl | hquiet
  · rfl
  · rw [hquiet, Bool.or_true]

theorem terminateParent_of_reaches (hreaches : s.Reaches epoch)
    (hterminated : (s.process (epoch + 1)).parentTerminated = false) :
    ∃ s', s.terminateParent (epoch + 1) = some s' ∧ s'.epochs = s.epochs ∧
      s'.initializing = s.initializing ∧ s'.initLock = s.initLock ∧
      s'.process = s.askedProcess epoch .terminateRequest
        ({ s.process (epoch + 1) with parentTerminated := true }) := by
  rw [terminateParent, hterminated, Bool.or_false, if_neg (by simp), parentAddress, Nat.succ_sub_one,
    sendMessage_eq hreaches]
  exact ⟨_, rfl, rfl, rfl, rfl, changed_process fun process => { process with parentTerminated := true }⟩

section

variable (h : s.Inv)
include h

theorem Inv.reply (hidle : (s.process epoch).waiting = none)
    (hqueue : (s.process epoch).queue = message :: queue) (hreply : message.replyType = some type)
    (hquiet : message = .shutdownAdminRequest → Quiet epoch (s.process epoch)) :
    ∃ s', (s.setProcess epoch { s.process epoch with queue := queue }).sendMessage
      (childAddress epoch) type = some s' ∧ s'.Inv := by
  obtain ⟨hepoch, -, hexited⟩ := h.present (h.child_waits hqueue hreply).1
  have hreaches : (s.setProcess epoch { s.process epoch with queue := queue }).Reaches (epoch + 1) :=
    (h.reaches hepoch hexited).congr rfl (exited_setProcess rfl)
  rw [childAddress, sendMessage_eq hreaches, process_of_ne s _ (Nat.succ_ne_self epoch)]
  exact ⟨_, rfl, h.answered hidle hqueue hreply hquiet rfl rfl rfl rfl⟩

theorem shutdownAdmin_pop (hepoch : epoch < s.epochs) :
    (s.setProcess epoch { s.process epoch with queue := queue }).shutdownAdmin epoch =
      (s.shutdownAdmin epoch).map fun s => s.setProcess epoch { s.process epoch with queue := queue } := by
  have hswap : (s.setProcess epoch { s.process epoch with queue := queue }).setProcess epoch
      { (s.setProcess epoch { s.process epoch with queue := queue }).process epoch with
        statFlushTimer := false } =
      s.setProcess epoch { s.process epoch with queue := queue, statFlushTimer := false } := by
    simp [setProcess]
  rw [shutdownAdmin, shutdownAdmin, hswap]
  by_cases hquiet : Quiet epoch (s.process epoch)
  · rw [terminateParent_of_quiet (by rw [process_self]; exact hquiet),
      terminateParent_of_quiet (by rw [process_self]; exact hquiet)]
    simp [setProcess]
  · obtain ⟨hnext, hterminated⟩ := not_or.mp hquiet
    rw [Bool.not_eq_true] at hterminated
    obtain ⟨parent, rfl⟩ := Nat.exists_eq_succ_of_ne_zero hnext
    have hreaches := h.parent_reaches hepoch hterminated
    obtain ⟨popped, hpopped, hepochs, hinitializing, hlock, hprocess⟩ :=
      @terminateParent_of_reaches (s.setProcess (parent + 1)
        { s.process (parent + 1) with queue := queue, statFlushTimer := false }) parent
        (hreaches.congr rfl (exited_setProcess rfl)) (by rw [process_self]; exact hterminated)
    obtain ⟨shut, hshut, hepochs', hinitializing', hlock', hprocess'⟩ :=
      @terminateParent_of_reaches (s.setProcess (parent + 1)
        { s.process (parent + 1) with statFlushTimer := false }) parent
        (hreaches.congr rfl (exited_setProcess rfl)) (by rw [process_self]; exact hterminated)
    rw [process_self, askedProcess_setProcess] at hprocess hprocess'
    rw [hpopped, hshut, Option.map_some]
    refine congrArg some (System.ext ?_ (hepochs.trans hepochs'.symm)
      (hinitializing.trans hinitializing'.symm) (hlock.trans hlock'.symm))
    rw [hprocess, setProcess, hprocess', askedProcess_self]
    exact (askedProcess_update _).symm

theorem Inv.terminateParent_quiet (hepoch : epoch < s.epochs)
    (hidle : (s.process epoch).waiting = none) (hstarted : (s.process epoch).started = true) :
    ∃ s', s.terminateParent epoch = some s' ∧ s'.Inv ∧ s'.epochs = s.epochs ∧
      Quiet epoch (s'.process epoch) ∧ ∃ parentTerminated,
        s'.process epoch = { s.process epoch with parentTerminated := parentTerminated } := by
  obtain ⟨s', hs', hinv⟩ := h.terminateParent hepoch hidle hstarted
  refine ⟨s', hs', hinv, ?_⟩
  by_cases hquiet : Quiet epoch (s.process epoch)
  · rw [terminateParent_of_quiet hquiet] at hs'
    cases hs'
    exact ⟨rfl, hquiet, (s.process epoch).parentTerminated, rfl⟩
  · obtain ⟨hnext, hterminated⟩ := not_or.mp hquiet
    rw [Bool.not_eq_true] at hterminated
    obtain ⟨parent, rfl⟩ := Nat.exists_eq_succ_of_ne_zero hnext
    obtain ⟨terminated, heq, hepochs, -, -, hprocess⟩ :=
      terminateParent_of_reaches (h.parent_reaches hepoch hterminated) hterminated
    cases hs'.symm.trans heq
    rw [hprocess, askedProcess_self]
    exact ⟨hepochs, .inr rfl, true, rfl⟩

theorem Inv.shutdownAdmin (hepoch : epoch < s.epochs)
    (hidle : (s.process epoch).waiting = none) (hstarted : (s.process epoch).started = true) :
    ∃ s', s.shutdownAdmin epoch = some s' ∧ s'.Inv ∧ Quiet epoch (s'.process epoch) ∧
      (s'.process epoch).queue = (s.process epoch).queue ∧ (s'.process epoch).waiting = none := by
  obtain ⟨s', hs', hinv, -, hquiet, terminated, hprocess⟩ :=
    (h.setTimer hepoch false nofun).terminateParent_quiet hepoch
      ((congrArg Process.waiting (process_self ..)).trans hidle)
      ((congrArg Process.started (process_self ..)).trans hstarted)
  rw [process_self] at hprocess
  refine ⟨s', hs', hinv, hquiet, ?_⟩
  rw [hprocess]
  exact ⟨rfl, hidle⟩

theorem Inv.onSocketEvent (henabled : s.Enabled (.onSocketEvent epoch)) :
    ∃ s', s.onSocketEvent epoch = some s' ∧ s'.Inv := by
  obtain ⟨hepoch, -, hidle⟩ := henabled
  rw [System.onSocketEvent]
  cases hqueue : (s.process epoch).queue with
  | nil => exact ⟨s, rfl, h⟩
  | cons message queue =>
    have hreplies := h.replies_nil hidle
    rw [hqueue] at hreplies
    cases message with
    | drainListenersRequest =>
      exact ⟨_, rfl, h.taken hepoch hidle hqueue rfl rfl (s.process epoch).sigterm .inl⟩
    | terminateRequest =>
      refine ⟨_, rfl, ?_⟩
      have htaken := h.taken hepoch hidle hqueue rfl rfl true fun _ => .inr rfl
      simpa [setProcess] using htaken
    | getListenSocketRequest | getStatsRequest => exact h.reply hidle hqueue rfl (by simp)
    | shutdownAdminRequest =>
      have hwaiting := (h.child_waits hqueue rfl).1
      have hstarted := h.started epoch (h.present hwaiting).1
      obtain ⟨s', hs', hinv, hquiet, hsame, hidle'⟩ := h.shutdownAdmin hepoch hidle hstarted
      dsimp only
      rw [shutdownAdmin_pop h hepoch, hs']
      exact hinv.reply hidle' (hsame.trans hqueue) rfl fun _ => hquiet
    | getListenSocketReply | shutdownAdminReply | getStatsReply | unknownRequestReply =>
      cases hreplies

theorem Inv.onSigterm (henabled : s.Enabled (.onSigterm epoch)) :
    ∃ s', s.onSigterm epoch = some s' ∧ s'.Inv := by
  obtain ⟨⟨hepoch, -, hidle⟩, hsigterm⟩ := henabled
  have hstarted := (h.started_of_child (h.child_of_ended (.inl hsigterm))).2
  obtain ⟨s', hs', hinv, hepochs, hquiet, terminated, hprocess⟩ :=
    h.terminateParent_quiet hepoch hidle hstarted
  have hsigterm' : (s'.process epoch).sigterm = true := by rw [hprocess]; exact hsigterm
  have hlocal := hinv.alone epoch
  have hexiting : (s'.setProcess epoch { s'.process epoch with exiting := true }).Inv := by
    refine hinv.single (hepochs ▸ hepoch) rfl rfl { hlocal with
        exited := fun _ => rfl } (fun parent hparent => ?_) ?_ id
      (hinv.initializing_single id) (hinv.lock_single rfl) id fun hzero => ?_
    · subst hparent
      exact (hinv.link parent).sameChild ⟨rfl, rfl, id, rfl⟩
    · exact (hinv.link epoch).sameParent ⟨fun _ _ => Iff.rfl, rfl, id, fun _ => .inl hsigterm'⟩
    · subst hzero
      exact hinv.first
  rw [System.onSigterm, hs', Option.bind_some]
  dsimp only
  split
  · rw [getParentStats_of_quiet (by rw [process_self]; exact hquiet)]
    exact ⟨_, rfl, hexiting⟩
  · exact ⟨_, rfl, hexiting⟩

theorem Inv.exit (henabled : s.Enabled (.exit epoch)) : (s.exit epoch).Inv := by
  obtain ⟨hexiting, hidle⟩ := henabled
  have hlocal := h.alone epoch
  have hlink := h.link epoch
  have hterminated := hlink.ended (.inr (.inl hexiting))
  have hchild := (h.alone (epoch + 1)).awake (.inr hterminated)
  refine h.single (h.started_of_child (h.child_of_ended (.inr (.inl hexiting)))).1 rfl rfl
    { hlocal with head := fun _ _ => nofun, exited := fun _ => hexiting }
    (fun parent hparent => ?_) ⟨fun _ => nofun, fun hrequested => ?_, ?_, fun _ => hterminated⟩ id
    (h.initializing_single id) (h.lock_single rfl) nofun fun _ => rfl
  · subst hparent
    have hparent := h.link parent
    refine { hparent with tokens := ?_ }
    rw [(h.requests_nil hidle).1]
    exact congrArg Option.toList hidle
  · exact .inr (h.parent_quiet hrequested hchild)
  · rw [hchild, (h.requests_nil hchild).2]
    rfl

theorem Inv.step (event : Event) (hregular : s.Regular event) :
    ∃ s', s.step event = some s' ∧ s'.Inv := by
  rw [System.step]
  split
  · rename_i henabled
    cases event with
    | start => exact ⟨_, rfl, h.start⟩
    | shutdownParentAdmin epoch => exact h.shutdownParentAdmin henabled (hregular henabled)
    | enableStatFlushTimer epoch => exact ⟨_, rfl, h.setTimer henabled.1.1 true fun _ => henabled.2.1⟩
    | startWorkers epoch => exact h.startWorkers henabled
    | duplicateParentListenSocket epoch =>
      exact h.duplicateParentListenSocket henabled (hregular henabled)
    | flushStats epoch =>
      refine h.getParentStats henabled (eq_true_of_ne_false fun hfresh => ?_)
      exact absurd (henabled.2.symm.trans ((h.alone epoch).fresh hfresh).2.2) nofun
    | terminateParent epoch =>
      exact h.terminateParent henabled.1.1 henabled.1.2.2 henabled.2
    | receiveTypedRpc epoch => exact h.receiveTypedRpc epoch
    | onSocketEvent epoch => exact h.onSocketEvent henabled
    | onSigterm epoch => exact h.onSigterm henabled
    | exit epoch => exact ⟨_, rfl, h.exit henabled⟩
  · exact ⟨s, rfl, h⟩

end

/-- In a run of such steps no receive gets the wrong message, and every one is answered. -/
theorem regular_answered (events : List Event) (hregular : AllMeet step Regular create events) :
    ∃ s, run step create events = some s ∧ s.Answered := by
  obtain ⟨s, hrun, hinv⟩ := run_safe (fun s event hinv hmeet => Inv.step hinv event hmeet)
    create_inv hregular
  exact ⟨s, hrun, hinv.answered_all⟩

theorem receiveTypedRpc_eq_none (hwaiting : (s.process epoch).waiting = some type)
    (hqueue : (s.process epoch).queue = message :: queue) (hne : message ≠ type) :
    s.receiveTypedRpc epoch = none := by
  rw [System.receiveTypedRpc, hwaiting, hqueue]
  exact if_neg (by simp [hne])

/-- The process waits for a message of one type and takes one of another. -/
def Crossed (s : System) (epoch : Nat) : Prop :=
  ∃ type message, (s.process epoch).waiting = some type ∧
    (s.process epoch).queue.head? = some message ∧ message ≠ type ∧
    s.step (.receiveTypedRpc epoch) = none

theorem crossed_of_queue (hwaiting : (s.process epoch).waiting = some type)
    (hqueue : (s.process epoch).queue = message :: queue) (hne : message ≠ type) :
    s.Crossed epoch := by
  refine ⟨type, message, hwaiting, ?_, hne, ?_⟩
  · rw [hqueue]
    rfl
  · exact (if_pos trivial).trans (receiveTypedRpc_eq_none hwaiting hqueue hne)

/-- A step that is not regular goes through, and leads to a receive that fails. -/
theorem Inv.crossed (h : s.Inv) {event : Event} (hcrossed : ¬s.Regular event) :
    ∃ s' epoch, s.step event = some s' ∧ s'.Crossed epoch := by
  cases event with
  | duplicateParentListenSocket epoch =>
    obtain ⟨henabled, hnext, hterminated, hmem⟩ : _ ∧ _ ∧ _ ∧ _ := by simpa [Regular] using hcrossed
    obtain ⟨parent, rfl⟩ := Nat.exists_eq_succ_of_ne_zero hnext
    have hreplies := h.replies_nil henabled.1.2.2
    obtain ⟨head, rest, hqueue⟩ := exists_cons_of_ne_nil (ne_nil_of_mem hmem)
    have hhead : head ≠ .getListenSocketReply := fun heq => by
      rw [hqueue, heq] at hreplies
      cases hreplies
    obtain ⟨s', hs', hprocess⟩ :=
      duplicateParentListenSocket_of_reaches (h.parent_reaches henabled.1.1 hterminated) hterminated
    have hself := congrFun hprocess (parent + 1)
    rw [askedProcess_self] at hself
    have hwaiting : (s'.process (parent + 1)).waiting = some .getListenSocketReply := by rw [hself]
    have hqueue' : (s'.process (parent + 1)).queue = head :: rest := by
      rw [hself]
      exact hqueue
    exact ⟨s', parent + 1, (if_pos henabled).trans hs', crossed_of_queue hwaiting hqueue' hhead⟩
  | shutdownParentAdmin epoch =>
    obtain ⟨henabled, hwaiting, hqueue⟩ : _ ∧ _ ∧ _ := by simpa [Regular] using hcrossed
    cases epoch with
    | zero => cases henabled.1.2.2.symm.trans hwaiting
    | succ parent =>
      have hterminated := (h.alone (parent + 1)).unstarted ((h.alone (parent + 1)).fresh henabled.2.1).1
      obtain ⟨s', hs', hprocess⟩ :=
        shutdownParentAdmin_of_reaches (h.parent_reaches henabled.1.1 hterminated)
      have hparent := congrFun hprocess parent
      rw [askedProcess, update_of_ne (Nat.succ_ne_self parent).symm, update_self] at hparent
      have hwaiting' : (s'.process parent).waiting = some .getListenSocketReply := by
        rw [hparent]
        exact hwaiting
      have hqueue' : (s'.process parent).queue = [.shutdownAdminRequest] := by
        rw [hparent]
        exact congrArg (· ++ [_]) hqueue
      exact ⟨s', parent, (if_pos henabled).trans hs',
        crossed_of_queue hwaiting' hqueue' (by simp)⟩
  | _ => exact absurd trivial hcrossed

instance (s : System) : DecidablePred s.Regular := by
  rintro ⟨⟩ <;> dsimp only [Regular] <;> infer_instance

def handoverEvents : List Event :=
  [.start, .shutdownParentAdmin 0, .startWorkers 0, .start, .shutdownParentAdmin 1, .onSocketEvent 0,
    .receiveTypedRpc 1, .enableStatFlushTimer 1, .startWorkers 1]

def restartEvents : List Event :=
  handoverEvents ++ [.flushStats 1, .onSocketEvent 0, .onSocketEvent 0, .receiveTypedRpc 1,
    .duplicateParentListenSocket 1, .onSocketEvent 0, .start, .shutdownParentAdmin 2,
    .receiveTypedRpc 1, .onSocketEvent 1, .receiveTypedRpc 2, .startWorkers 2, .terminateParent 2,
    .onSocketEvent 0, .onSigterm 0, .exit 0]

theorem restartEvents_answered : ∃ s, run step create restartEvents = some s ∧ s.Answered :=
  regular_answered restartEvents (by decide)

def crossedEvents : List Event :=
  handoverEvents ++ [.start, .duplicateParentListenSocket 1, .shutdownParentAdmin 2]

theorem crossedEvents_not_answered :
    ∃ s, run step create crossedEvents = some s ∧ s.step (.receiveTypedRpc 1) = none :=
  ⟨_, rfl, rfl⟩

/-- Right after the first step of a run that is not regular, a process takes a message of another
type than the one it waits for. -/
theorem crossed_unanswered (events : List Event) (hcrossed : ¬ AllMeet step Regular create events) :
    ∃ before event after s s' epoch, events = before ++ event :: after ∧
      AllMeet step Regular create before ∧ run step create before = some s ∧ ¬s.Regular event ∧
      s.step event = some s' ∧ s'.Crossed epoch := by
  obtain ⟨before, event, after, s, rfl, hmeet, hrun, hinv, hunmet⟩ := first_unmet
    (keeps_of_safe fun _ event h => Inv.step h event) create_inv hcrossed
  obtain ⟨s', epoch, hs', hfails⟩ := hinv.crossed hunmet
  exact ⟨before, event, after, s, s', epoch, rfl, hmeet, hrun, hunmet, hs', hfails⟩

theorem crossedEvents_unanswered : ∃ before event after s s' epoch,
    crossedEvents = before ++ event :: after ∧
      AllMeet step Regular create before ∧ run step create before = some s ∧ ¬s.Regular event ∧
      s.step event = some s' ∧ s'.Crossed epoch :=
  crossed_unanswered crossedEvents (by decide)

end System

end Meliproxy.Envoy.Server.HotRestart
