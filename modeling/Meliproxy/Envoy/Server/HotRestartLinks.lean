import Meliproxy.Envoy.Server.HotRestart

/-!
# A process and its child

`Link` is what holds between a process and its child: for every blocking request of the child there
is one message under way, the request or its reply. `Local` is what a process keeps by itself. An
event changes one process, or a process together with its child, and every other link stays.
-/

namespace Meliproxy.Envoy.Server.HotRestart

open Lib List Function Bool

def RpcMessageType.replyType : RpcMessageType → Option RpcMessageType
  | .getListenSocketRequest => some .getListenSocketReply
  | .shutdownAdminRequest => some .shutdownAdminReply
  | .getStatsRequest => some .getStatsReply
  | _ => none

def RpcMessageType.isReply : RpcMessageType → Bool
  | .getListenSocketReply | .shutdownAdminReply | .getStatsReply | .unknownRequestReply => true
  | _ => false

def requests (queue : List RpcMessageType) : List RpcMessageType :=
  queue.filterMap RpcMessageType.replyType

def replies (queue : List RpcMessageType) : List RpcMessageType :=
  queue.filter RpcMessageType.isReply

/-- A process whose admin has been shut down asks nothing of its parent any more. -/
def Quiet (epoch : Nat) (process : Process) : Prop := epoch = 0 ∨ process.parentTerminated = true

structure Local (epoch : Nat) (process : Process) : Prop where
  fresh : process.adminRequested = false →
    process.started = false ∧ process.waiting = none ∧ process.statFlushTimer = false
  unstarted : process.started = false → process.parentTerminated = false
  awake : Quiet epoch process → process.waiting = none
  types : ∀ type, process.waiting = some type →
    type = .getListenSocketReply ∨ type = .shutdownAdminReply ∨ type = .getStatsReply
  head : ∀ type, process.waiting = some type → ∀ message ∈ process.queue.head?, message = type
  exited : process.exited = true → process.exiting = true

structure Link (epoch : Nat) (process child : Process) : Prop where
  silent : child.adminRequested = false → ∀ message ∈ process.queue, message.isReply = true
  quiet : child.adminRequested = true →
    .shutdownAdminRequest ∈ process.queue ∨ Quiet epoch process
  tokens : child.waiting.toList = requests process.queue ++ replies child.queue
  ended : process.sigterm = true ∨ process.exiting = true ∨ .terminateRequest ∈ process.queue →
    child.parentTerminated = true

variable {epoch : Nat} {process process' child child' : Process} {message type : RpcMessageType}
  {queue : List RpcMessageType}

/-- What the parent sees of a process. -/
structure SameChild (child child' : Process) : Prop where
  adminRequested : child'.adminRequested = child.adminRequested
  waiting : child'.waiting = child.waiting
  parentTerminated : child.parentTerminated = true → child'.parentTerminated = true
  replies : replies child'.queue = replies child.queue

/-- What the child sees of a process. -/
structure SameParent (process process' : Process) : Prop where
  messages : ∀ message, message.isReply = false →
    (message ∈ process'.queue ↔ message ∈ process.queue)
  requests : requests process'.queue = requests process.queue
  parentTerminated : process.parentTerminated = true → process'.parentTerminated = true
  ended : process'.sigterm = true ∨ process'.exiting = true →
    process.sigterm = true ∨ process.exiting = true

theorem Link.sameChild (h : Link epoch process child) (hsame : SameChild child child') :
    Link epoch process child' := by
  refine ⟨fun hfresh => h.silent (hsame.adminRequested ▸ hfresh),
    fun hrequested => h.quiet (hsame.adminRequested ▸ hrequested), ?_,
    fun hended => hsame.parentTerminated (h.ended hended)⟩
  rw [hsame.waiting, hsame.replies]
  exact h.tokens

theorem Link.sameParent (h : Link epoch process child) (hsame : SameParent process process') :
    Link epoch process' child := by
  refine ⟨fun hfresh message hmem => ?_, fun hrequested => ?_, ?_, fun hended => ?_⟩
  · by_contra hreply
    have hrequest := eq_false_iff.mpr hreply
    exact hreply (h.silent hfresh message ((hsame.messages message hrequest).mp hmem))
  · rcases h.quiet hrequested with hmem | hzero | hterminated
    · exact .inl ((hsame.messages _ rfl).mpr hmem)
    · exact .inr (.inl hzero)
    · exact .inr (.inr (hsame.parentTerminated hterminated))
  · rw [hsame.requests]
    exact h.tokens
  · rcases hended with hsigterm | hexiting | hmem
    · exact h.ended ((hsame.ended (.inl hsigterm)).imp_right .inl)
    · exact h.ended ((hsame.ended (.inr hexiting)).imp_right .inl)
    · exact h.ended (.inr (.inr ((hsame.messages _ rfl).mp hmem)))

namespace System

def HoldsLock (process : Process) : Prop :=
  process.waiting = some .shutdownAdminReply ∨ process.waiting = some .getStatsReply

structure Inv (s : System) : Prop where
  alone : ∀ epoch, Local epoch (s.process epoch)
  link : ∀ epoch, Link epoch (s.process epoch) (s.process (epoch + 1))
  absent : ∀ epoch, s.epochs ≤ epoch → s.process epoch = {}
  started : ∀ epoch, epoch + 1 < s.epochs → (s.process epoch).started = true
  initializing : ∀ epoch, epoch + 1 = s.epochs → (s.process epoch).started = false →
    s.initializing = true
  lock : ∀ epoch, s.initLock = some epoch ↔ HoldsLock (s.process epoch)
  addresses : ∀ epoch < s.epochs, ∀ other < s.epochs, (s.process epoch).exited = false →
    (s.process other).exited = false → epoch % 3 = other % 3 → epoch = other
  first : replies (s.process 0).queue = []

variable {s s' : System}

theorem process_self (s : System) (epoch : Nat) (process : Process) :
    (s.setProcess epoch process).process epoch = process := update_self ..

theorem process_of_ne (s : System) (process : Process) {other : Nat} (hne : other ≠ epoch) :
    (s.setProcess epoch process).process other = s.process other := update_of_ne hne ..

theorem exited_setProcess (hexited : process.exited = (s.process epoch).exited) (other : Nat) :
    ((s.setProcess epoch process).process other).exited = (s.process other).exited := by
  by_cases hother : other = epoch
  · rw [hother, process_self, hexited]
  · rw [process_of_ne s process hother]

theorem Inv.initializing_single (h : s.Inv)
    (hstarted : (s.process epoch).started = true → process.started = true) (last : Nat)
    (hlast : last + 1 = s.epochs)
    (hunstarted : ((s.setProcess epoch process).process last).started = false) :
    s.initializing = true := by
  refine h.initializing last hlast (eq_false_iff.mpr fun hold => ?_)
  by_cases hne : last = epoch
  · subst hne
    rw [process_self, hstarted hold] at hunstarted
    cases hunstarted
  · rw [process_of_ne s process hne, hold] at hunstarted
    cases hunstarted

theorem Inv.lock_single (h : s.Inv) (hwaiting : process.waiting = (s.process epoch).waiting)
    (other : Nat) :
    s.initLock = some other ↔ HoldsLock ((s.setProcess epoch process).process other) := by
  by_cases hne : other = epoch
  · subst hne
    rw [h.lock, process_self, HoldsLock, HoldsLock, hwaiting]
  · rw [h.lock, process_of_ne s process hne]

theorem Inv.single (h : s.Inv) (hepoch : epoch < s.epochs)
    (hprocess : s'.process = Function.update s.process epoch process) (hepochs : s'.epochs = s.epochs)
    (halone : Local epoch process)
    (hleft : ∀ parent, parent + 1 = epoch → Link parent (s.process parent) process)
    (hright : Link epoch process (s.process (epoch + 1)))
    (hstarted : (s.process epoch).started = true → process.started = true)
    (hinitializing : ∀ last, last + 1 = s.epochs → (s'.process last).started = false →
      s'.initializing = true)
    (hlock : ∀ other, s'.initLock = some other ↔ HoldsLock (s'.process other))
    (hexited : process.exited = false → (s.process epoch).exited = false)
    (hfirst : epoch = 0 → replies process.queue = []) : s'.Inv := by
  have hself : s'.process epoch = process := by rw [hprocess, update_self]
  have hother (other : Nat) (hne : other ≠ epoch) : s'.process other = s.process other := by
    rw [hprocess, update_of_ne hne]
  refine ⟨fun other => ?_, fun other => ?_, fun other hother' => ?_, fun other hother' => ?_,
    fun last hlast => hinitializing last (hlast.trans hepochs), hlock,
    fun first hfirst second hsecond hfirst' hsecond' => ?_, ?_⟩
  · by_cases hne : other = epoch
    · rw [hne, hself]
      exact halone
    · rw [hother other hne]
      exact h.alone other
  · by_cases hne : other = epoch
    · rw [hne, hself, hother (epoch + 1) (Nat.succ_ne_self epoch)]
      exact hright
    · rw [hother other hne]
      by_cases hnext : other + 1 = epoch
      · rw [hnext, hself]
        exact hleft other hnext
      · rw [hother _ hnext]
        exact h.link other
  · rw [hepochs] at hother'
    rw [hother other fun heq => absurd hepoch (by omega)]
    exact h.absent other hother'
  · rw [hepochs] at hother'
    by_cases hne : other = epoch
    · rw [hne, hself]
      exact hstarted (hne ▸ h.started other hother')
    · rw [hother other hne]
      exact h.started other hother'
  · have hbefore (other : Nat) (hexited' : (s'.process other).exited = false) :
        (s.process other).exited = false := by
      by_cases hne : other = epoch
      · rw [hne] at hexited' ⊢
        exact hexited (hself ▸ hexited')
      · exact hother other hne ▸ hexited'
    rw [hepochs] at hfirst hsecond
    exact h.addresses first hfirst second hsecond (hbefore first hfirst') (hbefore second hsecond')
  · by_cases hne : 0 = epoch
    · rw [hne, hself]
      exact hfirst hne.symm
    · rw [hother 0 hne]
      exact h.first

theorem Inv.pair (h : s.Inv) (hepoch : epoch + 1 < s.epochs) (hprocess : s'.process =
      Function.update (Function.update s.process epoch process) (epoch + 1) child)
    (hepochs : s'.epochs = s.epochs) (halone : Local epoch process)
    (halone' : Local (epoch + 1) child) (hlink : Link epoch process child)
    (hparent : SameChild (s.process epoch) process)
    (hchild : SameParent (s.process (epoch + 1)) child)
    (hstarted : process.started = (s.process epoch).started)
    (hstarted' : (s.process (epoch + 1)).started = true → child.started = true)
    (hinitializing : ∀ last, last + 1 = s.epochs → (s'.process last).started = false →
      s'.initializing = true)
    (hlock : ∀ other, s'.initLock = some other ↔ HoldsLock (s'.process other))
    (hexited : process.exited = (s.process epoch).exited)
    (hexited' : child.exited = (s.process (epoch + 1)).exited) : s'.Inv := by
  have hself : s'.process epoch = process := by
    rw [hprocess, update_of_ne (Nat.succ_ne_self epoch).symm, update_self]
  have hnext : s'.process (epoch + 1) = child := by rw [hprocess, update_self]
  have hother (other : Nat) (hne : other ≠ epoch) (hne' : other ≠ epoch + 1) :
      s'.process other = s.process other := by
    rw [hprocess, update_of_ne hne', update_of_ne hne]
  have hstarts (other : Nat) (hold : (s.process other).started = true) :
      (s'.process other).started = true := by
    by_cases hne : other = epoch
    · rw [hne] at hold ⊢
      rw [hself, hstarted, hold]
    · by_cases hne' : other = epoch + 1
      · rw [hne'] at hold ⊢
        rw [hnext]
        exact hstarted' hold
      · rw [hother other hne hne']
        exact hold
  have hexits (other : Nat) : (s'.process other).exited = (s.process other).exited := by
    by_cases hne : other = epoch
    · rw [hne, hself, hexited]
    · by_cases hne' : other = epoch + 1
      · rw [hne', hnext, hexited']
      · rw [hother other hne hne']
  refine ⟨fun other => ?_, fun other => ?_, fun other hother' => ?_,
    fun other hother' => hstarts other (h.started other (hepochs ▸ hother')),
    fun last hlast => hinitializing last (hlast.trans hepochs), hlock,
    fun first hfirst second hsecond hfirst' hsecond' => ?_, ?_⟩
  · by_cases hne : other = epoch
    · rw [hne, hself]
      exact halone
    · by_cases hne' : other = epoch + 1
      · rw [hne', hnext]
        exact halone'
      · rw [hother other hne hne']
        exact h.alone other
  · by_cases hne : other = epoch
    · rw [hne, hself, hnext]
      exact hlink
    · by_cases hne' : other = epoch + 1
      · rw [hne', hnext, hother (epoch + 1 + 1) (by omega) (by omega)]
        exact (h.link (epoch + 1)).sameParent hchild
      · rw [hother other hne hne']
        by_cases hbefore : other + 1 = epoch
        · rw [hbefore, hself]
          exact Link.sameChild (hbefore ▸ h.link other) hparent
        · rw [hother _ hbefore (by omega)]
          exact h.link other
  · rw [hepochs] at hother'
    rw [hother other (by omega) (by omega)]
    exact h.absent other hother'
  · rw [hepochs] at hfirst hsecond
    exact h.addresses first hfirst second hsecond (hexits first ▸ hfirst') (hexits second ▸ hsecond')
  · by_cases hne : 0 = epoch
    · rw [hne, hself, hparent.replies, ← hne]
      exact h.first
    · rw [hother 0 hne (by omega)]
      exact h.first

theorem Local.requested (h : Local epoch process) (hstarted : process.started = true) :
    process.adminRequested = true := by
  by_contra hfresh
  rw [(h.fresh (eq_false_iff.mpr hfresh)).1] at hstarted
  cases hstarted

theorem Local.started (h : Local epoch process) (hterminated : process.parentTerminated = true) :
    process.started = true := by
  by_contra hunstarted
  rw [h.unstarted (eq_false_iff.mpr hunstarted)] at hterminated
  cases hterminated

theorem Inv.requested (h : s.Inv) (hterminated : (s.process epoch).parentTerminated = true) :
    (s.process epoch).adminRequested = true :=
  Local.requested (h.alone epoch) (Local.started (h.alone epoch) hterminated)

theorem Inv.requests_nil (h : s.Inv) (hwaiting : (s.process (epoch + 1)).waiting = none) :
    requests (s.process epoch).queue = [] ∧ replies (s.process (epoch + 1)).queue = [] := by
  have htokens := (h.link epoch).tokens
  rw [hwaiting] at htokens
  exact append_eq_nil_iff.mp htokens.symm

theorem mem_requests (hmem : message ∈ queue) (hreply : message.replyType = some type) :
    type ∈ requests queue := mem_filterMap.mpr ⟨message, hmem, hreply⟩

theorem Inv.parent_quiet (h : s.Inv) (hrequested : (s.process (epoch + 1)).adminRequested = true)
    (hwaiting : (s.process (epoch + 1)).waiting = none) : Quiet epoch (s.process epoch) := by
  rcases (h.link epoch).quiet hrequested with hmem | hquiet
  · have hrequest := mem_requests hmem rfl
    rw [(h.requests_nil hwaiting).1] at hrequest
    cases hrequest
  · exact hquiet

theorem Inv.ended (h : s.Inv) (hended : (s.process epoch).sigterm = true ∨
    (s.process epoch).exiting = true ∨ .terminateRequest ∈ (s.process epoch).queue) :
    (s.process epoch).waiting = none := by
  have hterminated := (h.link epoch).ended hended
  have hawake := (h.alone (epoch + 1)).awake (.inr hterminated)
  exact (h.alone epoch).awake (h.parent_quiet (h.requested hterminated) hawake)

theorem Inv.present (h : s.Inv) (hwaiting : (s.process epoch).waiting = some type) :
    epoch < s.epochs ∧ (s.process epoch).exiting = false ∧ (s.process epoch).exited = false := by
  refine ⟨?_, eq_false_iff.mpr fun hexiting => ?_, eq_false_iff.mpr fun hexited => ?_⟩
  · by_contra habsent
    rw [h.absent epoch (by omega)] at hwaiting
    cases hwaiting
  · rw [h.ended (.inr (.inl hexiting))] at hwaiting
    cases hwaiting
  · rw [h.ended (.inr (.inl ((h.alone epoch).exited hexited)))] at hwaiting
    cases hwaiting

theorem Inv.parent_present (h : s.Inv)
    (hterminated : (s.process (epoch + 1)).parentTerminated = false) :
    (s.process epoch).exiting = false ∧ (s.process epoch).exited = false := by
  have hrunning : (s.process epoch).exiting = false := eq_false_iff.mpr fun hexiting => by
    rw [(h.link epoch).ended (.inr (.inl hexiting))] at hterminated
    cases hterminated
  refine ⟨hrunning, eq_false_iff.mpr fun hexited => ?_⟩
  rw [(h.alone epoch).exited hexited] at hrunning
  cases hrunning

def Reaches (s : System) (epoch : Nat) : Prop :=
  epoch < s.epochs ∧ (s.process epoch).exited = false ∧
    ∀ other < s.epochs, (s.process other).exited = false → other % 3 = epoch % 3 → other = epoch

theorem Inv.reaches (h : s.Inv) (hepoch : epoch < s.epochs)
    (hexited : (s.process epoch).exited = false) : s.Reaches epoch :=
  ⟨hepoch, hexited, fun other hother hexited' hsame =>
    h.addresses other hother epoch hepoch hexited' hexited hsame⟩

theorem Reaches.congr (h : s.Reaches epoch) (hepochs : s'.epochs = s.epochs)
    (hexited : ∀ other, (s'.process other).exited = (s.process other).exited) : s'.Reaches epoch :=
  ⟨hepochs ▸ h.1, (hexited epoch).trans h.2.1, fun other hother hexited' hsame =>
    h.2.2 other (hepochs ▸ hother) ((hexited other).symm.trans hexited') hsame⟩

theorem sendMessage_eq (h : s.Reaches epoch) (rpc : RpcMessageType) :
    s.sendMessage (createDomainSocketAddress epoch) rpc = some (s.setProcess epoch
      { s.process epoch with queue := (s.process epoch).queue ++ [rpc] }) := by
  have hbound : s.boundTo (createDomainSocketAddress epoch) = some epoch := by
    rw [boundTo]
    cases hfound : (List.range s.epochs).find? fun other => !(s.process other).exited &&
        createDomainSocketAddress other = createDomainSocketAddress epoch with
    | none =>
      have hnone := find?_eq_none.mp hfound epoch (mem_range.mpr h.1)
      simp [h.2.1] at hnone
    | some other =>
      have hmem := mem_range.mp (mem_of_find?_eq_some hfound)
      have hboth := find?_some hfound
      rw [and_eq_true, decide_eq_true_eq, not_eq_true'] at hboth
      rw [h.2.2 other hmem hboth.1 hboth.2]
  rw [sendMessage, hbound]

end System

end Meliproxy.Envoy.Server.HotRestart
