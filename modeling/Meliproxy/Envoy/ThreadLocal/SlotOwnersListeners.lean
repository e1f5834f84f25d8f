import Meliproxy.Envoy.ThreadLocal.SlotOwnersWorkers

/-!
# Listeners hold the providers

A listener that is destroyed takes the providers with it that no other listener holds. One that was
drained goes when every worker has removed it, and then no update is queued that waits for it.
-/

namespace Meliproxy.Envoy.ThreadLocal

open Lib List

namespace Threads

variable {Key Value : Type} {s s' : Threads Key Value} {extra : List Nat}
variable {listener : ListenerImpl}

theorem phaseOf_mem (h : s.Inv extra) (hlistener : listener ∈ s.listeners) :
    s.phaseOf listener.tag = some listener.phase := by
  rw [phaseOf, find_of_nodup h.listenerTags hlistener]
  rfl

variable {listenerTag : Nat} {phase : ListenerPhase}

theorem exists_of_phaseOf (h : s.phaseOf listenerTag = some phase) :
    ∃ listener ∈ s.listeners, listener.tag = listenerTag ∧ listener.phase = phase := by
  obtain ⟨listener, hfind, hphase⟩ := Option.map_eq_some_iff.mp h
  exact ⟨listener, mem_of_find?_eq_some hfind, by simpa using find?_some hfind, hphase⟩

def withoutListener (s : Threads Key Value) (listenerTag : Nat) : Threads Key Value :=
  { s with listeners := s.listeners.filter fun listener => listener.tag ≠ listenerTag }

theorem mem_withoutListener : listener ∈ (s.withoutListener listenerTag).listeners ↔
      listener ∈ s.listeners ∧ listener.tag ≠ listenerTag := by
  change listener ∈ s.listeners.filter _ ↔ _
  rw [mem_filter, decide_eq_true_iff]

theorem pendingRemovals_withoutListener (s : Threads Key Value) (listenerTag other : Nat) :
    (s.withoutListener listenerTag).pendingRemovals other =
      if other = listenerTag then 0 else s.pendingRemovals other := by
  have hphase : (s.withoutListener listenerTag).phaseOf other =
      if other = listenerTag then none else s.phaseOf other := by
    simp only [phaseOf, withoutListener, find?_filter]
    split
    · next heq =>
      subst heq
      rw [Option.map_eq_none_iff, find?_eq_none]
      intro listener _
      simp
    · next hne =>
      congr 2
      funext listener
      by_cases heq : listener.tag = other
      · simp [heq, hne]
      · simp [heq]
  by_cases heq : other = listenerTag
  · rw [if_pos heq] at hphase ⊢
    rw [pendingRemovals, hphase]
  · rw [if_neg heq] at hphase ⊢
    rw [pendingRemovals, hphase]
    rfl

def unheld (s : Threads Key Value) : List (SlotOwner Key Value) :=
  s.owners.filter fun owner => owner.key.isSome && !s.isHeld owner.tag

theorem mem_unheld {owner : SlotOwner Key Value} : owner ∈ s.unheld ↔
    owner ∈ s.owners ∧ owner.key.isSome = true ∧ ¬ s.isHeld owner.tag = true := by
  simp [unheld, mem_filter]

theorem Inv.destroyUnheld (h : s.Inv (s.unheld.map SlotOwner.tag)) :
    (s.unheld.foldl Threads.destroyOwner s).Inv [] := by
  have hpairwise : s.unheld.Pairwise fun owner other => owner.tag ≠ other.tag :=
    (pairwise_map.mp h.tags).sublist filter_sublist
  have hall : ∀ owner ∈ s.unheld, owner ∈ s.owners ∧ ¬ s.IsQueued owner.tag ∧
      ¬ s.isHeld owner.tag = true := by
    intro owner howner
    obtain ⟨hmem, hkey, hfree⟩ := mem_unheld.mp howner
    refine ⟨hmem, ?_, hfree⟩
    rintro ⟨worker, hworker, value, hvalue⟩
    obtain ⟨front, back, hqueue⟩ := append_of_mem hvalue
    obtain ⟨listener, hlistener, hholds, -⟩ := (h.workers worker hworker).waited owner.tag front
      back ⟨value, hqueue⟩ ⟨owner, hmem, rfl, hkey⟩
    exact hfree (isHeld_iff.mpr ⟨listener, hlistener, hholds⟩)
  obtain ⟨hinv, hleft⟩ := h.destroyOwners hpairwise hall
  apply hinv.extend
  intro owner howner hsome htag
  obtain ⟨other, hother, hsame⟩ := mem_map.mp htag
  exact absurd hsame.symm ((hleft owner howner).2 other hother)

theorem Inv.destroyListener (h : s.Inv []) (posts : List Nat)
    (hremovals : ∀ other, ({ s with posts := posts } : Threads Key Value).removals other =
      if other = listenerTag then 0 else s.removals other)
    (hwaited : ∀ worker ∈ s.workers, ∀ tag front back, worker.Queued tag front back →
      IsProvider s.owners tag → Waited s.listeners back tag →
      Waited (s.withoutListener listenerTag).listeners back tag) :
    (({ s with posts := posts } : Threads Key Value).destroyListener listenerTag).Inv [] := by
  apply Inv.destroyUnheld
    (s := ({ s with posts := posts } : Threads Key Value).withoutListener listenerTag)
  constructor
  · exact h.safe
  · exact h.tags
  · exact h.fresh
  · exact h.keys
  · exact h.slots
  · exact h.main
  · exact h.listenerTags.sublist (filter_sublist.map _)
  · exact fun listener hlistener => h.freshListeners listener (mem_withoutListener.mp hlistener).1
  · exact fun listener hlistener => h.provided listener (mem_withoutListener.mp hlistener).1
  · intro owner howner hkey
    by_cases hheld : (s.withoutListener listenerTag).isHeld owner.tag = true
    · exact .inl hheld
    · exact .inr (mem_map_of_mem (mem_unheld.mpr ⟨howner, hkey, hheld⟩))
  · intro other
    rw [pendingRemovals_withoutListener]
    refine Eq.trans ?_ (hremovals other).symm
    exact if_congr Iff.rfl rfl (h.removals other)
  · exact fun worker hworker => (h.workers worker hworker).changeListeners (hwaited worker hworker)

theorem phaseOf_setPhase (s : Threads Key Value) (listenerTag other : Nat) (phase : ListenerPhase) :
    (s.setPhase listenerTag phase).phaseOf other =
      if other = listenerTag then (s.phaseOf listenerTag).map fun _ => phase
      else s.phaseOf other := by
  simp only [phaseOf, setPhase, find?_map]
  have hsame : ((fun listener : ListenerImpl => decide (listener.tag = other)) ∘
      fun listener => if listener.tag = listenerTag then { listener with phase := phase }
        else listener) = fun listener => decide (listener.tag = other) := by
    funext listener
    simp only [Function.comp_apply]
    split <;> rfl
  rw [hsame]
  by_cases heq : other = listenerTag
  · subst heq
    rw [if_pos rfl, Option.map_map, Option.map_map]
    cases hfind : s.listeners.find? (fun listener => listener.tag = other) with
    | none => rfl
    | some listener =>
      have htag : listener.tag = other := by simpa using find?_some hfind
      simp [htag]
  · rw [if_neg heq, Option.map_map]
    cases hfind : s.listeners.find? (fun listener => listener.tag = other) with
    | none => rfl
    | some listener =>
      have htag : listener.tag = other := by simpa using find?_some hfind
      simp [htag, heq]

theorem mem_setPhase : listener ∈ (s.setPhase listenerTag phase).listeners ↔ ∃ before ∈ s.listeners,
      (if before.tag = listenerTag then { before with phase := phase } else before) = listener :=
  mem_map

theorem setPhase_same (listenerTag : Nat) (phase : ListenerPhase) (listener : ListenerImpl) :
    (if listener.tag = listenerTag then { listener with phase := phase } else listener).tag =
        listener.tag ∧
      (if listener.tag = listenerTag then { listener with phase := phase }
        else listener).providers = listener.providers := by
  split <;> exact ⟨rfl, rfl⟩

theorem isHeld_setPhase (s : Threads Key Value) (listenerTag : Nat) (phase : ListenerPhase)
    (tag : Nat) : (s.setPhase listenerTag phase).isHeld tag = s.isHeld tag := by
  simp only [isHeld, setPhase, any_map]
  congr 1
  funext listener
  simp [(setPhase_same listenerTag phase listener).2]

theorem Inv.setPhase (h : s.Inv extra) (phase : ListenerPhase)
    (workers : List (WorkerThread Value)) (posts : List Nat)
    (hremovals : ∀ other, (s.setPhase listenerTag phase).pendingRemovals other =
      ({ s with workers := workers, posts := posts } : Threads Key Value).removals other)
    (hworkers : ∀ worker ∈ workers,
      WorkerOk s.owners (s.setPhase listenerTag phase).listeners s.posted worker) :
    ({ s.setPhase listenerTag phase with workers := workers, posts := posts } :
      Threads Key Value).Inv extra := by
  constructor
  · exact h.safe
  · exact h.tags
  · exact h.fresh
  · exact h.keys
  · exact h.slots
  · exact h.main
  · change ((s.listeners.map _).map ListenerImpl.tag).Nodup
    rw [map_map]
    have hsame : (ListenerImpl.tag ∘ fun listener : ListenerImpl =>
        if listener.tag = listenerTag then { listener with phase := phase } else listener) =
        ListenerImpl.tag := by
      funext listener
      exact (setPhase_same listenerTag phase listener).1
    rw [hsame]
    exact h.listenerTags
  · rintro _ hlistener
    obtain ⟨listener, hbefore, rfl⟩ := mem_setPhase.mp hlistener
    rw [(setPhase_same listenerTag phase listener).1]
    exact h.freshListeners listener hbefore
  · rintro _ hlistener
    obtain ⟨listener, hbefore, rfl⟩ := mem_setPhase.mp hlistener
    rw [(setPhase_same listenerTag phase listener).2]
    exact h.provided listener hbefore
  · intro owner howner hkey
    exact (h.held owner howner hkey).imp_left (isHeld_setPhase s listenerTag phase owner.tag).trans
  · exact hremovals
  · exact hworkers

theorem waited_setPhase
    {tasks tasks' : List (Task Value)} {tag : Nat} (h : Waited s.listeners tasks tag)
    (hphase : ∀ listener ∈ s.listeners, listener.tag = listenerTag → tag ∈ listener.providers →
      listener.isRemoving = false ∨ .removeListener listener.tag ∈ tasks →
      ({ listener with phase := phase } : ListenerImpl).isRemoving = false ∨
        .removeListener listenerTag ∈ tasks')
    (hsub : ∀ task ∈ tasks, task ∈ tasks') :
    Waited (s.setPhase listenerTag phase).listeners tasks' tag := by
  obtain ⟨listener, hlistener, hholds, hwait⟩ := h
  refine ⟨_, mem_setPhase.mpr ⟨listener, hlistener, rfl⟩, ?_, ?_⟩
  · rwa [(setPhase_same listenerTag phase listener).2]
  · by_cases heq : listener.tag = listenerTag
    · rw [if_pos heq]
      exact (hphase listener hlistener heq hholds hwait).imp_right (heq ▸ id)
    · rw [if_neg heq]
      exact hwait.imp_right (hsub _)

theorem pendingRemovals_of_phase (h : s.phaseOf listenerTag = some phase)
    (hphase : ∀ n, phase ≠ .removing n) : s.pendingRemovals listenerTag = 0 := by
  unfold pendingRemovals
  rw [h]
  split
  · next n heq => exact absurd (Option.some.inj heq) (hphase n)
  · rfl

theorem pendingRemovals_setPhase_ne (s : Threads Key Value) {other : Nat} (phase : ListenerPhase)
    (h : other ≠ listenerTag) :
    (s.setPhase listenerTag phase).pendingRemovals other = s.pendingRemovals other := by
  unfold pendingRemovals
  rw [phaseOf_setPhase, if_neg h]

variable {before : ListenerPhase}

theorem phaseOf_setPhase_self (h : s.phaseOf listenerTag = some before) (phase : ListenerPhase) :
    (s.setPhase listenerTag phase).phaseOf listenerTag = some phase := by
  rw [phaseOf_setPhase, if_pos rfl, h]
  rfl

theorem Inv.keepPhase (h : s.Inv extra) (hbefore : s.phaseOf listenerTag = some before)
    (hkept : ∀ n, before ≠ .removing n) (hphase : ∀ n, phase ≠ .removing n) :
    (s.setPhase listenerTag phase).Inv extra := by
  refine h.setPhase phase s.workers s.posts ?_ ?_
  · intro other
    by_cases heq : other = listenerTag
    · subst heq
      rw [pendingRemovals_of_phase (phaseOf_setPhase_self hbefore phase) hphase]
      exact (pendingRemovals_of_phase hbefore hkept).symm.trans (h.removals other)
    · rw [pendingRemovals_setPhase_ne s phase heq]
      exact h.removals other
  · intro worker hworker
    apply (h.workers worker hworker).changeListeners
    intro tag front back _ _ hwaited
    apply waited_setPhase hwaited _ fun _ => id
    intro listener _ _ _ _
    left
    cases phase with
    | removing n => exact absurd rfl (hphase n)
    | warming | active | draining => rfl

theorem Inv.onDrained (h : s.Inv extra) (hbefore : s.phaseOf listenerTag = some .draining) :
    (s.onDrained listenerTag).Inv extra := by
  have hnone : s.removals listenerTag = 0 :=
    (h.removals listenerTag).symm.trans (pendingRemovals_of_phase hbefore nofun)
  refine h.setPhase (.removing s.workers.length)
    (s.post (.removeListener listenerTag)).workers s.posts ?_ ?_
  · intro other
    change _ = (s.post (.removeListener listenerTag)).removals other
    rw [removals_post]
    by_cases heq : other = listenerTag
    · subst heq
      rw [pendingRemovals, phaseOf_setPhase_self hbefore, hnone, isRemoval, if_pos (by simp)]
      exact (Nat.zero_add _).symm
    · rw [pendingRemovals_setPhase_ne s _ heq, isRemoval, if_neg (by simp; omega)]
      exact h.removals other
  · intro worker hworker
    obtain ⟨worker, hbefore, rfl⟩ := mem_map.mp hworker
    have hok := h.workers worker hbefore
    apply hok.post _ rfl
    · exact hok.placed
    · exact fun tag front back _ owner howner _ => howner
    · exact fun tag front back _ hprovider => hprovider
    · intro tag front back _ hwaited
      apply waited_setPhase hwaited _ fun task => mem_append_left _
      intro listener _ _ _ _
      exact .inr (mem_append_right _ (mem_singleton.mpr rfl))

theorem Inv.onListenerRemoved (h : s.Inv []) {posts : List Nat}
    (hposts : s.posts = listenerTag :: posts) :
    (({ s with posts := posts } : Threads Key Value).onListenerRemoved listenerTag).Inv [] := by
  have hcount (other : Nat) : s.removals other =
      ({ s with posts := posts } : Threads Key Value).removals other +
        if other = listenerTag then 1 else 0 := by
    simp only [Threads.removals, hposts, count_cons, beq_iff_eq, eq_comm (a := listenerTag)]
    omega
  have hself := hcount listenerTag
  rw [if_pos rfl, ← h.removals listenerTag] at hself
  cases hphase : s.phaseOf listenerTag with
  | none => simp [pendingRemovals, hphase] at hself
  | some phase =>
    cases phase with
    | warming | active | draining => simp [pendingRemovals, hphase] at hself
    | removing n =>
      simp only [pendingRemovals, hphase] at hself
      have hevent : ({ s with posts := posts } : Threads Key Value).onListenerRemoved listenerTag =
          if n - 1 = 0 then
            ({ s with posts := posts } : Threads Key Value).destroyListener listenerTag
          else ({ s with posts := posts } : Threads Key Value).setPhase listenerTag
            (.removing (n - 1)) := by
        simp only [Threads.onListenerRemoved,
          show ({ s with posts := posts } : Threads Key Value).phaseOf listenerTag =
            some (.removing n) from hphase]
      rw [hevent]
      by_cases hlast : n - 1 = 0
      · rw [if_pos hlast]
        apply h.destroyListener posts
        · intro other
          by_cases heq : other = listenerTag
          · subst heq
            rw [if_pos rfl]
            omega
          · rw [if_neg heq, hcount other, if_neg heq]
            rfl
        · intro worker hworker tag front back hqueued _ hwaited
          obtain ⟨listener, hlistener, hholds, hwait⟩ := hwaited
          refine ⟨listener, mem_withoutListener.mpr ⟨hlistener, ?_⟩, hholds, hwait⟩
          rintro rfl
          rw [phaseOf_mem h hlistener] at hphase
          rcases hwait with hkept | htask
          · simp [ListenerImpl.isRemoving, Option.some.inj hphase] at hkept
          · have hpos := removals_pos (s := { s with posts := posts }) hworker
              (hqueued.mem_of_back htask)
            omega
      · rw [if_neg hlast]
        refine h.setPhase (.removing (n - 1)) s.workers posts ?_ ?_
        · intro other
          by_cases heq : other = listenerTag
          · subst heq
            rw [pendingRemovals, phaseOf_setPhase_self hphase]
            change n - 1 = ({ s with posts := posts } : Threads Key Value).removals other
            omega
          · rw [pendingRemovals_setPhase_ne s _ heq, h.removals other, hcount other, if_neg heq]
            rfl
        · intro worker hworker
          apply (h.workers worker hworker).changeListeners
          intro tag front back _ _ hwaited
          apply waited_setPhase hwaited _ fun _ => id
          rintro listener hlistener rfl _ hwait
          rw [phaseOf_mem h hlistener] at hphase
          rcases hwait with hkept | htask
          · simp [ListenerImpl.isRemoving, Option.some.inj hphase] at hkept
          · exact .inr htask

/-!
## Listeners that are added

The constructor of a listener takes a provider for each of its keys, one that is there or a new one.
The listener that it takes the place of is destroyed after that, so a provider that both hold stays.
-/

variable {s'' : Threads Key Value}

/-- The updates that the workers have to run were queued before, with less behind them. -/
def QueuedBefore (s s' : Threads Key Value) : Prop :=
  ∀ worker' ∈ s'.workers, ∀ tag front back', worker'.Queued tag front back' →
    ∃ worker ∈ s.workers, ∃ back, worker.Queued tag front back ∧ back ⊆ back'

/-- At most, providers have been made. -/
structure Extends (s s' : Threads Key Value) : Prop where
  listeners : s'.listeners = s.listeners
  nextListener : s'.nextListener = s.nextListener
  owners : s.owners ⊆ s'.owners
  queued : s.QueuedBefore s'

theorem Extends.refl (s : Threads Key Value) : s.Extends s where
  listeners := rfl
  nextListener := rfl
  owners := List.Subset.refl _
  queued := fun worker hworker _ _ back hqueued =>
    ⟨worker, hworker, back, hqueued, List.Subset.refl _⟩

theorem Extends.trans (h : s.Extends s') (h' : s'.Extends s'') : s.Extends s'' where
  listeners := h'.listeners.trans h.listeners
  nextListener := h'.nextListener.trans h.nextListener
  owners := List.Subset.trans h.owners h'.owners
  queued := by
    intro worker hworker tag front back hqueued
    obtain ⟨worker', hworker', back', hqueued', hsub'⟩ := h'.queued worker hworker tag front back
      hqueued
    obtain ⟨before, hbefore, back₀, hqueued₀, hsub⟩ := h.queued worker' hworker' tag front back'
      hqueued'
    exact ⟨before, hbefore, back₀, hqueued₀, List.Subset.trans hsub hsub'⟩

theorem Extends.isProvider (h : s.Extends s') {tag : Nat} (htag : IsProvider s.owners tag) :
    IsProvider s'.owners tag := by
  obtain ⟨owner, howner, hprovider⟩ := htag
  exact ⟨owner, h.owners howner, hprovider⟩

theorem extends_createOwner (s : Threads Key Value) (key : Option Key) :
    s.Extends (s.createOwner key) where
  listeners := rfl
  nextListener := rfl
  owners := subset_append_left _ _
  queued := by
    intro worker' hworker tag front back hqueued
    obtain ⟨worker, hbefore, rfl⟩ := mem_map.mp hworker
    rcases queued_post hqueued with ⟨_, _, value, htask⟩ | ⟨back', rfl, hqueued'⟩
    · cases htask
    · exact ⟨worker, hbefore, back', hqueued', subset_append_left _ _⟩

section Keys

variable [DecidableEq Key]

theorem Inv.getRouteConfigProvider (h : s.Inv extra) (key : Key) :
    s.Extends (s.getRouteConfigProvider key).1 ∧
      (s.getRouteConfigProvider key).1.Inv (extra ++ [(s.getRouteConfigProvider key).2]) ∧
      ∃ owner ∈ (s.getRouteConfigProvider key).1.owners,
        owner.tag = (s.getRouteConfigProvider key).2 ∧ owner.key = some key := by
  unfold Threads.getRouteConfigProvider
  cases hfind : s.owners.find? (fun owner => owner.key = some key) with
  | some owner =>
    refine ⟨Extends.refl s, ?_, owner, mem_of_find?_eq_some hfind, rfl, ?_⟩
    · exact h.extend fun _ _ _ => mem_append_left _
    · simpa using find?_some hfind
  | none =>
    have hkey : ∀ owner ∈ s.owners, owner.key.isSome = true → owner.key ≠ some key := by
      intro owner howner _ heq
      exact find?_eq_none.mp hfind owner howner (decide_eq_true heq)
    refine ⟨extends_createOwner s (some key), ?_, _, mem_append_right _
      (mem_singleton.mpr rfl), rfl, rfl⟩
    apply (h.createOwner (some key) hkey).extend
    intro owner _ _ htag
    rcases mem_cons.mp htag with heq | htag
    · exact mem_append_right _ (mem_singleton.mpr heq)
    · exact mem_append_left _ htag

def addManager (made : Threads Key Value × List Nat) (key : Key) : Threads Key Value × List Nat :=
  ((made.1.getRouteConfigProvider key).1, made.2 ++ [(made.1.getRouteConfigProvider key).2])

theorem Inv.addManagers {providers : List Nat} (h : s.Inv providers)
    (hproviders : ∀ tag ∈ providers, IsProvider s.owners tag) (keys : List Key)
    {made : Threads Key Value × List Nat} (hmade : keys.foldl addManager (s, providers) = made) :
    s.Extends made.1 ∧ made.1.Inv made.2 ∧ (∀ tag ∈ made.2, IsProvider made.1.owners tag) ∧
      (∀ tag ∈ providers, tag ∈ made.2) ∧
      ∀ key ∈ keys, ∃ owner ∈ made.1.owners, owner.key = some key ∧ owner.tag ∈ made.2 := by
  induction keys generalizing s providers with
  | nil =>
    subst hmade
    exact ⟨Extends.refl s, h, hproviders, fun _ => id, nofun⟩
  | cons key keys ih =>
    obtain ⟨hextends, hinv, owner, howner, htag, hkey⟩ := h.getRouteConfigProvider key
    have hall : ∀ tag ∈ providers ++ [(s.getRouteConfigProvider key).2],
        IsProvider (s.getRouteConfigProvider key).1.owners tag := by
      intro tag hmem
      rcases mem_append.mp hmem with hmem | hmem
      · exact hextends.isProvider (hproviders tag hmem)
      · rw [mem_singleton.mp hmem]
        exact ⟨owner, howner, htag, by rw [hkey]; rfl⟩
    obtain ⟨hrest, hinv', hproviders', hkept, hkeys⟩ := ih hinv hall hmade
    refine ⟨hextends.trans hrest, hinv', hproviders', ?_, ?_⟩
    · exact fun tag hmem => hkept tag (mem_append_left _ hmem)
    · intro other hother
      rcases mem_cons.mp hother with rfl | hother
      · refine ⟨owner, hrest.owners howner, hkey, hkept _ (mem_append_right _ ?_)⟩
        rw [htag]
        exact mem_singleton.mpr rfl
      · exact hkeys other hother

end Keys

def addListener (s : Threads Key Value) (providers : List Nat) (phase : ListenerPhase) :
    Threads Key Value :=
  { s with
    listeners := s.listeners ++ [⟨s.nextListener, providers, phase⟩]
    nextListener := s.nextListener + 1 }

theorem phaseOf_addListener (s : Threads Key Value) (providers : List Nat) (phase : ListenerPhase)
    (other : Nat) : (s.addListener providers phase).phaseOf other =
      (s.phaseOf other).or (if s.nextListener = other then some phase else none) := by
  simp only [phaseOf, addListener, find?_append]
  cases s.listeners.find? fun listener => listener.tag = other with
  | some listener => rfl
  | none => by_cases heq : s.nextListener = other <;> simp [heq]

variable {phase : ListenerPhase} {listenerTag : Nat}

theorem pendingRemovals_addListener (s : Threads Key Value) (providers : List Nat)
    (hphase : ∀ n, phase ≠ .removing n) (other : Nat) :
    (s.addListener providers phase).pendingRemovals other = s.pendingRemovals other := by
  unfold pendingRemovals
  rw [phaseOf_addListener]
  cases s.phaseOf other with
  | some before => rfl
  | none =>
    by_cases heq : s.nextListener = other
    · rw [if_pos heq, Option.none_or]
      cases phase with
      | removing n => exact absurd rfl (hphase n)
      | warming | active | draining => rfl
    · rw [if_neg heq]
      rfl

theorem Inv.addListener {providers : List Nat} (h : s.Inv providers)
    (hproviders : ∀ tag ∈ providers, IsProvider s.owners tag)
    (hphase : ∀ n, phase ≠ .removing n) : (s.addListener providers phase).Inv [] := by
  have hmem {listener : ListenerImpl}
      (hlistener : listener ∈ (s.addListener providers phase).listeners) :
      listener ∈ s.listeners ∨ listener = ⟨s.nextListener, providers, phase⟩ :=
    (mem_append.mp hlistener).imp_right mem_singleton.mp
  constructor
  · exact h.safe
  · exact h.tags
  · exact h.fresh
  · exact h.keys
  · exact h.slots
  · exact h.main
  · change ((s.listeners ++ [_]).map ListenerImpl.tag).Nodup
    rw [map_append]
    refine List.nodup_append.mpr ⟨h.listenerTags, nodup_singleton _, ?_⟩
    rintro tag htag _ hlast rfl
    obtain rfl := mem_singleton.mp hlast
    obtain ⟨listener, hlistener, htag⟩ := mem_map.mp htag
    have hlt := h.freshListeners listener hlistener
    rw [htag] at hlt
    exact Nat.lt_irrefl _ hlt
  · intro listener hlistener
    change listener.tag < s.nextListener + 1
    rcases hmem hlistener with hlistener | rfl
    · have hlt := h.freshListeners listener hlistener
      omega
    · exact Nat.lt_succ_self _
  · intro listener hlistener
    rcases hmem hlistener with hlistener | rfl
    · exact h.provided listener hlistener
    · exact hproviders
  · intro owner howner hkey
    left
    rw [isHeld_iff]
    rcases h.held owner howner hkey with hheld | hextra
    · obtain ⟨listener, hlistener, hholds⟩ := isHeld_iff.mp hheld
      exact ⟨listener, mem_append_left _ hlistener, hholds⟩
    · exact ⟨_, mem_append_right _ (mem_singleton.mpr rfl), hextra⟩
  · intro other
    exact (pendingRemovals_addListener s providers hphase other).trans (h.removals other)
  · intro worker hworker
    apply (h.workers worker hworker).changeListeners
    rintro tag front back _ _ ⟨listener, hlistener, hwait⟩
    exact ⟨listener, mem_append_left _ hlistener, hwait⟩

/-- What the constructor of a listener leaves. No update waits for the new listener alone. -/
structure Created (s s' : Threads Key Value) (keys : List Key) (listener : ListenerImpl) :
    Prop where
  inv : s'.Inv []
  listeners : s'.listeners = s.listeners ++ [listener]
  tag : listener.tag = s.nextListener
  kept : listener.isRemoving = false
  providers : ∀ owner ∈ s.owners, ∀ key ∈ keys, owner.key = some key →
    owner.tag ∈ listener.providers
  queued : s.QueuedBefore s'
  waited : ∀ worker ∈ s'.workers, ∀ tag front back, worker.Queued tag front back →
    IsProvider s'.owners tag → Waited s.listeners back tag

theorem Inv.createListener [DecidableEq Key] (h : s.Inv []) (keys : List Key)
    (hphase : ∀ n, phase ≠ .removing n) :
    ∃ listener, listener.phase = phase ∧ s.Created (s.createListener keys phase) keys listener := by
  obtain ⟨made, hmade⟩ : ∃ made, keys.foldl addManager (s, []) = made := ⟨_, rfl⟩
  obtain ⟨hextends, hinv, hproviders, -, hkeys⟩ := h.addManagers nofun keys hmade
  have hcreate : s.createListener keys phase = made.1.addListener made.2 phase := by
    rw [← hmade]
    rfl
  refine ⟨⟨made.1.nextListener, made.2, phase⟩, rfl, ?_⟩
  rw [hcreate]
  constructor
  · exact hinv.addListener hproviders hphase
  · change made.1.listeners ++ [_] = _
    rw [hextends.listeners]
  · exact hextends.nextListener
  · cases phase with
    | removing n => exact absurd rfl (hphase n)
    | warming | active | draining => rfl
  · intro owner howner key hkey hsame
    obtain ⟨other, hother, hotherKey, htag⟩ := hkeys key hkey
    have hsome : owner.key.isSome = true := by rw [hsame]; rfl
    rw [hinv.keys owner (hextends.owners howner) other hother hsome
      (hsame.trans hotherKey.symm)]
    exact htag
  · exact hextends.queued
  · intro worker hworker tag front back hqueued hprovider
    rw [← hextends.listeners]
    exact (hinv.workers worker hworker).waited tag front back hqueued hprovider

theorem removals_eq_zero (h : s.Inv extra)
    (hlistener : s.phaseOf listenerTag = some phase) (hphase : ∀ n, phase ≠ .removing n) :
    s.removals listenerTag = 0 :=
  (h.removals listenerTag).symm.trans (pendingRemovals_of_phase hlistener hphase)

theorem Inv.destroyUndrained (h : s.Inv [])
    (hlistener : s.phaseOf listenerTag = some phase) (hphase : ∀ n, phase ≠ .removing n)
    (hwaited : ∀ worker ∈ s.workers, ∀ tag front back, worker.Queued tag front back →
      IsProvider s.owners tag → Waited s.listeners back tag →
      Waited (s.withoutListener listenerTag).listeners back tag) :
    (s.destroyListener listenerTag).Inv [] := by
  apply h.destroyListener s.posts _ hwaited
  intro other
  by_cases heq : other = listenerTag
  · rw [if_pos heq, heq]
    exact removals_eq_zero h hlistener hphase
  · rw [if_neg heq]

variable {keys : List Key}

theorem MayGo.waited (h : s.MayGo keys listenerTag)
    {worker : WorkerThread Value} (hworker : worker ∈ s.workers) {tag : Nat}
    {front back back' : List (Task Value)} (hqueued : worker.Queued tag front back)
    (hsub : back ⊆ back') (hwaited : Waited s.listeners back' tag) :
    Waited (s.withoutListener listenerTag).listeners back' tag ∨
      ∃ owner ∈ s.owners, owner.tag = tag ∧ ∃ key ∈ keys, owner.key = some key := by
  obtain ⟨listener, hlistener, hholds, hwait⟩ := hwaited
  by_cases heq : listener.tag = listenerTag
  · obtain ⟨value, hqueue⟩ := hqueued
    apply (h listener hlistener heq tag hholds worker hworker front value back hqueue).imp_left
    rintro ⟨other, hother, hne, hholds', hwait'⟩
    exact ⟨other, mem_withoutListener.mpr ⟨hother, hne⟩, hholds', hwait'.imp_right (hsub ·)⟩
  · exact .inl ⟨listener, mem_withoutListener.mpr ⟨hlistener, heq⟩, hholds, hwait⟩

theorem mem_replaced {existing : Option Nat} (h : s.replaced existing = some listenerTag) :
    ∃ phase, s.phaseOf listenerTag = some phase ∧ ∀ n, phase ≠ .removing n := by
  obtain ⟨-, hphase⟩ := Option.filter_eq_some_iff.mp h
  rcases Bool.or_eq_true_iff.mp hphase with hwarming | hactive
  · exact ⟨.warming, of_decide_eq_true hwarming, nofun⟩
  · exact ⟨.active, of_decide_eq_true (Bool.and_eq_true_iff.mp hactive).1, nofun⟩

theorem Created.destroyNew {listener : ListenerImpl} (h : s.Created s' keys listener)
    (hfresh : ∀ other ∈ s.listeners, other.tag < s.nextListener)
    (hphase : ∀ n, listener.phase ≠ .removing n) : (s'.destroyListener s.nextListener).Inv [] := by
  have hnew : listener ∈ s'.listeners := by
    rw [h.listeners]
    exact mem_append_right _ (mem_singleton.mpr rfl)
  have hlistener := phaseOf_mem h.inv hnew
  rw [h.tag] at hlistener
  apply h.inv.destroyUndrained hlistener hphase
  intro worker hworker tag front back hqueued hprovider _
  obtain ⟨other, hother, hwait⟩ := h.waited worker hworker tag front back hqueued hprovider
  refine ⟨other, mem_withoutListener.mpr ⟨?_, Nat.ne_of_lt (hfresh other hother)⟩, hwait⟩
  rw [h.listeners]
  exact mem_append_left _ hother

theorem Created.destroyReplaced {listener : ListenerImpl} (h : s.Created s' keys listener)
    (hs : s.Inv [])
    (hreplaced : s.phaseOf listenerTag = some phase) (hphase : ∀ n, phase ≠ .removing n)
    (hgo : s.MayGo keys listenerTag) : (s'.destroyListener listenerTag).Inv [] := by
  obtain ⟨before, hbefore, rfl, rfl⟩ := exists_of_phaseOf hreplaced
  have hmem {other : ListenerImpl} (hother : other ∈ s.listeners) : other ∈ s'.listeners := by
    rw [h.listeners]
    exact mem_append_left _ hother
  apply h.inv.destroyUndrained (phaseOf_mem h.inv (hmem hbefore)) hphase
  intro worker hworker tag front back hqueued hprovider _
  obtain ⟨_, hworker', back', hqueued', hsub⟩ := h.queued worker hworker tag front back hqueued
  rcases hgo.waited hworker' hqueued' hsub
    (h.waited worker hworker tag front back hqueued hprovider) with
    ⟨other, hother, hwait⟩ | ⟨owner, howner, rfl, key, hkey, hsame⟩
  · obtain ⟨hother, hne⟩ := mem_withoutListener.mp hother
    exact ⟨other, mem_withoutListener.mpr ⟨hmem hother, hne⟩, hwait⟩
  · refine ⟨listener, mem_withoutListener.mpr ⟨?_, ?_⟩, h.providers owner howner key hkey hsame,
      .inl h.kept⟩
    · rw [h.listeners]
      exact mem_append_right _ (mem_singleton.mpr rfl)
    · rw [h.tag]
      exact (Nat.ne_of_lt (hs.freshListeners before hbefore)).symm

theorem Inv.addOrUpdateListener [DecidableEq Key] (h : s.Inv []) (keys : List Key)
    (existing : Option Nat) (refused : Bool) (hgo : refused = false →
      ∀ listenerTag ∈ s.replaced existing, s.MayGo keys listenerTag) :
    (s.addOrUpdateListener keys existing refused).Inv [] := by
  have hphase (n : Nat) :
      (if s.workersStarted then ListenerPhase.warming else .active) ≠ .removing n := by
    split <;> nofun
  obtain ⟨listener, hnew, hcreated⟩ := h.createListener keys hphase
  unfold Threads.addOrUpdateListener
  cases refused with
  | true => exact hcreated.destroyNew h.freshListeners (hnew ▸ hphase)
  | false =>
    cases hreplaced : s.replaced existing with
    | none => simpa [hreplaced] using hcreated.inv
    | some listenerTag =>
      obtain ⟨phase, hlistener, hundrained⟩ := mem_replaced hreplaced
      have hdestroyed := hcreated.destroyReplaced h hlistener hundrained
        (hgo rfl listenerTag hreplaced)
      simpa [hreplaced] using hdestroyed

theorem Inv.destroyWarming (h : s.Inv [])
    (hlistener : s.phaseOf listenerTag = some .warming) (hgo : s.MayGo [] listenerTag) :
    (s.destroyListener listenerTag).Inv [] := by
  apply h.destroyUndrained hlistener nofun
  intro worker hworker tag front back hqueued _ hwaited
  rcases hgo.waited hworker hqueued (List.Subset.refl _) hwaited with hother | ⟨_, _, _, _, hkey, _⟩
  · exact hother
  · cases hkey

end Threads

end Meliproxy.Envoy.ThreadLocal
