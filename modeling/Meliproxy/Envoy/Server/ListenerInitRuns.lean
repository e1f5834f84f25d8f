import Meliproxy.Envoy.Server.ListenerInitHolding

/-!
# Runs of listeners with RDS

A listener whose destructor has begun is `dying` until its init manager is gone too. By then each of
its providers is destroyed or held by another listener, so that none waits for that manager.
-/

namespace Meliproxy.Envoy.Server

open Lib List Function

namespace ListenerInit

variable {Name Address : Type} {s s' : ListenerInit Name Address} {tag : Nat}
  {p : RdsRouteConfigProviderImpl} {id : ManagerId} {m : InitManagerImpl}
  {listener : ListenerObject} {dying : Option ListenerObject}

/-- What the end of providers leaves. -/
structure Undone (s s' : ListenerInit Name Address) : Prop where
  objects : s'.objects = s.objects
  kept : ListenerManager.Kept s.manager s'.manager
  workers : s.manager.workersStarted = true → s'.manager.workersStarted = true
  starting : s'.isStarting = true → s.isStarting = true ∧ s'.manager = s.manager
  providers : ∀ tag p, s'.providers tag = some p → s.providers tag = some p
  early : ∀ id m, s.initManagers id = some m → m.state = .notInitialized →
    ∃ m', s'.initManagers id = some m' ∧ m'.state = .notInitialized

theorem Undone.refl (s : ListenerInit Name Address) : Undone s s :=
  ⟨rfl, .refl _, id, fun h => ⟨h, rfl⟩, fun _ _ h => h, fun _ m hm hearly => ⟨m, hm, hearly⟩⟩

theorem Undone.trans {s'' : ListenerInit Name Address} (h : Undone s s') (h' : Undone s' s'') :
    Undone s s'' := by
  refine ⟨h'.objects.trans h.objects, h.kept.trans h'.kept, fun hw => h'.workers (h.workers hw),
    fun hstarting => ⟨(h.starting (h'.starting hstarting).1).1,
      (h'.starting hstarting).2.trans (h.starting (h'.starting hstarting).1).2⟩,
    fun tag p hp => h.providers tag p (h'.providers tag p hp), fun id m hm hearly => ?_⟩
  obtain ⟨m₁, hm₁, hearly₁⟩ := h.early id m hm hearly
  exact h'.early id m₁ hm₁ hearly₁

theorem eq_of_update_none {α β : Type} [DecidableEq α] {f : α → Option β} {a key : α} {value : β}
    (h : Function.update f a none key = some value) : key ≠ a ∧ f key = some value := by
  rw [update_apply] at h
  split at h
  · cases h
  · rename_i hne
    exact ⟨hne, h⟩

theorem update_none_ne {α β : Type} [DecidableEq α] {f : α → Option β} {a key : α} (hne : key ≠ a) :
    Function.update f a none key = f key := update_of_ne hne none f

theorem Core.drop (h : Core s [] dying) (hp : s.providers tag = some p)
    (hfree : ∀ object ∈ s.objects, tag ∉ object.providers)
    (hdone : p.answered = true ∨ ∃ listener ∈ dying, ∃ m,
      Waits s [] tag p (.dynamic listener.listenerTag) m) : Core { s with
      providers := Function.update s.providers tag none
      routeConfigProviders := s.routeConfigProviders.filter fun entry =>
        entry.1 ≠ p.managerIdentifier } [] dying := by
  refine ⟨⟨fun other p₁ hp₁ => ?_, fun other p₁ hp₁ hwaiting => ?_,
    fun id m hm halive other hmem => ?_, h.linked.single, h.linked.sound, h.linked.owner⟩,
    { h.served with },
    ⟨fun object hobject other hmem => ?_, h.held.managers, h.held.workers, h.held.distinct,
      fun entry hentry => ?_, fun other p₁ hp₁ => ?_⟩⟩
  · exact h.linked.settled other p₁ (eq_of_update_none hp₁).2
  · obtain ⟨id, m, hwaits⟩ := h.linked.waits other p₁ (eq_of_update_none hp₁).2 hwaiting
    exact ⟨id, m, hwaits.manager, hwaits.target, hwaits.phase, hwaits.holders⟩
  · obtain ⟨p₁, hp₁, hwaiting, hwaits⟩ := h.linked.targets id m hm halive other hmem
    have hne : other ≠ tag := fun heq => by
      subst heq
      cases hp₁.symm.trans hp
      rcases hdone with hanswered | ⟨listener, hdying, m', hwaits'⟩
      · cases hwaiting.symm.trans hanswered
      · exact halive listener hdying
          (h.linked.single id m _ m' other hm hwaits'.manager hmem hwaits'.target)
    exact ⟨p₁, (update_of_ne hne ..).trans hp₁, hwaiting, hwaits.manager, hwaits.target,
      hwaits.phase, hwaits.holders⟩
  · obtain ⟨p₁, hp₁⟩ := h.held.alive object hobject other hmem
    have hne : other ≠ tag := fun heq => hfree object hobject (heq ▸ hmem)
    exact ⟨p₁, (update_of_ne hne ..).trans hp₁⟩
  · obtain ⟨hentry, hother⟩ := mem_filter.mp hentry
    obtain ⟨p₁, hp₁, hrds⟩ := h.held.known entry hentry
    have hne : entry.2 ≠ tag := fun heq => by
      rw [heq] at hp₁
      cases hp₁.symm.trans hp
      simp [hrds] at hother
    exact ⟨p₁, (update_of_ne hne ..).trans hp₁, hrds⟩
  · exact h.held.fresh other p₁ (eq_of_update_none hp₁).2

section Names

variable [DecidableEq Name]

theorem Core.destroyProvider (h : Core s [] dying)
    (hfree : ∀ object ∈ s.objects, tag ∉ object.providers) (hstarting : s.isStarting = false) :
    Core (s.destroyProvider tag) [] dying ∧ Undone s (s.destroyProvider tag) ∧
      (s.destroyProvider tag).providers tag = none := by
  rw [ListenerInit.destroyProvider]
  cases hp : s.providers tag with
  | none => exact ⟨h, .refl s, hp⟩
  | some p =>
    dsimp only
    have hsilent (hnone : p.initializeCallback = none) :
        s.runInitializeCallbackIfAny tag = s := by
      rw [runInitializeCallbackIfAny, hp]
      dsimp only
      rw [hnone]
    have hundone : Undone s { s with
        providers := Function.update s.providers tag none
        routeConfigProviders := s.routeConfigProviders.filter fun entry =>
          entry.1 ≠ p.managerIdentifier } :=
      ⟨rfl, .refl _, fun h => h, fun h => ⟨h, rfl⟩, fun _ _ hp₁ => (eq_of_update_none hp₁).2,
        fun _ m hm hearly => ⟨m, hm, hearly⟩⟩
    cases hanswered : p.answered with
    | true =>
      rw [hsilent (h.linked.settled tag p hp hanswered).2]
      exact ⟨h.drop hp hfree (.inl hanswered), hundone, update_self ..⟩
    | false =>
      obtain ⟨id, m, hwaits⟩ := h.linked.waits tag p hp hanswered
      cases hwaits.phase with
      | registered hstarts hnone hstate =>
        rw [hsilent hnone]
        refine ⟨h.drop hp hfree (.inr ?_), hundone, update_self ..⟩
        cases id with
        | server =>
          have hearly : m.state = .notInitialized := hstate.resolve_right not_mem_nil
          have : s.isStarting = true := isStarting_iff.mpr ⟨m, hwaits.manager, hearly⟩
          cases hstarting.symm.trans this
        | dynamic listenerTag =>
          obtain ⟨object, hobject | hdying, htag, -, hheld⟩ :=
            h.linked.owner listenerTag m hwaits.manager
          · exact absurd (hheld tag hwaits.target).1 (hfree object hobject)
          · exact ⟨object, hdying, m, htag ▸ hwaits⟩
      | started hstarts hcallback hstate =>
        have hsound := h.linked.sound id m hwaits.manager
        obtain ⟨manager, heq, hkept, hworkers⟩ := runInitializeCallbackIfAny_spec h.served hsound hp
          hcallback hwaits.manager hwaits.target
        -- the provider counts as settled until it is gone
        obtain ⟨hcore, hframe⟩ := @Core.settle _ _ s _ [] dying tag p id m
          { p with answered := true, initializeCallback := none } h manager hp hwaits hstate rfl
          ⟨rfl, hstarts, rfl⟩ rfl hkept (.inr hstarting) hworkers
        have hdropped := hcore.drop (update_self ..) hfree (.inl rfl)
        rw [heq]
        dsimp only at hdropped ⊢
        rw [update_idem] at hdropped ⊢
        refine ⟨hdropped, ⟨rfl, hframe.kept, hframe.workers, hframe.starting, fun _ _ hp₁ =>
          (eq_of_update_none hp₁).2, fun id m hm hearly => ?_⟩, update_self ..⟩
        obtain ⟨m', hm', -, hsame⟩ := hframe.managers id m hm
        exact ⟨m', hm', hsame.mpr hearly⟩

theorem Core.releaseProvider (h : Core s [] dying) (tag : Nat)
    (hheld : s.isStarting = true → ∃ object ∈ s.objects, tag ∈ object.providers) :
    Core (s.releaseProvider tag) [] dying ∧ Undone s (s.releaseProvider tag) ∧
      ((s.releaseProvider tag).providers tag = none ∨
        ∃ object ∈ s.objects, tag ∈ object.providers) := by
  rw [ListenerInit.releaseProvider]
  split
  · rename_i hany
    obtain ⟨object, hobject, hmem⟩ := any_eq_true.mp hany
    exact ⟨h, .refl s, .inr ⟨object, hobject, by simpa using hmem⟩⟩
  · rename_i hnone
    have hfree (object : ListenerObject) (hobject : object ∈ s.objects) :
        tag ∉ object.providers := fun hmem =>
      hnone (any_eq_true.mpr ⟨object, hobject, by simpa using hmem⟩)
    have hstarting : s.isStarting = false := Bool.eq_false_iff.mpr fun hstarting => by
      obtain ⟨object, hobject, hmem⟩ := hheld hstarting
      exact hfree object hobject hmem
    obtain ⟨hcore, hundone, hgone⟩ := h.destroyProvider hfree hstarting
    exact ⟨hcore, hundone, .inl hgone⟩

theorem Core.releaseProviders (h : Core s [] dying) (tags : List Nat)
    (hheld : s.isStarting = true → ∀ tag ∈ tags, ∃ object ∈ s.objects, tag ∈ object.providers) :
    Core (tags.foldl ListenerInit.releaseProvider s) [] dying ∧
      Undone s (tags.foldl ListenerInit.releaseProvider s) ∧
      ∀ tag ∈ tags, (tags.foldl ListenerInit.releaseProvider s).providers tag = none ∨
        ∃ object ∈ s.objects, tag ∈ object.providers := by
  induction tags generalizing s with
  | nil => exact ⟨h, .refl s, nofun⟩
  | cons tag rest ih =>
    obtain ⟨hcore, hundone, hdone⟩ := h.releaseProvider tag fun hstarting =>
      hheld hstarting tag mem_cons_self
    obtain ⟨hcore', hundone', hdone'⟩ := ih hcore fun hstarting other hmem => by
      rw [hundone.objects]
      exact hheld (hundone.starting hstarting).1 other (mem_cons_of_mem _ hmem)
    refine ⟨hcore', hundone.trans hundone', fun other hmem => ?_⟩
    rcases mem_cons.mp hmem with rfl | hmem
    · refine hdone.imp_left fun hnone => ?_
      cases hlater : (rest.foldl ListenerInit.releaseProvider
          (s.releaseProvider other)).providers other with
      | none => rw [foldl_cons, hlater]
      | some p => cases hnone.symm.trans (hundone'.providers other p hlater)
    · exact hundone.objects ▸ hdone' other hmem

end Names

theorem mem_filter_ne {objects : List ListenerObject} {object : ListenerObject} :
    object ∈ objects.filter (fun other => other.listenerTag ≠ listener.listenerTag) ↔
      object ∈ objects ∧ object.listenerTag ≠ listener.listenerTag := by
  simp

theorem Core.beginDestroy (h : Core s [] none) (hlistener : listener ∈ s.objects) : Core { s with
      objects := s.objects.filter fun other => other.listenerTag ≠ listener.listenerTag }
      [] (some listener) := by
  have hwaits {tag : Nat} {p : RdsRouteConfigProviderImpl} {id : ManagerId} {m : InitManagerImpl}
      (hwaits : Waits s [] tag p id m) : Waits { s with
        objects := s.objects.filter fun other => other.listenerTag ≠ listener.listenerTag }
        [] tag p id m :=
    hwaits.transfer hwaits.manager hwaits.target rfl Iff.rfl
      fun object hobject htag => ⟨object, (mem_filter_ne.mp hobject).1, htag, rfl⟩
  refine ⟨⟨h.linked.settled, fun tag p hp hwaiting => ?_, fun id m hm _ tag hmem => ?_,
    h.linked.single, h.linked.sound, fun listenerTag m hm => ?_⟩,
    { h.served with },
    ⟨fun object hobject => h.held.alive object (mem_filter_ne.mp hobject).1,
      fun object hobject => h.held.managers object (mem_filter_ne.mp hobject).1,
      fun object hobject => h.held.workers object (mem_filter_ne.mp hobject).1,
      h.held.distinct.sublist (filter_sublist.map _), h.held.known, h.held.fresh⟩⟩
  · obtain ⟨id, m, hbefore⟩ := h.linked.waits tag p hp hwaiting
    exact ⟨id, m, hwaits hbefore⟩
  · obtain ⟨p, hp, hwaiting, hbefore⟩ := h.linked.targets id m hm nofun tag hmem
    exact ⟨p, hp, hwaiting, hwaits hbefore⟩
  · obtain ⟨object, hobject | hdying, htag, hrest⟩ := h.linked.owner listenerTag m hm
    · refine ⟨object, ?_, htag, hrest⟩
      by_cases hsame : object.listenerTag = listener.listenerTag
      · exact .inr (congrArg some
          (inj_on_of_nodup_map h.held.distinct hobject hlistener hsame).symm)
      · exact .inl (mem_filter_ne.mpr ⟨hobject, hsame⟩)
    · cases hdying

theorem Core.endDestroy (h : Core s [] (some listener))
    (hgone : ∀ object ∈ s.objects, object.listenerTag ≠ listener.listenerTag)
    (hreleased : ∀ tag ∈ listener.providers, s.providers tag = none ∨
      ∃ object ∈ s.objects, tag ∈ object.providers) : Core { s with
      initManagers := Function.update s.initManagers (.dynamic listener.listenerTag) none }
      [] none := by
  have hother (id : ManagerId) (hne : id ≠ .dynamic listener.listenerTag) :
      Function.update s.initManagers (.dynamic listener.listenerTag) none id = s.initManagers id :=
    update_of_ne hne ..
  have hserver : Function.update s.initManagers (.dynamic listener.listenerTag) none .server =
      s.initManagers .server := hother .server nofun
  have hwaits {tag : Nat} {p : RdsRouteConfigProviderImpl} {id : ManagerId} {m : InitManagerImpl}
      (hne : id ≠ .dynamic listener.listenerTag) (hwaits : Waits s [] tag p id m) : Waits { s with
        initManagers := Function.update s.initManagers (.dynamic listener.listenerTag) none }
        [] tag p id m := { hwaits with manager := (hother id hne).trans hwaits.manager }
  -- a provider that waited for it would be held by a listener with the same manager
  have hnone {tag : Nat} {p : RdsRouteConfigProviderImpl} {m : InitManagerImpl}
      (hp : s.providers tag = some p)
      (hwaits : Waits s [] tag p (.dynamic listener.listenerTag) m) : False := by
    obtain ⟨object, hobject | hdying, htag, -, hheld⟩ := h.linked.owner _ m hwaits.manager
    · exact hgone object hobject htag
    · cases hdying
      rcases hreleased tag (hheld tag hwaits.target).1 with hdead | ⟨object, hobject, hmem⟩
      · cases hp.symm.trans hdead
      · have hmanager := hwaits.holders object hobject hmem
        rw [ListenerObject.initManager] at hmanager
        split at hmanager
        · exact hgone object hobject (ManagerId.dynamic.inj hmanager)
        · cases hmanager
  refine ⟨⟨h.linked.settled, fun tag p hp hwaiting => ?_, fun id m hm _ tag hmem => ?_,
    fun id₁ m₁ id₂ m₂ tag hm₁ hm₂ => ?_, fun id m hm => ?_, fun listenerTag m hm => ?_⟩,
    ⟨?_, h.served.warming, fun hcallback => ?_, fun m hm => ?_, h.served.safe⟩,
    { h.held with managers := fun object hobject => ?_ }⟩
  · obtain ⟨id, m, hbefore⟩ := h.linked.waits tag p hp hwaiting
    by_cases hid : id = .dynamic listener.listenerTag
    · subst hid
      exact absurd (hnone hp hbefore) id
    · exact ⟨id, m, hwaits hid hbefore⟩
  · obtain ⟨hne, hm⟩ := eq_of_update_none hm
    obtain ⟨p, hp, hwaiting, hbefore⟩ := h.linked.targets id m hm
      (fun other hdying => by obtain rfl := Option.some.inj hdying; exact hne) tag hmem
    exact ⟨p, hp, hwaiting, hwaits hne hbefore⟩
  · exact h.linked.single id₁ m₁ id₂ m₂ tag (eq_of_update_none hm₁).2 (eq_of_update_none hm₂).2
  · exact h.linked.sound id m (eq_of_update_none hm).2
  · obtain ⟨hne, hm⟩ := eq_of_update_none hm
    obtain ⟨object, hobject | hdying, htag, hrest⟩ := h.linked.owner listenerTag m hm
    · exact ⟨object, .inl hobject, htag, hrest⟩
    · cases hdying
      exact absurd (congrArg _ htag.symm) hne
  · obtain ⟨m, hm, hiff⟩ := h.served.server
    exact ⟨m, hserver.trans hm, hiff⟩
  · obtain ⟨m, hm, hmem⟩ := h.served.lds hcallback
    exact ⟨m, hserver.trans hm, hmem⟩
  · exact h.served.early m (hserver.symm.trans hm)
  · obtain ⟨m, hm⟩ := h.held.managers object hobject
    exact ⟨m, (hother _ fun heq => hgone object hobject (ManagerId.dynamic.inj heq)).trans hm⟩

section Names

variable [DecidableEq Name]

theorem Core.destroyListener (h : Core s [] none) (hlistener : listener ∈ s.objects)
    (hheld : s.isStarting = true → ∀ tag ∈ listener.providers,
      ∃ other ∈ s.objects, other.listenerTag ≠ listener.listenerTag ∧ tag ∈ other.providers) :
    Core (s.destroyListener listener) [] none ∧ (s.destroyListener listener).objects =
        s.objects.filter (fun other => other.listenerTag ≠ listener.listenerTag) ∧
      ListenerManager.Kept s.manager (s.destroyListener listener).manager ∧
      (s.manager.workersStarted = true →
        (s.destroyListener listener).manager.workersStarted = true) ∧
      ((s.destroyListener listener).isStarting = true → s.isStarting = true ∧
        (s.destroyListener listener).manager = s.manager) ∧
      ∀ id m, id ≠ .dynamic listener.listenerTag → s.initManagers id = some m →
        m.state = .notInitialized → ∃ m', (s.destroyListener listener).initManagers id = some m' ∧
          m'.state = .notInitialized := by
  obtain ⟨hcore, hundone, hreleased⟩ := (h.beginDestroy hlistener).releaseProviders
    listener.providers fun hstarting tag hmem => by
      obtain ⟨other, hother, hne, hholds⟩ := hheld hstarting tag hmem
      exact ⟨other, mem_filter_ne.mpr ⟨hother, hne⟩, hholds⟩
  refine ⟨hcore.endDestroy (fun object hobject => ?_) fun tag hmem => ?_, hundone.objects,
    hundone.kept, hundone.workers, fun hstarting => hundone.starting ?_,
    fun id m hne hm hearly => ?_⟩
  · rw [hundone.objects] at hobject
    exact (mem_filter_ne.mp hobject).2
  · rw [hundone.objects]
    exact hreleased tag hmem
  · have hne : ManagerId.server ≠ .dynamic listener.listenerTag := nofun
    obtain ⟨m, hm, hearly⟩ := isStarting_iff.mp hstarting
    exact isStarting_iff.mpr ⟨m, (update_none_ne hne).symm.trans hm, hearly⟩
  · obtain ⟨m', hm', hearly'⟩ := hundone.early id m hm hearly
    exact ⟨m', (update_none_ne hne).trans hm', hearly'⟩

theorem Core.destroyListeners (h : Core s [] none) {gone : List ListenerObject}
    (hgone : ∀ listener ∈ gone, listener ∈ s.objects)
    (hnodup : (gone.map ListenerObject.listenerTag).Nodup)
    (hheld : s.isStarting = true → ∀ listener ∈ gone, ∀ tag ∈ listener.providers,
      ∃ other ∈ s.objects, other.listenerTag ∉ gone.map ListenerObject.listenerTag ∧
        tag ∈ other.providers) : Core (gone.foldl ListenerInit.destroyListener s) [] none ∧
      (∀ object, object ∈ (gone.foldl ListenerInit.destroyListener s).objects ↔
        object ∈ s.objects ∧ object.listenerTag ∉ gone.map ListenerObject.listenerTag) ∧
      ListenerManager.Kept s.manager (gone.foldl ListenerInit.destroyListener s).manager ∧
      ((gone.foldl ListenerInit.destroyListener s).isStarting = true → s.isStarting = true ∧
        (gone.foldl ListenerInit.destroyListener s).manager = s.manager) ∧
      ∀ listenerTag m, listenerTag ∉ gone.map ListenerObject.listenerTag →
        s.initManagers (.dynamic listenerTag) = some m → m.state = .notInitialized →
        ∃ m', (gone.foldl ListenerInit.destroyListener s).initManagers (.dynamic listenerTag) =
          some m' ∧ m'.state = .notInitialized := by
  induction gone generalizing s with
  | nil => exact ⟨h, fun object => by simp, .refl _, fun hstarting => ⟨hstarting, rfl⟩,
      fun _ m _ hm hearly => ⟨m, hm, hearly⟩⟩
  | cons listener rest ih =>
    obtain ⟨hnot, hrest⟩ := nodup_cons.mp hnodup
    obtain ⟨hcore, hobjects, hkept, -, hstarting, hearlier⟩ :=
      h.destroyListener (hgone listener mem_cons_self) fun hstarting tag hmem => by
        obtain ⟨other, hother, hne, hholds⟩ := hheld hstarting listener mem_cons_self tag hmem
        exact ⟨other, hother, fun heq => hne (heq ▸ mem_cons_self), hholds⟩
    have hmem (object : ListenerObject) : object ∈ (s.destroyListener listener).objects ↔
        object ∈ s.objects ∧ object.listenerTag ≠ listener.listenerTag := by
      rw [hobjects]
      exact mem_filter_ne
    obtain ⟨hcore', hobjects', hkept', hstarting', hearlier'⟩ := ih hcore
      (fun other hother => (hmem other).mpr ⟨hgone other (mem_cons_of_mem _ hother), fun heq =>
        hnot (heq ▸ mem_map_of_mem hother)⟩) hrest
      fun hlater other hother tag htag => by
        obtain ⟨holder, hholder, hne, hholds⟩ :=
          hheld (hstarting hlater).1 other (mem_cons_of_mem _ hother) tag htag
        exact ⟨holder, (hmem holder).mpr ⟨hholder, fun heq => hne (heq ▸ mem_cons_self)⟩,
          fun hin => hne (mem_cons_of_mem _ hin), hholds⟩
    refine ⟨hcore', fun object => ?_, hkept.trans hkept', fun hlater => ?_,
      fun listenerTag m hkeep hm hearly => ?_⟩
    · rw [foldl_cons, hobjects', hmem, map_cons, mem_cons]
      tauto
    · obtain ⟨hmiddle, hsame'⟩ := hstarting' hlater
      obtain ⟨hbefore, hsame⟩ := hstarting hmiddle
      exact ⟨hbefore, hsame'.trans hsame⟩
    · obtain ⟨m', hm', hearly'⟩ := hearlier _ m
        (fun heq => hkeep (by rw [ManagerId.dynamic.inj heq]; exact mem_cons_self)) hm hearly
      exact hearlier' listenerTag m' (fun hin => hkeep (mem_cons_of_mem _ hin)) hm' hearly'

/-- What the constructors and the lists of the listener manager have in common between steps. -/
structure Inv (s : ListenerInit Name Address) : Prop where
  core : Core s [] none
  named : s.manager.Named
  below : ∀ object ∈ s.objects, object.listenerTag < s.manager.nextListenerTag
  covered : ∀ listener ∈ s.manager.listeners,
    ∃ object ∈ s.objects, object.listenerTag = listener.listenerTag
  listed : s.isStarting = true → ∀ object ∈ s.objects, s.isListed object.listenerTag = true

omit [DecidableEq Name] in
theorem isListed_iff {listenerTag : Nat} : s.isListed listenerTag = true ↔
    ∃ listener ∈ s.manager.listeners, listener.listenerTag = listenerTag := by
  simp [isListed]

theorem Core.destroyUnlisted (h : Core s [] none) (hnamed : s.manager.Named)
    (hbelow : ∀ object ∈ s.objects, s.isListed object.listenerTag = true →
      object.listenerTag < s.manager.nextListenerTag) (hcovered : ∀ listener ∈ s.manager.listeners,
      ∃ object ∈ s.objects, object.listenerTag = listener.listenerTag)
    (hheld : s.isStarting = true → ∀ object ∈ s.objects, s.isListed object.listenerTag = false →
      ∀ tag ∈ object.providers, ∃ other ∈ s.objects, s.isListed other.listenerTag = true ∧
        tag ∈ other.providers) : Inv s.destroyUnlisted ∧
      ∀ object ∈ s.destroyUnlisted.objects, object ∈ s.objects ∧
        ∀ m, s.initManagers (.dynamic object.listenerTag) = some m → m.state = .notInitialized →
          ∃ m', s.destroyUnlisted.initManagers (.dynamic object.listenerTag) = some m' ∧
            m'.state = .notInitialized := by
  have hgone (listenerTag : Nat) : listenerTag ∈ (s.objects.filter fun listener =>
      !s.isListed listener.listenerTag).map ListenerObject.listenerTag ↔
      s.isListed listenerTag = false ∧ ∃ object ∈ s.objects, object.listenerTag = listenerTag := by
    simp only [mem_map, mem_filter, Bool.not_eq_true']
    constructor
    · rintro ⟨object, ⟨hobject, hunlisted⟩, rfl⟩
      exact ⟨hunlisted, object, hobject, rfl⟩
    · rintro ⟨hunlisted, object, hobject, rfl⟩
      exact ⟨object, ⟨hobject, hunlisted⟩, rfl⟩
  obtain ⟨hcore, hobjects, hkept, hstarting, hearlier⟩ := @Core.destroyListeners _ _ s _ h
    (s.objects.filter fun listener => !s.isListed listener.listenerTag)
    (fun listener hmem => (mem_filter.mp hmem).1)
    (h.held.distinct.sublist (filter_sublist.map _)) fun hstarting listener hmem tag htag => by
      obtain ⟨hobject, hunlisted⟩ := mem_filter.mp hmem
      obtain ⟨other, hother, hlisted, hholds⟩ :=
        hheld hstarting listener hobject (by simpa using hunlisted) tag htag
      exact ⟨other, hother, fun hin =>
        absurd (hlisted.symm.trans ((hgone _).mp hin).1) nofun, hholds⟩
  have hkeeps (object : ListenerObject) (hobject : object ∈ s.objects)
      (hlisted : s.isListed object.listenerTag = true) : object ∈ s.destroyUnlisted.objects :=
    (hobjects object).mpr ⟨hobject, fun hin =>
      absurd (hlisted.symm.trans ((hgone _).mp hin).1) nofun⟩
  have hlisted (object : ListenerObject) (hobject : object ∈ s.destroyUnlisted.objects) :
      object ∈ s.objects ∧ s.isListed object.listenerTag = true := by
    obtain ⟨hobject, hin⟩ := (hobjects object).mp hobject
    refine ⟨hobject, ?_⟩
    cases hcase : s.isListed object.listenerTag with
    | true => rfl
    | false => exact absurd ((hgone _).mpr ⟨hcase, object, hobject, rfl⟩) hin
  refine ⟨⟨hcore, hkept.named hnamed, fun object hobject => ?_, fun listener hmem => ?_,
    fun hlater object hobject => ?_⟩, fun object hobject => ⟨(hlisted object hobject).1,
      fun m hm hearly => hearlier _ m ((hobjects object).mp hobject).2 hm hearly⟩⟩
  · obtain ⟨hbefore, hlist⟩ := hlisted object hobject
    rw [ListenerInit.destroyUnlisted, hkept.next]
    exact hbelow object hbefore hlist
  · obtain ⟨old, hold, htag⟩ := hkept.listeners listener hmem
    obtain ⟨object, hobject, hobjectTag⟩ := hcovered old hold
    refine ⟨object, hkeeps object hobject ?_, hobjectTag.trans htag⟩
    exact isListed_iff.mpr ⟨old, hold, hobjectTag.symm⟩
  · obtain ⟨listener, hlistener, htag⟩ := isListed_iff.mp (hlisted object hobject).2
    exact isListed_iff.mpr ⟨listener, (hstarting hlater).2 ▸ hlistener, htag⟩

end Names

theorem Core.setManager (h : Core s [] none) {manager : ListenerManager Name Address (List Rds)}
    (hworkers : manager.workersStarted = s.manager.workersStarted) (hnamed : manager.Named) :
    Core { s with manager := manager } [] none := by
  refine ⟨h.linked.same rfl rfl rfl, ⟨?_, hnamed.unstarted, h.served.lds, h.served.early,
    h.served.safe⟩, { h.held with workers := fun object hobject hstarted => ?_ }⟩
  · obtain ⟨m, hm, hiff⟩ := h.served.server
    exact ⟨m, hm, hworkers ▸ hiff⟩
  · exact hworkers ▸ h.held.workers object hobject hstarted

theorem Inv.of_core (h : Inv s) (hcore : Core s' [] none) (hobjects : s'.objects = s.objects)
    (hkept : ListenerManager.Kept s.manager s'.manager) (hstarting : s'.isStarting = true →
      s.isStarting = true ∧ s'.manager.listeners = s.manager.listeners) : Inv s' := by
  refine ⟨hcore, hkept.named h.named, fun object hobject => ?_, fun listener hmem => ?_,
    fun hlater object hobject => ?_⟩
  · rw [hkept.next]
    exact h.below object (hobjects ▸ hobject)
  · obtain ⟨old, hold, htag⟩ := hkept.listeners listener hmem
    obtain ⟨object, hobject, hobjectTag⟩ := h.covered old hold
    exact ⟨object, hobjects.symm ▸ hobject, hobjectTag.trans htag⟩
  · obtain ⟨hbefore, hsame⟩ := hstarting hlater
    obtain ⟨listener, hlistener, htag⟩ :=
      isListed_iff.mp (h.listed hbefore object (hobjects ▸ hobject))
    exact isListed_iff.mpr ⟨listener, hsame.symm ▸ hlistener, htag⟩

theorem Served.not_starting (h : Served s) (hstarted : s.manager.workersStarted = true) :
    s.isStarting = false := by
  refine Bool.eq_false_iff.mpr fun hstarting => ?_
  obtain ⟨m, hm, hearly⟩ := isStarting_iff.mp hstarting
  obtain ⟨m₀, hm₀, hiff⟩ := h.server
  cases hm₀.symm.trans hm
  cases hearly.symm.trans (hiff.mpr hstarted)

section Names

variable [DecidableEq Name]

theorem Inv.manage (h : Inv s) {manager : ListenerManager Name Address (List Rds)}
    (hkept : ListenerManager.Kept s.manager manager)
    (hworkers : manager.workersStarted = s.manager.workersStarted)
    (hholds : s.isStarting = true → ListenerManager.Holds s.manager manager) :
    Inv { s with manager := manager }.destroyUnlisted := by
  refine (Core.destroyUnlisted (h.core.setManager hworkers (hkept.named h.named))
    (hkept.named h.named) (fun object hobject _ => ?_) (fun listener hmem => ?_)
    fun hstarting object hobject hunlisted => ?_).1
  · exact hkept.next.symm ▸ h.below object hobject
  · obtain ⟨old, hold, htag⟩ := hkept.listeners listener hmem
    obtain ⟨object, hobject, hobjectTag⟩ := h.covered old hold
    exact ⟨object, hobject, hobjectTag.trans htag⟩
  · obtain ⟨listener, hlistener, htag⟩ := isListed_iff.mp (h.listed hstarting object hobject)
    obtain ⟨after, hafter, hafterTag⟩ := hholds hstarting listener hlistener
    have hlisted := (@isListed_iff _ _ { s with manager := manager } object.listenerTag).mpr
      ⟨after, hafter, hafterTag.trans htag⟩
    cases hlisted.symm.trans hunlisted

theorem Inv.onAnswer (h : Inv s) (tag : Nat) (answer : Answer) : Inv (s.onAnswer tag answer) := by
  obtain ⟨hcore, hframe⟩ := h.core.onAnswer tag answer
  exact h.of_core hcore hframe.objects hframe.kept fun hstarting =>
    (hframe.starting hstarting).imp_right (congrArg ListenerManager.listeners)

theorem Inv.onLdsAnswer (h : Inv s) : Inv s.onLdsAnswer := by
  rw [ListenerInit.onLdsAnswer]
  split
  · rename_i hcallback
    obtain ⟨m, hm, hmem⟩ := h.core.served.lds hcallback
    have hsound := h.core.linked.sound _ m hm
    obtain ⟨manager, heq, hkept, hstarted⟩ := onTargetInitialized_spec h.core.served hsound hm hmem
    have hheld := h.core.held.setInitManager .server (m.remove .lds)
    rw [heq]
    refine h.of_core ⟨h.core.linked.remove hm hmem rfl rfl (fun _ _ => rfl) nofun,
      h.core.served.remove hsound hm hmem rfl hkept hstarted nofun rfl,
      ⟨hheld.alive, hheld.managers, fun object hobject hw => hstarted.mpr
        (.inl (hheld.workers object hobject hw)), hheld.distinct, hheld.known, hheld.fresh⟩⟩ rfl
      hkept
      fun hstarting => ?_
    -- the `LdsApi` was started, so the server has begun
    obtain ⟨m', hm', hearly⟩ := isStarting_iff.mp hstarting
    obtain rfl : m.remove .lds = m' :=
      Option.some.inj ((setInitManager_self s .server (m.remove .lds)).symm.trans hm')
    rcases InitManagerImpl.remove_cases m .lds with ⟨-, hdone⟩ | ⟨-, hsame⟩
    · cases hdone.symm.trans hearly
    · exact absurd hmem (h.core.served.early m hm (hsame ▸ hearly))
  · exact h

theorem Inv.initializeServer (h : Inv s) {lds : Bool} {sync : Nat → List Answer}
    (hstep : s.initializeServer lds sync = some s') : Inv s' := by
  rw [ListenerInit.initializeServer] at hstep
  split at hstep
  swap
  · cases hstep
  rename_i hstarting
  obtain ⟨m, hm, hearly⟩ := isStarting_iff.mp hstarting
  cases hstep
  cases lds with
  | false =>
    obtain ⟨hcore, hstill, hbegun⟩ := h.core.initializeManager sync hm hearly
    exact h.of_core hcore hstill.objects hstill.kept fun hstarting =>
      absurd ((hbegun rfl).symm.trans hstarting) (by simp)
  | true =>
    have hfresh : Target.lds ∉ m.targets := h.core.served.early m hm hearly
    have hnodup : (m.targets ++ [Target.lds]).Nodup :=
      List.nodup_append.mpr ⟨(h.core.linked.sound _ m hm).nodup, nodup_singleton _,
        fun target htarget last hlast heq => hfresh (by
          rw [← mem_singleton.mp hlast, ← heq]
          exact htarget)⟩
    obtain ⟨hcore, hstill⟩ := Core.initializeTargets
      (h.core.begin hm hearly (by simp) hnodup (by simp) fun _ => rfl) sync hnodup
      (fun _ => ⟨_, setInitManager_self .., rfl, fun _ hmem => hmem⟩)
      fun _ => rfl
    -- the `LdsApi` is registered, and then the loop runs
    have heq : (s.registerTarget sync .server .lds).initializeManager sync .server =
        (m.targets ++ [Target.lds]).foldl (fun s target => s.initializeTarget sync .server target)
          (s.setInitManager .server ⟨.initializing, m.targets ++ [Target.lds]⟩) := by
      rw [registerTarget_eq sync .lds hm (by simp [hearly]), if_neg (by simp [hearly]),
        initializeManager, setInitManager_self]
      dsimp only
      rw [if_neg (by simp [hearly]), if_neg (by simp)]
      dsimp only [setInitManager]
      rw [update_idem]
    have hbegun : (s.setInitManager .server
        ⟨.initializing, m.targets ++ [Target.lds]⟩).isStarting = false := begun (by simp)
    rw [if_pos rfl, heq]
    exact h.of_core hcore hstill.objects hstill.kept fun hstarting =>
      absurd (hbegun.symm.trans (hstill.starting hstarting)) (by simp)

theorem Inv.initializeListener (h : Inv s) {listenerTag : Nat} (sync : Nat → List Answer)
    (hready : ∀ object ∈ s.objects, object.listenerTag = listenerTag →
      object.workersStarted = true →
      ∃ m, s.initManagers (.dynamic listenerTag) = some m ∧ m.state = .notInitialized) :
    Inv (s.initializeListener sync listenerTag) := by
  rw [ListenerInit.initializeListener]
  split
  · rename_i hany
    obtain ⟨object, hobject, hboth⟩ := any_eq_true.mp hany
    rw [Bool.and_eq_true, decide_eq_true_eq] at hboth
    obtain ⟨htag, hworkers⟩ := hboth
    obtain ⟨m, hm, hearly⟩ := hready object hobject htag hworkers
    obtain ⟨hcore, hstill, -⟩ := h.core.initializeManager sync hm hearly
    have hlater := h.core.served.not_starting (h.core.held.workers object hobject hworkers)
    exact h.of_core hcore hstill.objects hstill.kept fun hstarting =>
      absurd (hlater.symm.trans (hstill.starting hstarting)) nofun
  · exact h

variable [DecidableEq Address] {update : ListenerManager.Update Name Address (List Rds)}

/-- A state in which a new listener was made and may be in the lists. -/
structure Made (s after : ListenerInit Name Address)
    (update : ListenerManager.Update Name Address (List Rds)) : Prop where
  core : Core after [] none
  named : after.manager.Named
  next : after.isListed s.manager.nextListenerTag = true →
    s.manager.nextListenerTag < after.manager.nextListenerTag
  grows : s.manager.nextListenerTag ≤ after.manager.nextListenerTag
  objects : ∀ object ∈ after.objects,
    object ∈ s.objects ∨ object.listenerTag = s.manager.nextListenerTag
  stays : ∀ object ∈ s.objects, object ∈ after.objects
  covered : ∀ listener ∈ after.manager.listeners,
    ∃ object ∈ after.objects, object.listenerTag = listener.listenerTag
  gets : ∀ rds ∈ update.config.body, ∀ tag, s.findProvider rds = some tag →
    ∃ object ∈ after.objects, object.listenerTag = s.manager.nextListenerTag ∧
      tag ∈ object.providers
  early : ∀ object ∈ after.objects, object.listenerTag = s.manager.nextListenerTag →
    object.workersStarted = true →
    ∃ m, after.initManagers (.dynamic object.listenerTag) = some m ∧ m.state = .notInitialized
  starting : after.isStarting = true → s.isStarting = true ∧
    ∀ object ∈ s.objects, after.isListed object.listenerTag = true ∨
      ∃ existing, ListenerManager.getListenerByName s.manager.active update.name = some existing ∧
        object.listenerTag = existing.listenerTag

theorem Inv.made (h : Inv s) (sync : Nat → List Answer)
    (hshare : s.manager.workersStarted = true → ∀ rds ∈ update.config.body,
      ∀ tag ∈ s.findProvider rds, ∀ p ∈ s.providers tag, p.answered = true) :
    Made s ((s.createListener sync update.config.body).placeListener update) update := by
  obtain ⟨hcore, hopen, hbuilt, hgets⟩ := h.core.createListener sync h.below hshare
  have hkept : ListenerManager.Kept s.manager
    (s.createListener sync update.config.body).manager := hbuilt.kept
  have hquiet : ({ update with initializes := false } :
    ListenerManager.Update Name Address (List Rds)).initializes = false := rfl
  obtain ⟨hnamed, hworkers, hgrows, hlists⟩ :=
    ListenerManager.addOrUpdateListener_lists (hkept.named h.named) hquiet
  obtain ⟨object, hobject, hobjectTag, hobjectWorkers⟩ := hopen.object
  have hstays (other : ListenerObject) (hother : other ∈ s.objects) :
      other ∈ (s.createListener sync update.config.body).objects :=
    hbuilt.others other (mem_append_left _ hother) (Nat.ne_of_lt (h.below other hother))
  have hcovered (listener : ListenerImpl Name Address (List Rds))
      (hlistener : listener ∈ (s.createListener sync update.config.body).manager.listeners) :
      ∃ other ∈ s.objects, other.listenerTag = listener.listenerTag := by
    obtain ⟨old, hold, htag⟩ := hkept.listeners listener hlistener
    obtain ⟨other, hother, hotherTag⟩ := h.covered old hold
    exact ⟨other, hother, hotherTag.trans htag⟩
  refine ⟨hcore.setManager hworkers hnamed, hnamed, fun hlisted => ?_, hkept.next ▸ hgrows,
    fun other hother => ?_, hstays, fun listener hlistener => ?_, hgets,
    fun other hother htag hstarted => ?_, fun hstarting => ?_⟩
  · obtain ⟨listener, hlistener, htag⟩ := isListed_iff.mp hlisted
    rcases hlists with hsame | ⟨hnext, -⟩
    · obtain ⟨other, hother, hotherTag⟩ := hcovered listener (hsame ▸ hlistener)
      have hbelow := h.below other hother
      rw [hotherTag, htag] at hbelow
      exact absurd hbelow (Nat.lt_irrefl _)
    · rw [placeListener, hnext, hkept.next]
      exact Nat.lt_succ_self _
  · by_cases htag : other.listenerTag = s.manager.nextListenerTag
    · exact .inr htag
    · refine .inl ((mem_append.mp (hbuilt.before other hother htag)).resolve_right
        fun hnew => ?_)
      rw [mem_singleton.mp hnew] at htag
      exact htag rfl
  · have hold (hbefore : listener ∈ (s.createListener sync update.config.body).manager.listeners) :
        ∃ other ∈ (s.createListener sync update.config.body).objects,
          other.listenerTag = listener.listenerTag := by
      obtain ⟨other, hother, htag⟩ := hcovered listener hbefore
      exact ⟨other, hstays other hother, htag⟩
    rcases hlists with hsame | ⟨-, hsub, -⟩
    · exact hold (hsame ▸ hlistener)
    · rcases hsub listener hlistener with hbefore | htag
      · exact hold hbefore
      · exact ⟨object, hobject, hobjectTag.trans (htag.trans hkept.next).symm⟩
  · obtain ⟨m, hm, -, hearly⟩ := hopen.manager
    obtain rfl := inj_on_of_nodup_map hcore.held.distinct hother hobject
      (htag.trans hobjectTag.symm)
    have hmanager : s.manager.workersStarted = true := hobjectWorkers.symm.trans hstarted
    rw [ListenerObject.initManager, if_pos hmanager] at hm hearly
    exact ⟨m, htag ▸ hm, hearly (by simp)⟩
  · obtain ⟨hadded, hsame⟩ := hbuilt.starting hstarting
    have hsame : (s.createListener sync update.config.body).manager = s.manager := hsame
    have hbefore : s.isStarting = true := by
      rw [isStarting_iff, ← added_server, ← isStarting_iff]
      exact hadded
    refine ⟨hbefore, fun other hother => ?_⟩
    obtain ⟨listener, hlistener, htag⟩ := isListed_iff.mp (h.listed hbefore other hother)
    have hstill : s.manager.workersStarted = false := Bool.eq_false_iff.mpr fun hstarted =>
      absurd ((h.core.served.not_starting hstarted).symm.trans hbefore) (by simp)
    rw [hsame] at hlists
    rcases hlists with hlists | ⟨-, -, hlists⟩
    · refine .inl (isListed_iff.mpr ⟨listener, ?_, htag⟩)
      rw [placeListener, hsame, hlists]
      exact hlistener
    · rcases hlists hstill listener hlistener with hkeeps | hfound
      · refine .inl (isListed_iff.mpr ⟨listener, ?_, htag⟩)
        rw [placeListener, hsame]
        exact hkeeps
      · exact .inr ⟨listener, hfound, htag.symm⟩

theorem Inv.addOrUpdateListener (h : Inv s) {sync : Nat → List Answer}
    (hregular : s.Regular (.addOrUpdateListener update sync))
    (hstep : s.addOrUpdateListener sync update = some s') : Inv s' := by
  rw [ListenerInit.addOrUpdateListener] at hstep
  split at hstep
  · -- nothing is made for a duplicate
    rename_i hduplicate
    cases hstep
    rw [isDuplicate] at hduplicate
    rw [ListenerManager.addOrUpdateListener]
    dsimp only
    rw [if_pos hduplicate]
    exact h
  rename_i hnew
  obtain ⟨hshare, hreplaced⟩ := hregular (by simpa using hnew)
  have hmade := h.made sync hshare
  generalize (s.createListener sync update.config.body).placeListener update = after at hstep hmade
  dsimp only at hstep
  split at hstep
  · cases hstep
  rename_i hguard
  cases hstep
  have hlisted (hstarting : after.isStarting = true) :
      after.isListed s.manager.nextListenerTag = true := by
    rw [hstarting, Bool.true_and, Bool.not_eq_true', Bool.not_eq_false] at hguard
    exact hguard
  have hbelow (object : ListenerObject) (hobject : object ∈ after.objects)
      (hlist : after.isListed object.listenerTag = true) :
      object.listenerTag < after.manager.nextListenerTag := by
    rcases hmade.objects object hobject with hold | htag
    · exact Nat.lt_of_lt_of_le (h.below object hold) hmade.grows
    · exact htag ▸ hmade.next (htag ▸ hlist)
  obtain ⟨hinv, hkeeps⟩ := hmade.core.destroyUnlisted hmade.named hbelow hmade.covered
    fun hstarting object hobject hunlisted tag htag => by
      -- an object that goes before the server has begun is that of the replaced listener
      obtain ⟨hbefore, hstill⟩ := hmade.starting hstarting
      have hold : object ∈ s.objects := by
        refine (hmade.objects object hobject).resolve_right fun htag => ?_
        rw [htag, hlisted hstarting] at hunlisted
        cases hunlisted
      obtain ⟨existing, hexisting, hsame⟩ :=
        (hstill object hold).resolve_left (Bool.eq_false_iff.mp hunlisted)
      rcases hreplaced hbefore existing hexisting object hold hsame tag htag with
        ⟨other, hother, hne, hholds⟩ | ⟨rds, hrds, hfound⟩
      · refine ⟨other, hmade.stays other hother, ?_, hholds⟩
        refine (hstill other hother).resolve_right ?_
        rintro ⟨existing', hexisting', hsame'⟩
        cases hexisting.symm.trans hexisting'
        exact hne (hsame'.trans hsame.symm)
      · obtain ⟨new, hnew, hnewTag, hholds⟩ := hmade.gets rds hrds tag hfound
        exact ⟨new, hnew, hnewTag ▸ hlisted hstarting, hholds⟩
  refine hinv.initializeListener sync fun object hobject htag hworkers => ?_
  obtain ⟨hbefore, hearlier⟩ := hkeeps object hobject
  obtain ⟨m, hm, hearly⟩ := hmade.early object hbefore htag hworkers
  exact htag ▸ hearlier m hm hearly

theorem Inv.step (h : Inv s) {event : Event Name Address} (hregular : s.Regular event)
    (hstep : s.step event = some s') : Inv s' := by
  cases event with
  | addOrUpdateListener update sync => exact h.addOrUpdateListener hregular hstep
  | removeListener name =>
    cases hstep
    have hkept := ListenerManager.Kept.annotate s.manager s.manager.stats
      (s.manager.requests ++ [.remove name])
    refine h.manage (hkept.trans (.removeListener _ name))
      ListenerManager.removeListener_frame.2 fun hstarting => ?_
    have hstill : s.manager.workersStarted = false := Bool.eq_false_iff.mpr fun hstarted =>
      absurd ((h.core.served.not_starting hstarted).symm.trans hstarting) nofun
    exact ListenerManager.Holds.removeListener (hkept.named h.named) hstill name
  | drainComplete listenerTag =>
    cases hstep
    obtain ⟨hkept, hholds, hworkers⟩ := ListenerManager.Kept.completed s.manager listenerTag
    exact h.manage hkept hworkers fun _ => hholds
  | runWorker worker success =>
    cases hstep
    obtain ⟨hkept, hholds, hworkers⟩ := ListenerManager.Kept.runWorker s.manager worker success
    exact h.manage hkept hworkers fun _ => hholds
  | runPost =>
    rw [ListenerInit.step] at hstep
    split at hstep
    · rename_i hstarted
      obtain ⟨manager, hmanager, rfl⟩ := Option.map_eq_some_iff.mp hstep
      obtain ⟨hkept, hworkers⟩ := ListenerManager.Kept.runPost hmanager
      exact h.manage hkept hworkers fun hstarting =>
        absurd ((h.core.served.not_starting hstarted).symm.trans hstarting) nofun
    · cases hstep
  | initializeServer lds sync => exact h.initializeServer hstep
  | onLdsAnswer =>
    cases hstep
    exact h.onLdsAnswer
  | onAnswer tag answer =>
    cases hstep
    exact h.onAnswer tag answer

omit [DecidableEq Name] [DecidableEq Address] in
theorem Inv.create (concurrency : Nat) : Inv (create concurrency : ListenerInit Name Address) := by
  have hserver {id : ManagerId} {m : InitManagerImpl}
      (hm : (ListenerInit.create concurrency : ListenerInit Name Address).initManagers id =
        some m) :
      id = .server ∧ m = ⟨.notInitialized, []⟩ := by
    have hset : Function.update (fun _ => none) ManagerId.server (some ⟨.notInitialized, []⟩) id =
      some m := hm
    rcases update_cases hset with hserver | ⟨-, hnone⟩
    · exact hserver
    · cases hnone
  have hlds {m : InitManagerImpl} (hm : m = ⟨.notInitialized, []⟩) : .lds ∉ m.targets := by
    rw [hm]
    exact not_mem_nil
  have hbegun : (ListenerInit.create concurrency : ListenerInit Name Address).initManagers .server =
    some ⟨.notInitialized, []⟩ := rfl
  refine ⟨⟨⟨nofun, nofun, fun id m hm _ tag hmem => ?_, fun id m _ _ tag hm _ hmem => ?_,
    fun id m hm => ?_, fun listenerTag m hm => absurd (hserver hm).1 nofun⟩,
    ⟨⟨_, hbegun, Iff.intro nofun nofun⟩, fun _ => rfl, nofun,
      fun m hm _ => hlds (hserver hm).2, rfl⟩, ⟨nofun, nofun, nofun, nodup_nil, nofun, nofun⟩⟩,
    ⟨nodup_nil, nodup_nil, fun _ => rfl⟩, nofun, nofun, nofun⟩
  · rw [(hserver hm).2] at hmem
    cases hmem
  · rw [(hserver hm).2] at hmem
    cases hmem
  · rw [(hserver hm).2]
    exact ⟨nofun, nofun, nodup_nil⟩

omit [DecidableEq Name] [DecidableEq Address] in
theorem Inv.routesKnown (h : Inv s) : RoutesKnown s := by
  -- a provider that waits is a target of the manager of each listener that holds it
  have hwaiting {object : ListenerObject} (hobject : object ∈ s.objects) {tag : Nat}
      (hmem : tag ∈ object.providers) : ∃ p, s.providers tag = some p ∧ (p.answered = true ∧
        p.starts = 1 ∨ ∃ m, Waits s [] tag p object.initManager m) := by
    obtain ⟨p, hp⟩ := h.core.held.alive object hobject tag hmem
    cases hanswered : p.answered with
    | true => exact ⟨p, hp, .inl ⟨hanswered, (h.core.linked.settled tag p hp hanswered).1⟩⟩
    | false =>
      obtain ⟨id, m, hwaits⟩ := h.core.linked.waits tag p hp hanswered
      exact ⟨p, hp, .inr ⟨m, (hwaits.holders object hobject hmem).symm ▸ hwaits⟩⟩
  refine ⟨h.core.served.safe, h.covered, fun object hobject hinitialized tag hmem => ?_,
    fun object hobject hstarted tag hmem => ?_, fun hstarted object _ hearly => ?_,
    fun tag p hp => ?_⟩
  · obtain ⟨m, hm, hstate⟩ := hinitialized
    obtain ⟨p, hp, ⟨hanswered, -⟩ | ⟨m', hwaits⟩⟩ := hwaiting hobject hmem
    · exact ⟨p, hp, hanswered⟩
    · cases hm.symm.trans hwaits.manager
      have htarget := hwaits.target
      rw [(h.core.linked.sound _ m hm).empty hstate] at htarget
      cases htarget
  · obtain ⟨m, hm, hstate⟩ := hstarted
    obtain ⟨p, hp, ⟨-, hone⟩ | ⟨m', hwaits⟩⟩ := hwaiting hobject hmem
    · exact ⟨p, hp, hone⟩
    · cases hm.symm.trans hwaits.manager
      refine ⟨p, hp, ?_⟩
      cases hwaits.phase with
      | registered _ _ hearly =>
        exact absurd (hearly.resolve_right not_mem_nil) hstate
      | started hone => exact hone
  · obtain ⟨m, hm, hiff⟩ := h.core.served.server
    have hserver : object.initManager = .server := by simp [ListenerObject.initManager, hearly]
    exact ⟨m, hserver ▸ hm, hiff.mpr hstarted⟩
  · cases hanswered : p.answered with
    | true => exact Nat.le_of_eq (h.core.linked.settled tag p hp hanswered).1
    | false =>
      obtain ⟨id, m, hwaits⟩ := h.core.linked.waits tag p hp hanswered
      exact hwaits.starts_le

/-- In a run whose steps are regular no init manager is done with a listener before each of its
providers has processed an update or a failure, and no subscription is started twice. -/
theorem run_routesKnown (concurrency : Nat) (events : List (Event Name Address))
    (hregular : AllMeet ListenerInit.step Regular (create concurrency) events)
    (hrun : run ListenerInit.step (create concurrency) events = some s) : RoutesKnown s :=
  (run_invariant (fun _ _ _ h hregular hstep => Inv.step h hregular hstep) hregular
    (Inv.create concurrency) hrun).routesKnown

set_option synthInstance.maxSize 1024 in
instance (s : ListenerInit Name Address) : (event : Event Name Address) →
    Decidable (s.Regular event) := by
  intro e
  cases e <;> dsimp only [Regular] <;> infer_instance

def sampleUpdate (name : Nat) (hash : UInt64) : ListenerManager.Update Nat Nat (List Rds) :=
  ⟨⟨some name, name, true, [⟨"routes", "cluster"⟩]⟩, hash, 0, true, some name, false⟩

def sharingEvents : List (Event Nat Nat) :=
  [.initializeServer false fun _ => [], .addOrUpdateListener (sampleUpdate 1 5) fun _ => [],
    .onAnswer 0 (.update [⟨"routes", 3, true⟩]),
    .addOrUpdateListener (sampleUpdate 2 6) fun _ => []]

theorem run_routesKnown_sharing : ∃ s : ListenerInit Nat Nat,
    run ListenerInit.step (create 1) sharingEvents = some s ∧ RoutesKnown s := by
  obtain ⟨s, hrun⟩ := Option.isSome_iff_exists.mp
    (show (run ListenerInit.step (create 1) sharingEvents).isSome = true from rfl)
  exact ⟨s, hrun, run_routesKnown 1 sharingEvents (by decide +kernel) hrun⟩

def waitingEvents : List (Event Nat Nat) :=
  [.initializeServer false fun _ => [], .addOrUpdateListener (sampleUpdate 1 5) fun _ => [],
    .addOrUpdateListener (sampleUpdate 2 6) fun _ => []]

/-- The init manager of the second listener has nothing to wait for. -/
theorem run_routesKnown_waiting : ∃ s : ListenerInit Nat Nat,
    run ListenerInit.step (create 1) waitingEvents = some s ∧ ¬RoutesKnown s := by
  have hview : (run ListenerInit.step (create 1) waitingEvents).map (fun s =>
      (s.objects, s.initManagers (.dynamic 2), (s.providers 0).map (·.answered))) =
      some ([⟨1, true, [0]⟩, ⟨2, true, [0]⟩], some ⟨.initialized, []⟩, some false) := by
    decide +kernel
  obtain ⟨s, hrun, hs⟩ := Option.map_eq_some_iff.mp hview
  refine ⟨s, hrun, fun h => ?_⟩
  simp only [Prod.mk.injEq] at hs
  obtain ⟨hobjects, hmanager, hanswer⟩ := hs
  obtain ⟨p, hp, hanswered⟩ := h.known ⟨2, true, [0]⟩ (by rw [hobjects]; simp)
    ⟨_, hmanager, rfl⟩ 0 mem_cons_self
  rw [hp, Option.map_some, hanswered] at hanswer
  cases hanswer

end Names

end ListenerInit

end Meliproxy.Envoy.Server
