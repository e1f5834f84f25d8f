import Meliproxy.Envoy.Server.ListenerInit
import Meliproxy.Envoy.Server.ListenerKept

/-!
# Init managers and their providers

A provider that has not answered is a target of one init manager, which has started it or still has
to, and every listener that holds it has that manager. `unstarted` are the targets that the loop of
`InitManagerImpl::initialize` has not come to, and `dying` is a listener whose destructor has begun.
-/

namespace Meliproxy.Envoy.Server

open Lib Function

theorem update_cases {α β : Type} [DecidableEq α] {f : α → Option β} {a key : α} {b value : β}
    (h : Function.update f a (some b) key = some value) :
    (key = a ∧ value = b) ∨ (key ≠ a ∧ f key = some value) := by
  rw [update_apply] at h
  split at h
  · rename_i heq
    exact .inl ⟨heq, (Option.some.inj h).symm⟩
  · rename_i hne
    exact .inr ⟨hne, h⟩

namespace InitManagerImpl

variable {m : InitManagerImpl} {target other : Target}

/-- What holds of every init manager. -/
structure Sound (m : InitManagerImpl) : Prop where
  empty : m.state = .initialized → m.targets = []
  nonempty : m.state = .initializing → m.targets ≠ []
  nodup : m.targets.Nodup

theorem mem_remove : other ∈ (m.remove target).targets ↔ other ∈ m.targets ∧ other ≠ target := by
  simp [remove]

theorem remove_state (h : other ∈ m.targets) (hne : other ≠ target) :
    (m.remove target).state = m.state := if_neg (List.ne_nil_of_mem (mem_remove.mpr ⟨h, hne⟩))

theorem remove_state_of_empty (h : (m.remove target).targets = []) :
    (m.remove target).state = .initialized := if_pos h

theorem remove_cases (m : InitManagerImpl) (target : Target) :
    ((m.remove target).targets = [] ∧ (m.remove target).state = .initialized) ∨
    ((m.remove target).targets ≠ [] ∧ (m.remove target).state = m.state) := by
  by_cases h : (m.remove target).targets = []
  · exact .inl ⟨h, remove_state_of_empty h⟩
  · exact .inr ⟨h, if_neg h⟩

theorem Sound.remove (h : m.Sound) (target : Target) : (m.remove target).Sound := by
  refine ⟨fun hstate => ?_, fun hstate => ?_, h.nodup.filter _⟩
  · rcases remove_cases m target with ⟨hempty, -⟩ | ⟨-, hsame⟩
    · exact hempty
    · have hnone := h.empty (hsame ▸ hstate)
      simp [InitManagerImpl.remove, hnone]
  · rcases remove_cases m target with ⟨-, hinitialized⟩ | ⟨hne, -⟩
    · cases hinitialized.symm.trans hstate
    · exact hne

end InitManagerImpl

namespace ListenerInit

variable {Name Address : Type} {s s' : ListenerInit Name Address} {unstarted : List Target}
  {dying : Option ListenerObject} {tag : Nat} {p : RdsRouteConfigProviderImpl} {id : ManagerId}
  {m : InitManagerImpl} {answer : Answer}

/-- How far a provider is that has not answered. -/
inductive Phase (unstarted : List Target) (tag : Nat) (p : RdsRouteConfigProviderImpl)
    (id : ManagerId) (state : InitState) : Prop where
  | registered (hstarts : p.starts = 0) (hcallback : p.initializeCallback = none)
      (hstate : state = .notInitialized ∨ .provider tag ∈ unstarted)
  | started (hstarts : p.starts = 1) (hcallback : p.initializeCallback = some id)
      (hstate : state = .initializing) (hnot : .provider tag ∉ unstarted)

variable (s)

variable (unstarted)

structure Waits (tag : Nat)
    (p : RdsRouteConfigProviderImpl) (id : ManagerId) (m : InitManagerImpl) : Prop where
  manager : s.initManagers id = some m
  target : .provider tag ∈ m.targets
  phase : Phase unstarted tag p id m.state
  holders : ∀ object ∈ s.objects, tag ∈ object.providers → object.initManager = id

/-- The providers and the init managers. -/
structure Linked (dying : Option ListenerObject) : Prop where
  settled : ∀ tag p, s.providers tag = some p → p.answered = true →
    p.starts = 1 ∧ p.initializeCallback = none
  waits : ∀ tag p, s.providers tag = some p → p.answered = false →
    ∃ id m, Waits s unstarted tag p id m
  targets : ∀ id m, s.initManagers id = some m →
    (∀ listener ∈ dying, id ≠ .dynamic listener.listenerTag) →
    ∀ tag, .provider tag ∈ m.targets →
      ∃ p, s.providers tag = some p ∧ p.answered = false ∧ Waits s unstarted tag p id m
  single : ∀ id₁ m₁ id₂ m₂ tag, s.initManagers id₁ = some m₁ → s.initManagers id₂ = some m₂ →
    .provider tag ∈ m₁.targets → .provider tag ∈ m₂.targets → id₁ = id₂
  sound : ∀ id m, s.initManagers id = some m → m.Sound
  owner : ∀ listenerTag m, s.initManagers (.dynamic listenerTag) = some m →
    ∃ object, (object ∈ s.objects ∨ dying = some object) ∧ object.listenerTag = listenerTag ∧
      .lds ∉ m.targets ∧
      ∀ tag, .provider tag ∈ m.targets → tag ∈ object.providers ∧ object.workersStarted = true

/-- The init manager of the server, and the workers. -/
structure Served : Prop where
  server : ∃ m, s.initManagers .server = some m ∧
    (m.state = .initialized ↔ s.manager.workersStarted = true)
  warming : s.manager.workersStarted = false → s.manager.warming = []
  lds : s.ldsCallback = true → ∃ m, s.initManagers .server = some m ∧ .lds ∈ m.targets
  early : ∀ m, s.initManagers .server = some m → m.state = .notInitialized → .lds ∉ m.targets
  safe : s.failed = false

/-- What the listeners hold, and what the map has. -/
structure Held : Prop where
  alive : ∀ object ∈ s.objects, ∀ tag ∈ object.providers, ∃ p, s.providers tag = some p
  managers : ∀ object ∈ s.objects, ∃ m, s.initManagers (.dynamic object.listenerTag) = some m
  workers : ∀ object ∈ s.objects, object.workersStarted = true → s.manager.workersStarted = true
  distinct : (s.objects.map ListenerObject.listenerTag).Nodup
  known : ∀ entry ∈ s.routeConfigProviders,
    ∃ p, s.providers entry.2 = some p ∧ p.managerIdentifier = entry.1
  fresh : ∀ tag p, s.providers tag = some p → tag < s.nextProviderTag

structure Core (dying : Option ListenerObject) : Prop where
  linked : Linked s unstarted dying
  served : Served s
  held : Held s

variable {unstarted}

@[simp] theorem setInitManager_self (id : ManagerId)
    (m : InitManagerImpl) : (s.setInitManager id m).initManagers id = some m := update_self ..

variable {s}

theorem setInitManager_ne {other : ManagerId} (hne : other ≠ id) :
    (s.setInitManager id m).initManagers other = s.initManagers other := update_of_ne hne ..

@[simp] theorem setProvider_self (s : ListenerInit Name Address) (tag : Nat)
    (p : RdsRouteConfigProviderImpl) : (s.setProvider tag p).providers tag = some p :=
  update_self ..

theorem setProvider_ne {other : Nat} (hne : other ≠ tag) :
    (s.setProvider tag p).providers other = s.providers other := update_of_ne hne ..

theorem Waits.transfer (h : Waits s unstarted tag p id m) {unstarted' : List Target}
    {m' : InitManagerImpl} (hmanager : s'.initManagers id = some m')
    (htarget : .provider tag ∈ m'.targets) (hstate : m'.state = m.state)
    (hunstarted : Target.provider tag ∈ unstarted' ↔ .provider tag ∈ unstarted)
    (hobjects : ∀ object ∈ s'.objects, tag ∈ object.providers →
      ∃ before ∈ s.objects, tag ∈ before.providers ∧ before.initManager = object.initManager) :
    Waits s' unstarted' tag p id m' := by
  refine ⟨hmanager, htarget, ?_, fun object hobject htag => ?_⟩
  · rw [hstate]
    cases h.phase with
    | registered hstarts hcallback hwhen =>
      exact .registered hstarts hcallback (hwhen.imp_right hunstarted.mpr)
    | started hstarts hcallback hwhen hnot =>
      exact .started hstarts hcallback hwhen fun hmem => hnot (hunstarted.mp hmem)
  · obtain ⟨before, hbefore, hmem, heq⟩ := hobjects object hobject htag
    rw [← heq]
    exact h.holders before hbefore hmem

theorem Waits.starts_le (h : Waits s unstarted tag p id m) : p.starts ≤ 1 := by
  cases h.phase with
  | registered | started => omega

section

variable (h : Linked s unstarted dying)
include h

theorem Linked.same (hproviders : s'.providers = s.providers)
    (hmanagers : s'.initManagers = s.initManagers) (hobjects : s'.objects = s.objects) :
    Linked s' unstarted dying := by
  have hwaits {tag : Nat} {p : RdsRouteConfigProviderImpl} {id : ManagerId} {m : InitManagerImpl}
      (hwaits : Waits s unstarted tag p id m) : Waits s' unstarted tag p id m :=
    hwaits.transfer (hmanagers ▸ hwaits.manager) hwaits.target rfl Iff.rfl
      fun object hobject htag => ⟨object, hobjects ▸ hobject, htag, rfl⟩
  refine ⟨hproviders ▸ h.settled, fun tag p hp hwaiting => ?_, fun id m hm halive tag hmem => ?_,
    hmanagers ▸ h.single, hmanagers ▸ h.sound, hmanagers ▸ hobjects ▸ h.owner⟩
  · obtain ⟨id, m, hbefore⟩ := h.waits tag p (hproviders ▸ hp) hwaiting
    exact ⟨id, m, hwaits hbefore⟩
  · obtain ⟨p, hp, hwaiting, hbefore⟩ := h.targets id m (hmanagers ▸ hm) halive tag hmem
    exact ⟨p, hproviders ▸ hp, hwaiting, hwaits hbefore⟩

theorem Linked.waits_of_started (hp : s.providers tag = some p)
    (hanswered : p.answered = false) (hstarts : p.starts ≠ 0) :
    ∃ id m, Waits s unstarted tag p id m ∧ p.starts = 1 ∧ p.initializeCallback = some id ∧
      m.state = .initializing ∧ .provider tag ∉ unstarted := by
  obtain ⟨id, m, hwaits⟩ := h.waits tag p hp hanswered
  cases hwaits.phase with
  | registered hzero => exact absurd hzero hstarts
  | started hone hcallback hstate hnot => exact ⟨id, m, hwaits, hone, hcallback, hstate, hnot⟩

theorem Linked.remove {target : Target}
    (hm : s.initManagers id = some m) (hmem : target ∈ m.targets)
    (hmanagers : s'.initManagers = Function.update s.initManagers id (some (m.remove target)))
    (hobjects : s'.objects = s.objects)
    (hothers : ∀ tag, target ≠ .provider tag → s'.providers tag = s.providers tag)
    (hself : ∀ tag, target = .provider tag → ∀ p, s'.providers tag = some p →
      p.answered = true ∧ p.starts = 1 ∧ p.initializeCallback = none) :
    Linked s' unstarted dying := by
  have hself' (other : ManagerId) (m' : InitManagerImpl) (hm' : s'.initManagers other = some m') :
      (other = id ∧ m' = m.remove target) ∨ (other ≠ id ∧ s.initManagers other = some m') :=
    update_cases (hmanagers ▸ hm')
  -- what another provider waits for stays
  have hstays {tag : Nat} {p : RdsRouteConfigProviderImpl} {other : ManagerId}
      {m₁ : InitManagerImpl} (hne : target ≠ .provider tag)
      (hwaits : Waits s unstarted tag p other m₁) :
      ∃ m', Waits s' unstarted tag p other m' := by
    have hholders (object : ListenerObject) (hmem : object ∈ s'.objects)
        (htag : tag ∈ object.providers) : ∃ before ∈ s.objects,
          tag ∈ before.providers ∧ before.initManager = object.initManager :=
      ⟨object, hobjects ▸ hmem, htag, rfl⟩
    by_cases hother : other = id
    · subst hother
      obtain rfl : m₁ = m := Option.some.inj (hwaits.manager.symm.trans hm)
      refine ⟨m₁.remove target, hwaits.transfer ?_ ?_ ?_ Iff.rfl hholders⟩
      · rw [hmanagers, update_self]
      · exact InitManagerImpl.mem_remove.mpr ⟨hwaits.target, hne.symm⟩
      · exact InitManagerImpl.remove_state hwaits.target hne.symm
    · refine ⟨m₁, hwaits.transfer ?_ hwaits.target rfl Iff.rfl hholders⟩
      rw [hmanagers, update_of_ne hother]
      exact hwaits.manager
  refine ⟨fun tag p hp hanswered => ?_, fun tag p hp hanswered => ?_,
    fun other m' hm' halive tag htag => ?_, fun id₁ m₁ id₂ m₂ tag hm₁ hm₂ htag₁ htag₂ => ?_,
    fun other m' hm' => ?_, fun listenerTag m' hm' => ?_⟩
  · by_cases htarget : target = .provider tag
    · exact (hself tag htarget p hp).2
    · exact h.settled tag p (hothers tag htarget ▸ hp) hanswered
  · by_cases htarget : target = .provider tag
    · cases hanswered.symm.trans (hself tag htarget p hp).1
    · obtain ⟨other, m₁, hwaits⟩ := h.waits tag p (hothers tag htarget ▸ hp) hanswered
      exact ⟨other, hstays htarget hwaits⟩
  · obtain ⟨m₁, hm₁, htag₁, hne⟩ : ∃ m₁, s.initManagers other = some m₁ ∧
        .provider tag ∈ m₁.targets ∧ target ≠ .provider tag := by
      rcases hself' other m' hm' with ⟨rfl, rfl⟩ | ⟨hother, hm₁⟩
      · obtain ⟨hmem, hne⟩ := InitManagerImpl.mem_remove.mp htag
        exact ⟨m, hm, hmem, hne.symm⟩
      · exact ⟨m', hm₁, htag, fun htarget => hother (h.single other m' id m tag hm₁ hm htag
          (htarget ▸ hmem))⟩
    obtain ⟨p, hp, hanswered, hwaits⟩ := h.targets other m₁ hm₁ halive tag htag₁
    obtain ⟨m₂, hwaits'⟩ := hstays hne hwaits
    cases hwaits'.manager.symm.trans hm'
    exact ⟨p, (hothers tag hne).trans hp, hanswered, hwaits'⟩
  · have hbefore {other : ManagerId} {m' : InitManagerImpl}
        (hm' : s'.initManagers other = some m') (htag : .provider tag ∈ m'.targets) :
        ∃ m₀, s.initManagers other = some m₀ ∧ .provider tag ∈ m₀.targets := by
      rcases hself' other m' hm' with ⟨rfl, rfl⟩ | ⟨-, hm₀⟩
      · exact ⟨m, hm, (InitManagerImpl.mem_remove.mp htag).1⟩
      · exact ⟨m', hm₀, htag⟩
    obtain ⟨m₁', hm₁', htag₁'⟩ := hbefore hm₁ htag₁
    obtain ⟨m₂', hm₂', htag₂'⟩ := hbefore hm₂ htag₂
    exact h.single id₁ m₁' id₂ m₂' tag hm₁' hm₂' htag₁' htag₂'
  · rcases hself' other m' hm' with ⟨-, rfl⟩ | ⟨-, hm₁⟩
    · exact (h.sound id m hm).remove target
    · exact h.sound other m' hm₁
  · rw [hobjects]
    rcases hself' _ m' hm' with ⟨rfl, rfl⟩ | ⟨-, hm₁⟩
    · obtain ⟨object, hobject, htag, hlds, hheld⟩ := h.owner listenerTag m hm
      exact ⟨object, hobject, htag, fun hmem => hlds (InitManagerImpl.mem_remove.mp hmem).1,
        fun tag hmem => hheld tag (InitManagerImpl.mem_remove.mp hmem).1⟩
    · exact h.owner listenerTag m' hm₁

end

theorem Served.remove (h : Served s) (hsound : m.Sound) {target : Target}
    (hm : s.initManagers id = some m) (htarget : target ∈ m.targets)
    (hmanagers : s'.initManagers = Function.update s.initManagers id (some (m.remove target)))
    (hkept : ListenerManager.Kept s.manager s'.manager)
    (hstarted : s'.manager.workersStarted = true ↔
      s.manager.workersStarted = true ∨ id = .server ∧ (m.remove target).targets = [])
    (hlds : s'.ldsCallback = true → s.ldsCallback = true ∧ target ≠ .lds)
    (hsafe : s'.failed = s.failed) : Served s' := by
  obtain ⟨m₀, hm₀, hstate⟩ := h.server
  refine ⟨?_, fun hunstarted => hkept.warming (h.warming ?_), fun hcallback => ?_,
    fun m₁ hm₁ hearly hmem => ?_, hsafe ▸ h.safe⟩
  · by_cases hid : id = .server
    · subst hid
      obtain rfl : m₀ = m := Option.some.inj (hm₀.symm.trans hm)
      refine ⟨m₀.remove target, by rw [hmanagers, update_self], ?_⟩
      rw [hstarted, ← hstate]
      rcases InitManagerImpl.remove_cases m₀ target with ⟨hempty, hdone⟩ | ⟨hleft, hsame⟩
      · simp [hempty, hdone]
      · simp [hleft, hsame]
    · refine ⟨m₀, ?_, ?_⟩
      · rw [hmanagers, update_of_ne (fun heq => hid heq.symm)]
        exact hm₀
      · rw [hstarted, hstate]
        simp [hid]
  · refine Bool.eq_false_iff.mpr fun hbefore => ?_
    exact absurd (hunstarted.symm.trans (hstarted.mpr (.inl hbefore))) nofun
  · obtain ⟨hbefore, hne⟩ := hlds hcallback
    obtain ⟨m₁, hm₁, hmem⟩ := h.lds hbefore
    by_cases hid : id = .server
    · subst hid
      obtain rfl : m₁ = m := Option.some.inj (hm₁.symm.trans hm)
      refine ⟨m₁.remove target, by rw [hmanagers, update_self], ?_⟩
      exact InitManagerImpl.mem_remove.mpr ⟨hmem, hne.symm⟩
    · refine ⟨m₁, ?_, hmem⟩
      rw [hmanagers, update_of_ne (fun heq => hid heq.symm)]
      exact hm₁
  · rcases update_cases (hmanagers ▸ hm₁) with ⟨rfl, rfl⟩ | ⟨-, hm₁⟩
    · rcases InitManagerImpl.remove_cases m target with ⟨-, hdone⟩ | ⟨-, hsame⟩
      · cases hdone.symm.trans hearly
      · exact h.early m hm (hsame ▸ hearly) (InitManagerImpl.mem_remove.mp hmem).1
    · exact h.early m₁ hm₁ hearly hmem

section Names

variable [DecidableEq Name]

theorem onInitialized_spec (hserver : id = .server →
      s.manager.workersStarted = false ∧ s.manager.warming = []) :
    ∃ manager, s.onInitialized id = { s with manager := manager } ∧
      ListenerManager.Kept s.manager manager ∧
      (manager.workersStarted = true ↔ s.manager.workersStarted = true ∨ id = .server) := by
  cases id with
  | server =>
    obtain ⟨hstill, hwarming⟩ := hserver rfl
    obtain ⟨manager, hmanager, hkept, hstarted⟩ := ListenerManager.Kept.startWorkers hstill hwarming
    refine ⟨manager, ?_, hkept, by simp [hstarted]⟩
    rw [onInitialized, hmanager]
  | dynamic listenerTag =>
    rw [onInitialized]
    split
    · have hstarted : (s.manager.onListenerWarmed listenerTag).workersStarted =
          s.manager.workersStarted := ListenerManager.onListenerWarmed_frame.2
      exact ⟨_, rfl, .onListenerWarmed s.manager listenerTag, by simp [hstarted]⟩
    · exact ⟨s.manager, rfl, .refl _, by simp⟩

theorem onTargetInitialized_spec (h : Served s) (hsound : m.Sound) {target : Target}
    (hm : s.initManagers id = some m) (htarget : target ∈ m.targets) :
    ∃ manager, s.onTargetInitialized id target =
        { s.setInitManager id (m.remove target) with manager := manager } ∧
      ListenerManager.Kept s.manager manager ∧
      (manager.workersStarted = true ↔
        s.manager.workersStarted = true ∨ id = .server ∧ (m.remove target).targets = []) := by
  rw [onTargetInitialized, hm]
  dsimp only
  rw [if_pos htarget]
  by_cases hempty : (m.remove target).targets = []
  · rw [if_pos hempty]
    have hserver (hid : id = .server) :
        s.manager.workersStarted = false ∧ s.manager.warming = [] := by
      subst hid
      obtain ⟨m', hm', hstate⟩ := h.server
      cases hm'.symm.trans hm
      have hstill : s.manager.workersStarted = false := Bool.eq_false_iff.mpr fun hstarted =>
        List.ne_nil_of_mem htarget (hsound.empty (hstate.mpr hstarted))
      exact ⟨hstill, h.warming hstill⟩
    obtain ⟨manager, heq, hkept, hstarted⟩ :=
      @onInitialized_spec _ _ (s.setInitManager id (m.remove target)) id _ hserver
    refine ⟨manager, heq, hkept, hstarted.trans ?_⟩
    simp [hempty, setInitManager]
  · rw [if_neg hempty]
    exact ⟨s.manager, rfl, .refl _, by simp [hempty]⟩

theorem runInitializeCallbackIfAny_spec (h : Served s) (hsound : m.Sound)
    (hp : s.providers tag = some p) (hcallback : p.initializeCallback = some id)
    (hm : s.initManagers id = some m) (htarget : .provider tag ∈ m.targets) :
    ∃ manager, s.runInitializeCallbackIfAny tag = { s with
          initManagers := Function.update s.initManagers id (some (m.remove (.provider tag)))
          providers := Function.update s.providers tag (some { p with initializeCallback := none })
          manager := manager } ∧
      ListenerManager.Kept s.manager manager ∧
      (manager.workersStarted = true ↔
        s.manager.workersStarted = true ∨
          id = .server ∧ (m.remove (.provider tag)).targets = []) := by
  obtain ⟨manager, heq, hkept, hstarted⟩ := onTargetInitialized_spec h hsound hm htarget
  refine ⟨manager, ?_, hkept, hstarted⟩
  rw [runInitializeCallbackIfAny, hp]
  dsimp only
  rw [hcallback]
  dsimp only
  rw [heq]
  rfl

end Names

/-- What an answer of one provider can change. -/
structure Frame (tag : Nat) (s s' : ListenerInit Name Address) : Prop where
  objects : s'.objects = s.objects
  map : s'.routeConfigProviders = s.routeConfigProviders
  next : s'.nextProviderTag = s.nextProviderTag
  others : ∀ other, other ≠ tag → s'.providers other = s.providers other
  self : ∀ p, s.providers tag = some p →
    ∃ p', s'.providers tag = some p' ∧ p'.managerIdentifier = p.managerIdentifier
  managers : ∀ id m, s.initManagers id = some m → ∃ m', s'.initManagers id = some m' ∧
    (∀ target ∈ m.targets, target ≠ .provider tag → target ∈ m'.targets) ∧
    (m'.state = .notInitialized ↔ m.state = .notInitialized)
  shrinks : ∀ id m', s'.initManagers id = some m' → ∃ m, s.initManagers id = some m ∧
    ∀ target ∈ m'.targets, target ∈ m.targets
  kept : ListenerManager.Kept s.manager s'.manager
  workers : s.manager.workersStarted = true → s'.manager.workersStarted = true
  starting : s'.isStarting = true → s.isStarting = true ∧ s'.manager = s.manager

theorem Frame.refl (tag : Nat) (s : ListenerInit Name Address) : Frame tag s s :=
  ⟨rfl, rfl, rfl, fun _ _ => rfl, fun p hp => ⟨p, hp, rfl⟩,
    fun _ m hm => ⟨m, hm, fun _ hmem _ => hmem, Iff.rfl⟩, fun _ m hm => ⟨m, hm, fun _ hmem => hmem⟩,
    .refl _, id, fun hstarting => ⟨hstarting, rfl⟩⟩

theorem Frame.trans {s'' : ListenerInit Name Address} (h : Frame tag s s') (h' : Frame tag s' s'') :
    Frame tag s s'' := by
  refine ⟨h'.objects.trans h.objects, h'.map.trans h.map, h'.next.trans h.next, fun other hne =>
    (h'.others other hne).trans (h.others other hne), fun p hp => ?_, fun id m hm => ?_,
    fun id m hm => ?_, h.kept.trans h'.kept, fun hstarted => h'.workers (h.workers hstarted),
    fun hstarting => ?_⟩
  · obtain ⟨p₁, hp₁, hsame₁⟩ := h.self p hp
    obtain ⟨p₂, hp₂, hsame₂⟩ := h'.self p₁ hp₁
    exact ⟨p₂, hp₂, hsame₂.trans hsame₁⟩
  · obtain ⟨m₁, hm₁, htargets₁, hstate₁⟩ := h.managers id m hm
    obtain ⟨m₂, hm₂, htargets₂, hstate₂⟩ := h'.managers id m₁ hm₁
    exact ⟨m₂, hm₂, fun target hmem hne => htargets₂ target (htargets₁ target hmem hne) hne,
      hstate₂.trans hstate₁⟩
  · obtain ⟨m₁, hm₁, htargets₁⟩ := h'.shrinks id m hm
    obtain ⟨m₀, hm₀, htargets₀⟩ := h.shrinks id m₁ hm₁
    exact ⟨m₀, hm₀, fun target hmem => htargets₀ target (htargets₁ target hmem)⟩
  · obtain ⟨hmiddle, hsame'⟩ := h'.starting hstarting
    obtain ⟨hbefore, hsame⟩ := h.starting hmiddle
    exact ⟨hbefore, hsame'.trans hsame⟩

theorem isStarting_iff : s.isStarting = true ↔
    ∃ m, s.initManagers .server = some m ∧ m.state = .notInitialized := by
  rw [isStarting]
  cases s.initManagers .server <;> simp

theorem Held.frame (h : Held s) (hframe : Frame tag s s') (hp : s.providers tag = some p) :
    Held s' := by
  have hprovider (other : Nat) (p₁ : RdsRouteConfigProviderImpl)
      (hp₁ : s.providers other = some p₁) : ∃ p', s'.providers other = some p' ∧
        p'.managerIdentifier = p₁.managerIdentifier := by
    by_cases hother : other = tag
    · subst hother
      exact hframe.self p₁ hp₁
    · exact ⟨p₁, (hframe.others other hother).trans hp₁, rfl⟩
  refine ⟨fun object hobject other hmem => ?_, fun object hobject => ?_,
    fun object hobject hstarted => ?_,
    hframe.objects ▸ h.distinct, fun entry hentry => ?_, fun other p₁ hp₁ => ?_⟩
  · obtain ⟨p₁, hp₁⟩ := h.alive object (hframe.objects ▸ hobject) other hmem
    obtain ⟨p', hp', -⟩ := hprovider other p₁ hp₁
    exact ⟨p', hp'⟩
  · obtain ⟨m, hm⟩ := h.managers object (hframe.objects ▸ hobject)
    obtain ⟨m', hm', -⟩ := hframe.managers _ m hm
    exact ⟨m', hm'⟩
  · exact hframe.workers (h.workers object (hframe.objects ▸ hobject) hstarted)
  · obtain ⟨p₁, hp₁, hrds⟩ := h.known entry (hframe.map ▸ hentry)
    obtain ⟨p', hp', hsame⟩ := hprovider _ p₁ hp₁
    exact ⟨p', hp', hsame.trans hrds⟩
  · rw [hframe.next]
    by_cases hother : other = tag
    · exact hother ▸ h.fresh tag p hp
    · exact h.fresh other p₁ ((hframe.others other hother).symm.trans hp₁)

theorem frame_remove {target : Target} (hm : s.initManagers id = some m)
    (htarget : target ∈ m.targets)
    (hstate : m.state = .initializing) (other : ManagerId) (m₁ : InitManagerImpl)
    (hm₁ : s.initManagers other = some m₁) :
    ∃ m', Function.update s.initManagers id (some (m.remove target)) other = some m' ∧
      (∀ kept ∈ m₁.targets, kept ≠ target → kept ∈ m'.targets) ∧
      (m'.state = .notInitialized ↔ m₁.state = .notInitialized) := by
  by_cases hother : other = id
  · subst hother
    obtain rfl : m₁ = m := Option.some.inj (hm₁.symm.trans hm)
    refine ⟨m₁.remove target, update_self .., fun kept hmem hne =>
      InitManagerImpl.mem_remove.mpr ⟨hmem, hne⟩, ?_⟩
    rcases InitManagerImpl.remove_cases m₁ target with ⟨-, hdone⟩ | ⟨-, hsame⟩
    · simp [hdone, hstate]
    · rw [hsame]
  · exact ⟨m₁, (update_of_ne hother ..).trans hm₁, fun _ hmem _ => hmem, Iff.rfl⟩

theorem shrinks_remove {target : Target} (hm : s.initManagers id = some m) (other : ManagerId)
    (m' : InitManagerImpl)
    (hm' : Function.update s.initManagers id (some (m.remove target)) other = some m') :
    ∃ m₁, s.initManagers other = some m₁ ∧ ∀ kept ∈ m'.targets, kept ∈ m₁.targets := by
  rcases update_cases hm' with ⟨rfl, rfl⟩ | ⟨-, hm₁⟩
  · exact ⟨m, hm, fun kept hmem => (InitManagerImpl.mem_remove.mp hmem).1⟩
  · exact ⟨m', hm₁, fun _ hmem => hmem⟩

variable {p' : RdsRouteConfigProviderImpl}

theorem Linked.resettle (h : Linked s unstarted dying) (hp : s.providers tag = some p)
    (hanswered : p.answered = true)
    (hp' : p'.answered = true ∧ p'.starts = 1 ∧ p'.initializeCallback = none) :
    Linked (s.setProvider tag p') unstarted dying := by
  refine ⟨fun other p₁ hp₁ hsettled => ?_, fun other p₁ hp₁ hwaiting => ?_,
    fun id m hm halive other hmem => ?_, h.single, h.sound, h.owner⟩
  · rcases update_cases hp₁ with ⟨-, rfl⟩ | ⟨-, hold⟩
    · exact hp'.2
    · exact h.settled other p₁ hold hsettled
  · rcases update_cases hp₁ with ⟨-, rfl⟩ | ⟨-, hold⟩
    · cases hwaiting.symm.trans hp'.1
    · obtain ⟨id, m, hwaits⟩ := h.waits other p₁ hold hwaiting
      exact ⟨id, m, hwaits.manager, hwaits.target, hwaits.phase, hwaits.holders⟩
  · obtain ⟨p₁, hp₁, hwaiting, hwaits⟩ := h.targets id m hm halive other hmem
    have hne : other ≠ tag := fun heq => by
      subst heq
      cases hp₁.symm.trans hp
      cases hanswered.symm.trans hwaiting
    exact ⟨p₁, (update_of_ne hne ..).trans hp₁, hwaiting, hwaits.manager, hwaits.target,
      hwaits.phase, hwaits.holders⟩

theorem Core.starting_remove (h : Core s unstarted dying)
    (manager : ListenerManager Name Address (List Rds)) (hm : s.initManagers id = some m)
    (hmem : .provider tag ∈ m.targets) (hstate : m.state = .initializing)
    (hwhen : dying = none ∨ s.isStarting = false) : { s with
      initManagers := Function.update s.initManagers id (some (m.remove (.provider tag)))
      manager := manager }.isStarting = false := by
  refine Bool.eq_false_iff.mpr fun hstarting => ?_
  obtain ⟨m', hm', hearly⟩ := isStarting_iff.mp hstarting
  rcases update_cases hm' with ⟨rfl, rfl⟩ | ⟨hne, hm₀⟩
  · rcases InitManagerImpl.remove_cases m (.provider tag) with ⟨-, hdone⟩ | ⟨-, hkeeps⟩
    · cases hdone.symm.trans hearly
    · cases hearly.symm.trans (hkeeps.trans hstate)
  cases id with
  | server => exact absurd rfl hne
  | dynamic listenerTag =>
    -- a listener with a manager of its own was made after the workers have started
    obtain ⟨object, hobject | hdying, -, -, hheld⟩ := h.linked.owner listenerTag m hm
    · obtain ⟨m₁, hm₁, hiff⟩ := h.served.server
      cases hm₁.symm.trans hm₀
      have hdone := hiff.mpr (h.held.workers object hobject (hheld tag hmem).2)
      cases hearly.symm.trans hdone
    · rcases hwhen with hnone | hlater
      · cases hnone.symm.trans hdying
      · have hbefore : s.isStarting = true := isStarting_iff.mpr ⟨m', hm₀, hearly⟩
        cases hlater.symm.trans hbefore

theorem Core.settle (h : Core s unstarted dying)
    {manager : ListenerManager Name Address (List Rds)} (hp : s.providers tag = some p)
    (hwaits : Waits s unstarted tag p id m) (hstate : m.state = .initializing)
    (hs' : s' = { s with
      initManagers := Function.update s.initManagers id (some (m.remove (.provider tag)))
      providers := Function.update s.providers tag (some p')
      manager := manager })
    (hp' : p'.answered = true ∧ p'.starts = 1 ∧ p'.initializeCallback = none)
    (hrds : p'.managerIdentifier = p.managerIdentifier)
    (hkept : ListenerManager.Kept s.manager manager) (hwhen : dying = none ∨ s.isStarting = false)
    (hstarted : manager.workersStarted = true ↔
      s.manager.workersStarted = true ∨ id = .server ∧ (m.remove (.provider tag)).targets = []) :
    Core s' unstarted dying ∧ Frame tag s s' := by
  have hframe : Frame tag s s' := by
    subst hs'
    refine ⟨rfl, rfl, rfl, fun other hne => update_of_ne hne .., fun p₁ hp₁ => ?_,
      frame_remove hwaits.manager hwaits.target hstate, shrinks_remove hwaits.manager, hkept,
      fun h => hstarted.mpr (.inl h), fun hstarting => ?_⟩
    · cases hp.symm.trans hp₁
      exact ⟨_, update_self .., hrds⟩
    · have hlater := h.starting_remove manager hwaits.manager hwaits.target hstate hwhen
      cases hlater.symm.trans hstarting
  subst hs'
  refine ⟨⟨h.linked.remove hwaits.manager hwaits.target rfl rfl (fun other hne => ?_)
    fun other heq p₁ hp₁ => ?_, h.served.remove (h.linked.sound id m hwaits.manager) hwaits.manager
      hwaits.target rfl hkept hstarted (fun hlds => ⟨hlds, nofun⟩) rfl, h.held.frame hframe hp⟩,
    hframe⟩
  · exact hframe.others other fun heq => hne (heq ▸ rfl)
  · obtain rfl := Target.provider.inj heq
    rcases update_cases hp₁ with ⟨-, rfl⟩ | ⟨hne, -⟩
    · exact hp'
    · exact absurd rfl hne

theorem answer_same (p : RdsRouteConfigProviderImpl) (answer : Answer) :
    (p.answer answer).answered = true ∧ (p.answer answer).starts = p.starts ∧
      (p.answer answer).initializeCallback = p.initializeCallback ∧
      (p.answer answer).managerIdentifier = p.managerIdentifier := by
  have hupdate (resources : List RouteConfiguration) (p' : RdsRouteConfigProviderImpl)
      (h : p.onConfigUpdate resources = some p') : p'.starts = p.starts ∧
        p'.initializeCallback = p.initializeCallback ∧
        p'.managerIdentifier = p.managerIdentifier := by
    cases resources with
    | nil =>
      cases h
      exact ⟨rfl, rfl, rfl⟩
    | cons routeConfig rest =>
      cases rest with
      | nil =>
        simp only [RdsRouteConfigProviderImpl.onConfigUpdate] at h
        split at h
        · cases h
        split at h
        · split at h
          · cases h
            exact ⟨rfl, rfl, rfl⟩
          · cases h
        · cases h
          exact ⟨rfl, rfl, rfl⟩
      | cons => cases h
  cases answer with
  | failed => exact ⟨rfl, rfl, rfl, rfl⟩
  | update resources =>
    rw [RdsRouteConfigProviderImpl.answer]
    cases h : p.onConfigUpdate resources with
    | none => exact ⟨rfl, rfl, rfl, rfl⟩
    | some p' =>
      obtain ⟨hstarts, hcallback, hrds⟩ := hupdate resources p' h
      exact ⟨rfl, hstarts, hcallback, hrds⟩

section Names

variable [DecidableEq Name]

theorem Core.onAnswer (h : Core s unstarted none) (tag : Nat) (answer : Answer) :
    Core (s.onAnswer tag answer) unstarted none ∧ Frame tag s (s.onAnswer tag answer) := by
  rw [ListenerInit.onAnswer]
  cases hp : s.providers tag with
  | none => exact ⟨h, .refl tag s⟩
  | some p =>
    dsimp only
    split
    · exact ⟨h, .refl tag s⟩
    rename_i hstarts
    obtain ⟨hanswered, hsame, hcallback, hrds⟩ := answer_same p answer
    have hnew : (s.setProvider tag (p.answer answer)).providers tag = some (p.answer answer) :=
      update_self ..
    cases hbefore : p.answered with
    | true =>
      -- nothing waits for it, and the callback is gone
      obtain ⟨hone, hnone⟩ := h.linked.settled tag p hp hbefore
      have heq : (s.setProvider tag (p.answer answer)).runInitializeCallbackIfAny tag =
          s.setProvider tag (p.answer answer) := by
        rw [runInitializeCallbackIfAny, hnew]
        dsimp only
        rw [hcallback, hnone]
      rw [heq]
      have hframe : Frame tag s (s.setProvider tag (p.answer answer)) := by
        refine ⟨rfl, rfl, rfl, fun other hne => update_of_ne hne .., fun p₁ hp₁ => ?_,
          fun _ m hm => ⟨m, hm, fun _ hmem _ => hmem, Iff.rfl⟩,
          fun _ m hm => ⟨m, hm, fun _ hmem => hmem⟩, .refl _, id, fun h => ⟨h, rfl⟩⟩
        cases hp.symm.trans hp₁
        exact ⟨_, hnew, hrds⟩
      exact ⟨⟨h.linked.resettle hp hbefore ⟨hanswered, hsame.trans hone, hcallback.trans hnone⟩,
        { h.served with },
        h.held.frame hframe hp⟩, hframe⟩
    | false =>
      obtain ⟨id, m, hwaits, hone, hsome, hstate, -⟩ := h.linked.waits_of_started hp hbefore hstarts
      have hsound := h.linked.sound id m hwaits.manager
      have hserved : Served (s.setProvider tag (p.answer answer)) := { h.served with }
      obtain ⟨manager, heq, hkept, hstarted⟩ := runInitializeCallbackIfAny_spec hserved
        hsound hnew (hcallback.trans hsome) hwaits.manager hwaits.target
      rw [heq, setProvider, update_idem]
      exact h.settle hp hwaits hstate rfl ⟨hanswered, hsame.trans hone, rfl⟩ hrds hkept (.inl rfl)
        hstarted

end Names

end ListenerInit

end Meliproxy.Envoy.Server
