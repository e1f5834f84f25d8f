import Meliproxy.Envoy.Server.ListenerInitTargets

/-!
# A new listener gets its providers

While a listener is constructed its init manager has not completed. A provider that it finds has
answered or is a target of that manager, and a provider that it makes becomes one.
-/

namespace Meliproxy.Envoy.Server

open Lib List Function

namespace ListenerInit

variable {Name Address : Type} {s s' : ListenerInit Name Address} {unstarted : List Target}
  {tag listenerTag : Nat} {p : RdsRouteConfigProviderImpl} {id : ManagerId} {m : InitManagerImpl}
  {rds : Rds} {new : ListenerObject}

/-- A provider that a listener with this init manager may hold. -/
def Shareable (s : ListenerInit Name Address) (id : ManagerId) (tag : Nat) : Prop :=
  ∃ p, s.providers tag = some p ∧
    (p.answered = true ∨ ∃ m, s.initManagers id = some m ∧ .provider tag ∈ m.targets)

theorem hold_tags : (s.hold listenerTag tag).objects.map ListenerObject.listenerTag =
    s.objects.map ListenerObject.listenerTag := by
  rw [hold, map_map]
  refine map_congr_left fun object _ => ?_
  dsimp only [comp_apply]
  split <;> rfl

variable {object : ListenerObject}

theorem mem_hold (h : object ∈ (s.hold listenerTag tag).objects) :
    ∃ before ∈ s.objects, before.listenerTag = object.listenerTag ∧
      before.workersStarted = object.workersStarted ∧
      (before.listenerTag ≠ listenerTag → before = object) ∧
      ∀ other ∈ object.providers, other ∈ before.providers ∨
        other = tag ∧ before.listenerTag = listenerTag := by
  obtain ⟨before, hbefore, rfl⟩ := mem_map.mp h
  refine ⟨before, hbefore, ?_⟩
  split
  · rename_i htag
    refine ⟨rfl, rfl, fun hne => absurd htag hne, fun other hother => ?_⟩
    rcases mem_append.mp hother with hother | hother
    · exact .inl hother
    · exact .inr ⟨mem_singleton.mp hother, htag⟩
  · exact ⟨rfl, rfl, fun _ => rfl, fun other hother => .inl hother⟩

theorem hold_of_mem (h : object ∈ s.objects) :
    ∃ after ∈ (s.hold listenerTag tag).objects, after.listenerTag = object.listenerTag ∧
      after.workersStarted = object.workersStarted ∧
      (object.listenerTag ≠ listenerTag → after = object) ∧
      (object.listenerTag = listenerTag → tag ∈ after.providers) ∧
      ∀ other ∈ object.providers, other ∈ after.providers := by
  refine ⟨_, mem_map_of_mem h, ?_⟩
  split
  · rename_i htag
    exact ⟨rfl, rfl, fun hne => absurd htag hne, fun _ => by simp,
      fun other hother => mem_append_left _ hother⟩
  · rename_i hne
    exact ⟨rfl, rfl, fun _ => rfl, fun htag => absurd htag hne, fun other hother => hother⟩

theorem initManager_congr {object before : ListenerObject}
    (htag : before.listenerTag = object.listenerTag)
    (hworkers : before.workersStarted = object.workersStarted) :
    before.initManager = object.initManager := by
  rw [ListenerObject.initManager, ListenerObject.initManager, htag, hworkers]

theorem Waits.hold (h : Waits s [] tag p id m) {m' : InitManagerImpl} {held : Nat}
    (hmanager : s'.initManagers id = some m') (htarget : .provider tag ∈ m'.targets)
    (hstate : m'.state = m.state) (hunstarted : Target.provider tag ∉ unstarted)
    (hobjects : s'.objects = (s.hold listenerTag held).objects)
    (hheld : tag = held → ∀ object ∈ s.objects, object.listenerTag = listenerTag →
      object.initManager = id) : Waits s' unstarted tag p id m' := by
  refine ⟨hmanager, htarget, ?_, fun object hobject hmem => ?_⟩
  · rw [hstate]
    cases h.phase with
    | registered hstarts hcallback hwhen =>
      exact .registered hstarts hcallback (hwhen.imp_right fun hmem => absurd hmem not_mem_nil)
    | started hstarts hcallback hwhen => exact .started hstarts hcallback hwhen hunstarted
  · obtain ⟨before, hbefore, htag, hworkers, -, hproviders⟩ := mem_hold (hobjects ▸ hobject)
    rw [← initManager_congr htag hworkers]
    rcases hproviders tag hmem with hmem | ⟨heq, hlistener⟩
    · exact h.holders before hbefore hmem
    · exact hheld heq before hbefore hlistener

theorem Linked.hold (h : Linked s [] none)
    (hid : ∀ object ∈ s.objects, object.listenerTag = listenerTag → object.initManager = id)
    (hshare : Shareable s id tag) : Linked (s.hold listenerTag tag) [] none := by
  have hstays {other : Nat} {p : RdsRouteConfigProviderImpl} {id₁ : ManagerId}
      {m₁ : InitManagerImpl} (hp : s.providers other = some p) (hanswered : p.answered = false)
      (hwaits : Waits s [] other p id₁ m₁) :
      Waits (s.hold listenerTag tag) [] other p id₁ m₁ := by
    refine hwaits.hold hwaits.manager hwaits.target rfl not_mem_nil rfl fun heq => ?_
    subst heq
    obtain ⟨p', hp', hwhen⟩ := hshare
    cases hp'.symm.trans hp
    rcases hwhen with hdone | ⟨m, hm, hmem⟩
    · cases hanswered.symm.trans hdone
    · obtain rfl := h.single id m id₁ m₁ other hm hwaits.manager hmem hwaits.target
      exact hid
  refine ⟨h.settled, fun other p hp hanswered => ?_, fun id₁ m₁ hm₁ halive other hmem => ?_,
    h.single, h.sound, fun owner m hm => ?_⟩
  · obtain ⟨id₁, m₁, hwaits⟩ := h.waits other p hp hanswered
    exact ⟨id₁, m₁, hstays hp hanswered hwaits⟩
  · obtain ⟨p, hp, hanswered, hwaits⟩ := h.targets id₁ m₁ hm₁ halive other hmem
    exact ⟨p, hp, hanswered, hstays hp hanswered hwaits⟩
  · obtain ⟨object, hobject | hdying, htag, hlds, hheld⟩ := h.owner owner m hm
    · obtain ⟨after, hafter, htag', hworkers, -, -, hproviders⟩ :=
        @hold_of_mem _ _ s tag listenerTag object hobject
      exact ⟨after, .inl hafter, htag'.trans htag, hlds, fun other hmem =>
        ⟨hproviders other (hheld other hmem).1, hworkers.trans (hheld other hmem).2⟩⟩
    · cases hdying

theorem Held.hold (h : Held s) (hp : s.providers tag = some p) : Held (s.hold listenerTag tag) := by
  refine ⟨fun object hobject other hmem => ?_, fun object hobject => ?_,
    fun object hobject hworkers => ?_, (congrArg List.Nodup hold_tags).mpr h.distinct, h.known,
      h.fresh⟩
  · obtain ⟨before, hbefore, -, -, -, hproviders⟩ := mem_hold hobject
    rcases hproviders other hmem with hmem | ⟨rfl, -⟩
    · exact h.alive before hbefore other hmem
    · exact ⟨p, hp⟩
  · obtain ⟨before, hbefore, htag, -⟩ := mem_hold hobject
    exact htag ▸ h.managers before hbefore
  · obtain ⟨before, hbefore, -, hsame, -⟩ := mem_hold hobject
    exact h.workers before hbefore (hsame.trans hworkers)

theorem Core.hold (h : Core s [] none)
    (hid : ∀ object ∈ s.objects, object.listenerTag = listenerTag → object.initManager = id)
    (hshare : Shareable s id tag) : Core (s.hold listenerTag tag) [] none := by
  obtain ⟨p, hp, hwhen⟩ := hshare
  exact ⟨h.linked.hold hid ⟨p, hp, hwhen⟩, { h.served with }, h.held.hold hp⟩

def registered (s : ListenerInit Name Address) (listenerTag : Nat) (rds : Rds) (id : ManagerId)
    (m : InitManagerImpl) : ListenerInit Name Address :=
  { (s.setProvider s.nextProviderTag (.create rds)).hold listenerTag s.nextProviderTag with
    nextProviderTag := s.nextProviderTag + 1 }.setInitManager id
      { m with targets := m.targets ++ [Target.provider s.nextProviderTag] }

section

variable (h : Core s [] none)
include h

theorem Core.fresh_target {other : ManagerId} {m : InitManagerImpl}
    (hm : s.initManagers other = some m) : Target.provider s.nextProviderTag ∉ m.targets := by
  intro hmem
  obtain ⟨p, hp, -⟩ := h.linked.targets other m hm nofun _ hmem
  exact Nat.lt_irrefl _ (h.held.fresh _ p hp)

theorem Linked.register (rds : Rds) (hm : s.initManagers id = some m)
    (hopen : m.state ≠ .initialized)
    (hid : ∃ object ∈ s.objects, object.listenerTag = listenerTag ∧ object.initManager = id)
    (honly : ∀ other, Target.provider other ∈ unstarted → other = s.nextProviderTag)
    (hwhen : m.state = .notInitialized ∨ .provider s.nextProviderTag ∈ unstarted) :
    Linked (s.registered listenerTag rds id m) unstarted none := by
  have hlinked := h.linked
  obtain ⟨owner, howner, hownerTag, hownerId⟩ := hid
  -- there is one object of the tag
  have hheld (object : ListenerObject) (hobject : object ∈ s.objects)
      (htag : object.listenerTag = listenerTag) : object.initManager = id := by
    obtain rfl := inj_on_of_nodup_map h.held.distinct hobject howner
      (htag.trans hownerTag.symm)
    exact hownerId
  have hne {other : Nat} {p : RdsRouteConfigProviderImpl} (hp : s.providers other = some p) :
      other ≠ s.nextProviderTag := Nat.ne_of_lt (h.held.fresh other p hp)
  have hmanager {other : ManagerId} {m₁ : InitManagerImpl}
      (hm₁ : (s.registered listenerTag rds id m).initManagers other = some m₁) {tag : Nat}
      (hmem : .provider tag ∈ m₁.targets) :
      (other = id ∧ tag = s.nextProviderTag) ∨
        ∃ m₀, s.initManagers other = some m₀ ∧ .provider tag ∈ m₀.targets := by
    rcases update_cases hm₁ with ⟨rfl, rfl⟩ | ⟨-, hm₀⟩
    · rcases mem_append.mp hmem with hmem | hmem
      · exact .inr ⟨m, hm, hmem⟩
      · exact .inl ⟨rfl, Target.provider.inj (mem_singleton.mp hmem)⟩
    · exact .inr ⟨m₁, hm₀, hmem⟩
  have hself : (s.registered listenerTag rds id m).initManagers id =
      some { m with targets := m.targets ++ [Target.provider s.nextProviderTag] } := update_self ..
  have hnew : Waits (s.registered listenerTag rds id m) unstarted s.nextProviderTag (.create rds) id
      { m with targets := m.targets ++ [Target.provider s.nextProviderTag] } := by
    refine ⟨hself, by simp, .registered rfl rfl hwhen, fun object hobject hmem => ?_⟩
    obtain ⟨before, hbefore, htag, hworkers, -, hproviders⟩ := mem_hold hobject
    rw [← initManager_congr htag hworkers]
    rcases hproviders _ hmem with hmem | ⟨-, hlistener⟩
    · obtain ⟨p, hp⟩ := h.held.alive before hbefore _ hmem
      exact absurd rfl (hne hp)
    · exact hheld before hbefore hlistener
  have hstays {other : Nat} {p : RdsRouteConfigProviderImpl} {id₁ : ManagerId}
      {m₁ : InitManagerImpl} (hp : s.providers other = some p)
      (hwaits : Waits s [] other p id₁ m₁) :
      ∃ m₂, Waits (s.registered listenerTag rds id m) unstarted other p id₁ m₂ := by
    have hnot : Target.provider other ∉ unstarted := fun hmem => hne hp (honly other hmem)
    by_cases hid₁ : id₁ = id
    · subst hid₁
      cases hwaits.manager.symm.trans hm
      exact ⟨_, hwaits.hold hself (mem_append_left _ hwaits.target) rfl hnot rfl
        fun heq => absurd heq (hne hp)⟩
    · exact ⟨m₁, hwaits.hold ((setInitManager_ne hid₁).trans hwaits.manager) hwaits.target rfl hnot
        rfl fun heq => absurd heq (hne hp)⟩
  refine ⟨fun other p hp hanswered => ?_, fun other p hp hanswered => ?_,
    fun other m₁ hm₁ halive tag hmem => ?_, fun id₁ m₁ id₂ m₂ tag hm₁ hm₂ hmem₁ hmem₂ => ?_,
    fun other m₁ hm₁ => ?_, fun dynamic m₁ hm₁ => ?_⟩
  · rcases update_cases hp with ⟨-, rfl⟩ | ⟨-, hold⟩
    · cases hanswered
    · exact hlinked.settled other p hold hanswered
  · rcases update_cases hp with ⟨rfl, rfl⟩ | ⟨-, hold⟩
    · exact ⟨id, _, hnew⟩
    · obtain ⟨id₁, m₁, hwaits⟩ := hlinked.waits other p hold hanswered
      exact ⟨id₁, hstays hold hwaits⟩
  · rcases hmanager hm₁ hmem with ⟨rfl, rfl⟩ | ⟨m₀, hm₀, hmem₀⟩
    · cases hself.symm.trans hm₁
      exact ⟨_, setProvider_self .., rfl, hnew⟩
    · obtain ⟨p, hp, hanswered, hwaits⟩ := hlinked.targets other m₀ hm₀ nofun tag hmem₀
      obtain ⟨m₂, hwaits₂⟩ := hstays hp hwaits
      cases hwaits₂.manager.symm.trans hm₁
      exact ⟨p, (setProvider_ne (hne hp)).trans hp, hanswered, hwaits₂⟩
  · rcases hmanager hm₁ hmem₁ with ⟨rfl, rfl⟩ | ⟨m₁', hm₁', hmem₁'⟩ <;>
      rcases hmanager hm₂ hmem₂ with ⟨rfl, heq⟩ | ⟨m₂', hm₂', hmem₂'⟩
    · rfl
    · exact absurd hmem₂' (h.fresh_target hm₂')
    · exact absurd (heq ▸ hmem₁') (h.fresh_target hm₁')
    · exact hlinked.single id₁ m₁' id₂ m₂' tag hm₁' hm₂' hmem₁' hmem₂'
  · rcases update_cases hm₁ with ⟨-, rfl⟩ | ⟨-, hm₀⟩
    · refine ⟨fun hstate => absurd hstate hopen, fun _ => by simp, ?_⟩
      refine List.nodup_append.mpr ⟨(hlinked.sound id m hm).nodup, nodup_singleton _, ?_⟩
      intro target htarget last hlast heq
      rw [heq, mem_singleton.mp hlast] at htarget
      exact h.fresh_target hm htarget
    · exact hlinked.sound other m₁ hm₀
  · obtain ⟨m₀, hm₀⟩ : ∃ m₀, s.initManagers (.dynamic dynamic) = some m₀ := by
      rcases update_cases hm₁ with ⟨rfl, -⟩ | ⟨-, hm₀⟩
      · exact ⟨m, hm⟩
      · exact ⟨m₁, hm₀⟩
    obtain ⟨object, hobject | hdying, htag, hlds, hproviders⟩ := hlinked.owner dynamic m₀ hm₀
    · obtain ⟨after, hafter, htag', hworkers, -, hgets, hkept⟩ :=
        @hold_of_mem _ _ s s.nextProviderTag listenerTag object hobject
      refine ⟨after, .inl hafter, htag'.trans htag, fun hmem => ?_, fun tag hmem => ?_⟩
      · rcases update_cases hm₁ with ⟨rfl, rfl⟩ | ⟨-, hsame⟩
        · cases hm.symm.trans hm₀
          simp [hlds] at hmem
        · cases hsame.symm.trans hm₀
          exact hlds hmem
      · rcases hmanager hm₁ hmem with ⟨rfl, rfl⟩ | ⟨m₀', hm₀', hmem₀⟩
        · -- the manager is that of the object that gets the provider
          have hdynamic : owner.initManager = .dynamic dynamic := hownerId
          rw [ListenerObject.initManager] at hdynamic
          split at hdynamic
          · rename_i hstarted
            obtain rfl := inj_on_of_nodup_map h.held.distinct hobject howner
              (htag.trans (ManagerId.dynamic.inj hdynamic).symm)
            exact ⟨hgets hownerTag, hworkers.trans hstarted⟩
          · cases hdynamic
        · cases hm₀'.symm.trans hm₀
          exact ⟨hkept tag (hproviders tag hmem₀).1, hworkers.trans (hproviders tag hmem₀).2⟩
    · cases hdying

theorem Core.register (rds : Rds) (hm : s.initManagers id = some m)
    (hopen : m.state ≠ .initialized)
    (hid : ∃ object ∈ s.objects, object.listenerTag = listenerTag ∧ object.initManager = id)
    (honly : ∀ other, Target.provider other ∈ unstarted → other = s.nextProviderTag)
    (hwhen : m.state = .notInitialized ∨ .provider s.nextProviderTag ∈ unstarted) :
    Core (s.registered listenerTag rds id m) unstarted none := by
  have hlinked := Linked.register h rds hm hopen hid honly hwhen
  have halive (other : Nat) (p : RdsRouteConfigProviderImpl) (hp : s.providers other = some p) :
      (s.registered listenerTag rds id m).providers other = some p :=
    (setProvider_ne (Nat.ne_of_lt (h.held.fresh other p hp))).trans hp
  have hself : (s.registered listenerTag rds id m).initManagers id =
      some { m with targets := m.targets ++ [.provider s.nextProviderTag] } := update_self ..
  refine ⟨hlinked, ⟨?_, h.served.warming, fun hcallback => ?_, fun m₁ hm₁ hearly hmem => ?_,
    h.served.safe⟩, ⟨fun object hobject other hmem => ?_, fun object hobject => ?_,
      fun object hobject hworkers => ?_, (congrArg List.Nodup hold_tags).mpr h.held.distinct,
      fun entry hentry => ?_, fun other p hp => ?_⟩⟩
  · obtain ⟨m₀, hm₀, hiff⟩ := h.served.server
    by_cases hserver : id = .server
    · subst hserver
      cases hm₀.symm.trans hm
      exact ⟨_, hself, hiff⟩
    · exact ⟨m₀, (setInitManager_ne fun heq => hserver heq.symm).trans hm₀, hiff⟩
  · obtain ⟨m₀, hm₀, hmem⟩ := h.served.lds hcallback
    by_cases hserver : id = .server
    · subst hserver
      cases hm₀.symm.trans hm
      exact ⟨_, hself, mem_append_left _ hmem⟩
    · exact ⟨m₀, (setInitManager_ne fun heq => hserver heq.symm).trans hm₀, hmem⟩
  · rcases update_cases hm₁ with ⟨rfl, rfl⟩ | ⟨-, hm₀⟩
    · exact h.served.early m hm hearly (by simpa using hmem)
    · exact h.served.early m₁ hm₀ hearly hmem
  · obtain ⟨before, hbefore, -, -, -, hproviders⟩ := mem_hold hobject
    rcases hproviders other hmem with hmem | ⟨rfl, -⟩
    · obtain ⟨p, hp⟩ := h.held.alive before hbefore other hmem
      exact ⟨p, halive other p hp⟩
    · exact ⟨_, setProvider_self ..⟩
  · obtain ⟨before, hbefore, htag, -⟩ := mem_hold hobject
    exact htag ▸ (h.held.setInitManager id _).managers before hbefore
  · obtain ⟨before, hbefore, -, hsame, -⟩ := mem_hold hobject
    exact h.held.workers before hbefore (hsame.trans hworkers)
  · obtain ⟨p, hp, hrds⟩ := h.held.known entry hentry
    exact ⟨p, halive _ p hp, hrds⟩
  · rcases update_cases hp with ⟨rfl, -⟩ | ⟨-, hold⟩
    · exact Nat.lt_succ_self _
    · exact Nat.lt_succ_of_lt (h.held.fresh other p hold)

theorem Core.insert (hp : s.providers tag = some p)
    (hrds : p.managerIdentifier = rds) :
    Core { s with routeConfigProviders := (rds, tag) :: s.routeConfigProviders } [] none := by
  refine ⟨h.linked.same rfl rfl rfl,
    { h.served with }, { h.held with known := fun entry hentry => ?_ }⟩
  rcases mem_cons.mp hentry with rfl | hentry
  · exact ⟨p, hp, hrds⟩
  · exact h.held.known entry hentry

end

/-- The new listener is there, and its init manager takes targets. -/
structure Open (s : ListenerInit Name Address) (new : ListenerObject) : Prop where
  object : ∃ object ∈ s.objects, object.listenerTag = new.listenerTag ∧
    object.workersStarted = new.workersStarted
  manager : ∃ m, s.initManagers new.initManager = some m ∧ m.state ≠ .initialized ∧
    (new.initManager ≠ .server → m.state = .notInitialized)

/-- What the constructor leaves. -/
structure Built (new : ListenerObject) (s s' : ListenerInit Name Address) : Prop where
  kept : ListenerManager.Kept s.manager s'.manager
  workers : s.manager.workersStarted = true → s'.manager.workersStarted = true
  tags : s'.objects.map ListenerObject.listenerTag = s.objects.map ListenerObject.listenerTag
  others : ∀ object ∈ s.objects, object.listenerTag ≠ new.listenerTag → object ∈ s'.objects
  before : ∀ object ∈ s'.objects, object.listenerTag ≠ new.listenerTag → object ∈ s.objects
  holds : ∀ object ∈ s.objects, object.listenerTag = new.listenerTag →
    ∃ after ∈ s'.objects, after.listenerTag = new.listenerTag ∧
      ∀ tag ∈ object.providers, tag ∈ after.providers
  found : ∀ rds tag, s.findProvider rds = some tag → s'.findProvider rds = some tag
  starting : s'.isStarting = true → s.isStarting = true ∧ s'.manager = s.manager

theorem Built.refl (new : ListenerObject) (s : ListenerInit Name Address) : Built new s s :=
  ⟨.refl _, id, rfl, fun _ hmem _ => hmem, fun _ hmem _ => hmem,
    fun object hmem htag => ⟨object, hmem, htag, fun _ h => h⟩, fun _ _ h => h, fun h => ⟨h, rfl⟩⟩

theorem Built.trans {s'' : ListenerInit Name Address} (h : Built new s s') (h' : Built new s' s'') :
    Built new s s'' := by
  refine ⟨h.kept.trans h'.kept, fun hw => h'.workers (h.workers hw), h'.tags.trans h.tags,
    fun object hmem hne => h'.others object (h.others object hmem hne) hne,
    fun object hmem hne => h.before object (h'.before object hmem hne) hne,
    fun object hmem htag => ?_, fun rds tag hfound => h'.found rds tag (h.found rds tag hfound),
    fun hstarting => ⟨(h.starting (h'.starting hstarting).1).1,
      (h'.starting hstarting).2.trans (h.starting (h'.starting hstarting).1).2⟩⟩
  obtain ⟨middle, hmiddle, htag₁, hproviders₁⟩ := h.holds object hmem htag
  obtain ⟨after, hafter, htag₂, hproviders₂⟩ := h'.holds middle hmiddle htag₁
  exact ⟨after, hafter, htag₂, fun tag hmem => hproviders₂ tag (hproviders₁ tag hmem)⟩

theorem hold_built (s : ListenerInit Name Address) (new : ListenerObject) (tag : Nat) :
    Built new s (s.hold new.listenerTag tag) := by
  refine ⟨.refl _, id, hold_tags, fun object hmem hne => ?_, fun object hmem hne => ?_,
    fun object hmem htag => ?_, fun _ _ h => h, fun h => ⟨h, rfl⟩⟩
  · obtain ⟨after, hafter, -, -, hsame, -⟩ := @hold_of_mem _ _ s tag new.listenerTag object hmem
    exact hsame hne ▸ hafter
  · obtain ⟨before, hbefore, htag, -, hsame, -⟩ := mem_hold hmem
    exact hsame (htag ▸ hne) ▸ hbefore
  · obtain ⟨after, hafter, hsame, -, -, -, hproviders⟩ :=
      @hold_of_mem _ _ s tag new.listenerTag object hmem
    exact ⟨after, hafter, hsame.trans htag, hproviders⟩

theorem Open.initManager (h : Open s new) (hheld : Held s) (hobject : object ∈ s.objects)
    (htag : object.listenerTag = new.listenerTag) :
    object.initManager = new.initManager := by
  obtain ⟨other, hother, hotherTag, hworkers⟩ := h.object
  obtain rfl := inj_on_of_nodup_map hheld.distinct hobject hother (htag.trans hotherTag.symm)
  exact initManager_congr hotherTag hworkers

theorem findProvider_cons (s : ListenerInit Name Address) (rds other : Rds) (tag : Nat) :
    ({ s with routeConfigProviders := (rds, tag) :: s.routeConfigProviders } :
      ListenerInit Name Address).findProvider other =
      if rds = other then some tag else s.findProvider other := by
  rw [findProvider, find?_cons]
  by_cases h : rds = other <;> simp [h, findProvider]

theorem Held.of_findProvider (h : Held s) (hfound : s.findProvider rds = some tag) :
    ∃ p, s.providers tag = some p ∧ p.managerIdentifier = rds := by
  obtain ⟨entry, hentry, rfl⟩ := Option.map_eq_some_iff.mp hfound
  obtain ⟨p, hp, hrds⟩ := h.known entry (mem_of_find?_eq_some hentry)
  exact ⟨p, hp, hrds.trans (by simpa using find?_some hentry)⟩

section Names

variable [DecidableEq Name]

theorem registerTarget_eq (sync : Nat → List Answer) (target : Target)
    (hm : s.initManagers id = some m) (hopen : m.state ≠ .initialized) :
    s.registerTarget sync id target =
      if m.state = .initializing then
        (s.setInitManager id { m with targets := m.targets ++ [target] }).initializeTarget sync
          id target
      else s.setInitManager id { m with targets := m.targets ++ [target] } := by
  rw [registerTarget, hm]
  dsimp only
  split
  · rename_i hstate
    exact absurd hstate hopen
  · rename_i hstate
    rw [if_pos hstate]
  · rename_i hstate
    rw [if_neg (by simp [hstate])]

theorem Core.registerNew (h : Core s [] none) (sync : Nat → List Answer) (hopen : Open s new)
    (hnew : s.findProvider rds = none) : ∃ m s₁, s.initManagers new.initManager = some m ∧
      s.getRouteConfigProvider sync new rds =
        { s₁ with routeConfigProviders := (rds, s.nextProviderTag) :: s₁.routeConfigProviders } ∧
      Core s₁ [] none ∧
      Frame s.nextProviderTag (s.registered new.listenerTag rds new.initManager m) s₁ ∧
      Shareable s₁ new.initManager s.nextProviderTag ∧
      ∃ m₁, s₁.initManagers new.initManager = some m₁ ∧ m₁.state ≠ .initialized ∧
        (new.initManager ≠ .server → m₁.state = .notInitialized) := by
  obtain ⟨m, hm, hstate, hdynamic⟩ := hopen.manager
  have hid : ∃ object ∈ s.objects, object.listenerTag = new.listenerTag ∧
      object.initManager = new.initManager := by
    obtain ⟨object, hobject, htag, -⟩ := hopen.object
    exact ⟨object, hobject, htag, hopen.initManager h.held hobject htag⟩
  have hself : (s.registered new.listenerTag rds new.initManager m).initManagers new.initManager =
      some { m with targets := m.targets ++ [.provider s.nextProviderTag] } := update_self ..
  have hbefore : ({ (s.setProvider s.nextProviderTag (.create rds)).hold new.listenerTag
      s.nextProviderTag with nextProviderTag := s.nextProviderTag + 1 } :
        ListenerInit Name Address).initManagers new.initManager = some m := hm
  rw [getRouteConfigProvider, hnew]
  dsimp only
  rw [registerTarget_eq sync _ hbefore hstate]
  cases hcase : m.state with
  | initialized => exact absurd hcase hstate
  | notInitialized =>
    have hcore := @Core.register _ _ s [] _ _ _ h rds hm hstate hid nofun (.inl hcase)
    refine ⟨m, _, hm, ?_, hcore, .refl _ _, ⟨_, setProvider_self .., .inr ⟨_, hself, by simp⟩⟩, _,
      hself, hstate, hdynamic⟩
    rw [if_neg nofun, ← hcase]
    rfl
  | initializing =>
    have hcore := @Core.register _ _ s [.provider s.nextProviderTag] _ _ _ h rds hm hstate hid
      (fun other hmem => Target.provider.inj (mem_singleton.mp hmem))
      (.inr mem_cons_self)
    obtain ⟨hcore₁, hframe⟩ := hcore.initializeProvider sync not_mem_nil hself (by simp)
      hcase
    refine ⟨m, _, hm, ?_, hcore₁, hframe, ?_, ?_⟩
    · rw [if_pos rfl, ← hcase]
      rfl
    · obtain ⟨p, hp, -⟩ := hframe.self _ (setProvider_self ..)
      refine ⟨p, hp, ?_⟩
      cases hanswered : p.answered with
      | true => exact .inl rfl
      | false =>
        obtain ⟨other, m', hwaits⟩ := hcore₁.linked.waits _ p hp hanswered
        obtain ⟨m₀, hm₀, hsub⟩ := hframe.shrinks other m' hwaits.manager
        obtain rfl := hcore.linked.single other m₀ _ _ _ hm₀ hself (hsub _ hwaits.target) (by simp)
        exact .inr ⟨m', hwaits.manager, hwaits.target⟩
    -- the targets that were there before are left
    obtain ⟨m₁, hm₁, hkept, hsame⟩ := hframe.managers _ _ hself
    obtain ⟨target, htarget⟩ := exists_mem_of_ne_nil _
      ((h.linked.sound _ m hm).nonempty hcase)
    have hleft : target ∈ m₁.targets := hkept target (mem_append_left _ htarget)
      fun heq => h.fresh_target hm (heq ▸ htarget)
    refine ⟨m₁, hm₁, fun hdone => ?_, fun hne => absurd (hcase.symm.trans (hdynamic hne)) nofun⟩
    exact ne_nil_of_mem hleft ((hcore₁.linked.sound _ m₁ hm₁).empty hdone)

theorem Core.getRouteConfigProvider (h : Core s [] none) (sync : Nat → List Answer)
    (hopen : Open s new)
    (hshare : ∀ tag, s.findProvider rds = some tag → Shareable s new.initManager tag) :
    Core (s.getRouteConfigProvider sync new rds) [] none ∧
      Open (s.getRouteConfigProvider sync new rds) new ∧
      Built new s (s.getRouteConfigProvider sync new rds) ∧
      (∃ object ∈ (s.getRouteConfigProvider sync new rds).objects,
        object.listenerTag = new.listenerTag ∧
        ∀ tag, s.findProvider rds = some tag → tag ∈ object.providers) ∧
      ∀ other tag, (s.getRouteConfigProvider sync new rds).findProvider other = some tag →
        (s.findProvider other = some tag → Shareable s new.initManager tag) →
        Shareable (s.getRouteConfigProvider sync new rds) new.initManager tag := by
  obtain ⟨object, hobject, hobjectTag, hworkers⟩ := hopen.object
  cases hfound : s.findProvider rds with
  | some tag =>
    have heq : s.getRouteConfigProvider sync new rds = s.hold new.listenerTag tag := by
      rw [ListenerInit.getRouteConfigProvider, hfound]
    rw [heq]
    obtain ⟨after, hafter, htag, hsame, -, hgets, -⟩ :=
      @hold_of_mem _ _ s tag new.listenerTag object hobject
    refine ⟨h.hold (fun object hobject htag => hopen.initManager h.held hobject htag)
      (hshare tag hfound), ⟨⟨after, hafter, htag.trans hobjectTag, hsame.trans hworkers⟩,
      hopen.manager⟩, hold_built s new tag, ⟨after, hafter, htag.trans hobjectTag, ?_⟩,
      fun other found hother hbefore => hbefore hother⟩
    rintro _ ⟨⟩
    exact hgets hobjectTag
  | none =>
    obtain ⟨m, s₁, hm, heq, hcore, hframe, hnew, hmanager⟩ := h.registerNew sync hopen hfound
    rw [heq]
    obtain ⟨p, hp, hrds⟩ := hframe.self _ (setProvider_self ..)
    have hbuilt := hold_built s new s.nextProviderTag
    have hobjects : s₁.objects = (s.hold new.listenerTag s.nextProviderTag).objects :=
      hframe.objects
    have hmap (other : Rds) : s₁.findProvider other = s.findProvider other := by
      rw [findProvider, findProvider, hframe.map]
      rfl
    obtain ⟨after, hafter, htag, hsame, -⟩ :=
      @hold_of_mem _ _ s s.nextProviderTag new.listenerTag object hobject
    refine ⟨hcore.insert hp hrds, ⟨⟨after, hobjects ▸ hafter, htag.trans hobjectTag,
      hsame.trans hworkers⟩, hmanager⟩, ⟨hframe.kept, hframe.workers, ?_, ?_, ?_, ?_,
      fun other tag hother => ?_, fun hstarting => ?_⟩, ⟨after, hobjects ▸ hafter,
      htag.trans hobjectTag, nofun⟩, fun other tag hother hbefore => ?_⟩
    · exact (congrArg _ hobjects).trans hbuilt.tags
    · exact fun object hmem hne => hobjects ▸ hbuilt.others object hmem hne
    · exact fun object hmem hne => hbuilt.before object (hobjects ▸ hmem) hne
    · exact fun object hmem htag => hobjects ▸ hbuilt.holds object hmem htag
    · rw [findProvider_cons, if_neg fun hsame => ?_, hmap]
      · exact hother
      · rw [← hsame, hfound] at hother
        cases hother
    · obtain ⟨hbefore, hsame⟩ := hframe.starting hstarting
      refine ⟨?_, hsame⟩
      obtain ⟨m', hm', hearly⟩ := isStarting_iff.mp hbefore
      rcases update_cases hm' with ⟨hid, rfl⟩ | ⟨-, hm₀⟩
      · exact isStarting_iff.mpr ⟨m, hid ▸ hm, hearly⟩
      · exact isStarting_iff.mpr ⟨m', hm₀, hearly⟩
    · rw [findProvider_cons, hmap] at hother
      split at hother
      · cases hother
        exact hnew
      · obtain ⟨p, hp, hwhen⟩ := hbefore hother
        have hne : tag ≠ s.nextProviderTag := Nat.ne_of_lt (h.held.fresh tag p hp)
        refine ⟨p, (hframe.others tag hne).trans ((setProvider_ne hne).trans hp), ?_⟩
        refine hwhen.imp_right fun ⟨m', hm', hmem⟩ => ?_
        cases hm.symm.trans hm'
        obtain ⟨m₂, hm₂, hkept, -⟩ := hframe.managers new.initManager _ (update_self ..)
        exact ⟨m₂, hm₂, hkept _ (mem_append_left _ hmem) fun heq =>
          hne (Target.provider.inj heq)⟩

theorem Core.createFilters (h : Core s [] none) (sync : Nat → List Answer) (hopen : Open s new)
    {filters : List Rds} (hshare : ∀ rds ∈ filters, ∀ tag, s.findProvider rds = some tag →
      Shareable s new.initManager tag) :
    Core (filters.foldl (ListenerInit.getRouteConfigProvider sync new) s) [] none ∧
      Open (filters.foldl (ListenerInit.getRouteConfigProvider sync new) s) new ∧
      Built new s (filters.foldl (ListenerInit.getRouteConfigProvider sync new) s) ∧
      ∀ rds ∈ filters, ∀ tag, s.findProvider rds = some tag →
        ∃ object ∈ (filters.foldl (ListenerInit.getRouteConfigProvider sync new) s).objects,
          object.listenerTag = new.listenerTag ∧ tag ∈ object.providers := by
  induction filters generalizing s with
  | nil => exact ⟨h, hopen, .refl new s, nofun⟩
  | cons rds rest ih =>
    obtain ⟨hcore, hopen₁, hbuilt, ⟨object, hobject, htag, hgets⟩, hshare₁⟩ :=
      h.getRouteConfigProvider sync hopen (hshare rds mem_cons_self)
    obtain ⟨hcore₂, hopen₂, hbuilt₂, hholds⟩ := ih hcore hopen₁ fun other hmem tag hfound =>
      hshare₁ other tag hfound (hshare other (mem_cons_of_mem _ hmem) tag)
    refine ⟨hcore₂, hopen₂, hbuilt.trans hbuilt₂, fun other hmem tag hfound => ?_⟩
    rcases mem_cons.mp hmem with rfl | hmem
    · obtain ⟨after, hafter, hafterTag, hproviders⟩ := hbuilt₂.holds object hobject htag
      exact ⟨after, hafter, hafterTag, hproviders tag (hgets tag hfound)⟩
    · exact hholds other hmem tag (hbuilt.found other tag hfound)

end Names

def added (s : ListenerInit Name Address) (new : ListenerObject) : ListenerInit Name Address :=
  { s.setInitManager (.dynamic new.listenerTag) ⟨.notInitialized, []⟩ with
    objects := s.objects ++ [new] }

theorem added_server : (s.added new).initManagers .server = s.initManagers .server := by
  have hne : ManagerId.server ≠ .dynamic new.listenerTag := nofun
  exact update_of_ne hne (some ⟨.notInitialized, []⟩) s.initManagers

theorem Core.add (h : Core s [] none) (hproviders : new.providers = [])
    (hfresh : ∀ object ∈ s.objects, object.listenerTag ≠ new.listenerTag)
    (hworkers : new.workersStarted = true → s.manager.workersStarted = true) :
    Core (s.added new) [] none := by
  have hnone (m : InitManagerImpl) : s.initManagers (.dynamic new.listenerTag) ≠ some m := by
    intro hm
    obtain ⟨object, hobject | hdying, htag, -⟩ := h.linked.owner _ m hm
    · exact hfresh object hobject htag
    · cases hdying
  have hbefore {other : ManagerId} {m : InitManagerImpl}
      (hm : s.initManagers other = some m) : (s.added new).initManagers other = some m := by
    refine (setInitManager_ne fun heq => ?_).trans hm
    exact hnone m (heq ▸ hm)
  have hafter {other : ManagerId} {m : InitManagerImpl} {target : Target}
      (hm : (s.added new).initManagers other = some m) (hmem : target ∈ m.targets) :
      s.initManagers other = some m := by
    rcases update_cases hm with ⟨-, rfl⟩ | ⟨-, hm⟩
    · cases hmem
    · exact hm
  have hwaits {tag : Nat} {p : RdsRouteConfigProviderImpl} {id : ManagerId} {m : InitManagerImpl}
      (hwaits : Waits s [] tag p id m) :
      Waits (s.added new) [] tag p id m := by
    refine hwaits.transfer (hbefore hwaits.manager) hwaits.target rfl Iff.rfl
      fun object hobject htag => ?_
    rcases mem_append.mp hobject with hobject | hobject
    · exact ⟨object, hobject, htag, rfl⟩
    · rw [mem_singleton.mp hobject, hproviders] at htag
      cases htag
  refine ⟨⟨h.linked.settled, fun tag p hp hwaiting => ?_, fun id m hm halive tag hmem => ?_,
    fun id₁ m₁ id₂ m₂ tag hm₁ hm₂ hmem₁ hmem₂ => ?_, fun id m hm => ?_, fun listenerTag m hm => ?_⟩,
    ⟨?_, h.served.warming, fun hcallback => ?_, fun m hm hearly hmem => ?_, h.served.safe⟩,
    ⟨fun object hobject => ?_, fun object hobject => ?_, fun object hobject => ?_, ?_, h.held.known,
      h.held.fresh⟩⟩
  · obtain ⟨id, m, hbefore⟩ := h.linked.waits tag p hp hwaiting
    exact ⟨id, m, hwaits hbefore⟩
  · obtain ⟨p, hp, hwaiting, hbefore⟩ := h.linked.targets id m (hafter hm hmem) nofun tag hmem
    exact ⟨p, hp, hwaiting, hwaits hbefore⟩
  · exact h.linked.single id₁ m₁ id₂ m₂ tag (hafter hm₁ hmem₁) (hafter hm₂ hmem₂) hmem₁ hmem₂
  · rcases update_cases hm with ⟨-, rfl⟩ | ⟨-, hm⟩
    · exact ⟨fun _ => rfl, nofun, nodup_nil⟩
    · exact h.linked.sound id m hm
  · rcases update_cases hm with ⟨heq, rfl⟩ | ⟨-, hm⟩
    · exact ⟨new, .inl (mem_append_right _ (mem_singleton_self _)),
        (ManagerId.dynamic.inj heq).symm, nofun, nofun⟩
    · obtain ⟨object, hobject | hdying, hrest⟩ := h.linked.owner listenerTag m hm
      · exact ⟨object, .inl (mem_append_left _ hobject), hrest⟩
      · cases hdying
  · obtain ⟨m, hm, hiff⟩ := h.served.server
    exact ⟨m, hbefore hm, hiff⟩
  · obtain ⟨m, hm, hmem⟩ := h.served.lds hcallback
    exact ⟨m, hbefore hm, hmem⟩
  · exact h.served.early m (hafter hm hmem) hearly hmem
  · rcases mem_append.mp hobject with hobject | hobject
    · exact h.held.alive object hobject
    · rw [mem_singleton.mp hobject, hproviders]
      nofun
  · rcases mem_append.mp hobject with hobject | hobject
    · obtain ⟨m, hm⟩ := h.held.managers object hobject
      exact ⟨m, hbefore hm⟩
    · rw [mem_singleton.mp hobject]
      exact ⟨_, setInitManager_self ..⟩
  · rcases mem_append.mp hobject with hobject | hobject
    · exact h.held.workers object hobject
    · rw [mem_singleton.mp hobject]
      exact hworkers
  · rw [added, map_append]
    refine List.nodup_append.mpr ⟨h.held.distinct, nodup_singleton _,
      fun tag htag last hlast heq => ?_⟩
    obtain ⟨object, hobject, rfl⟩ := mem_map.mp htag
    exact hfresh object hobject (heq.trans (mem_singleton.mp hlast))

section Names

variable [DecidableEq Name]

theorem Core.createListener (h : Core s [] none) (sync : Nat → List Answer) {filters : List Rds}
    (hbelow : ∀ object ∈ s.objects, object.listenerTag < s.manager.nextListenerTag)
    (hshare : s.manager.workersStarted = true → ∀ rds ∈ filters, ∀ tag ∈ s.findProvider rds,
      ∀ p ∈ s.providers tag, p.answered = true) : Core (s.createListener sync filters) [] none ∧
      Open (s.createListener sync filters)
        ⟨s.manager.nextListenerTag, s.manager.workersStarted, []⟩ ∧
      Built ⟨s.manager.nextListenerTag, s.manager.workersStarted, []⟩
        (s.added ⟨s.manager.nextListenerTag, s.manager.workersStarted, []⟩)
        (s.createListener sync filters) ∧ ∀ rds ∈ filters, ∀ tag, s.findProvider rds = some tag →
        ∃ object ∈ (s.createListener sync filters).objects,
          object.listenerTag = s.manager.nextListenerTag ∧ tag ∈ object.providers := by
  have hcore := @Core.add _ _ s ⟨s.manager.nextListenerTag, s.manager.workersStarted, []⟩ h rfl
    (fun object hobject => Nat.ne_of_lt (hbelow object hobject)) id
  have hopen : Open (s.added ⟨s.manager.nextListenerTag, s.manager.workersStarted, []⟩)
      ⟨s.manager.nextListenerTag, s.manager.workersStarted, []⟩ := by
    refine ⟨⟨_, mem_append_right _ (mem_singleton_self _), rfl, rfl⟩, ?_⟩
    rw [ListenerObject.initManager]
    split
    · exact ⟨⟨.notInitialized, []⟩, setInitManager_self .., by simp, fun _ => rfl⟩
    · rename_i hstill
      obtain ⟨m, hm, hiff⟩ := h.served.server
      exact ⟨m, added_server.trans hm, fun hdone => hstill (hiff.mp hdone),
        fun hne => absurd rfl hne⟩
  refine hcore.createFilters sync hopen fun rds hmem tag hfound => ?_
  obtain ⟨p, hp, -⟩ := h.held.of_findProvider hfound
  refine ⟨p, hp, ?_⟩
  cases hanswered : p.answered with
  | true => exact .inl rfl
  | false =>
    -- before the workers have started every target is the server's
    have hstill : s.manager.workersStarted = false := Bool.eq_false_iff.mpr fun hstarted =>
      absurd (hanswered.symm.trans (hshare hstarted rds hmem tag hfound p hp)) nofun
    obtain ⟨id, m, hwaits⟩ := h.linked.waits tag p hp hanswered
    right
    rw [ListenerObject.initManager, hstill]
    cases id with
    | server => exact ⟨m, added_server.trans hwaits.manager, hwaits.target⟩
    | dynamic listenerTag =>
      obtain ⟨object, hobject | hdying, -, -, hheld⟩ := h.linked.owner listenerTag m hwaits.manager
      · have hstarted := h.held.workers object hobject (hheld tag hwaits.target).2
        cases hstill.symm.trans hstarted
      · cases hdying

end Names

end ListenerInit

end Meliproxy.Envoy.Server
