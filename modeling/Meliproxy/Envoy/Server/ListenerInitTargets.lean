import Meliproxy.Envoy.Server.ListenerInitProviders

/-!
# Targets are registered and initialized

The loop of `InitManagerImpl::initialize` starts one target after the other, and each may answer
before the next is started. A new provider is registered with the init manager of the listener that
gets it, and started at once if that manager is initializing.
-/

namespace Meliproxy.Envoy.Server

open Lib List Function

namespace ListenerInit

variable {Name Address : Type} {s s' : ListenerInit Name Address} {unstarted : List Target}
  {tag : Nat} {p : RdsRouteConfigProviderImpl} {id : ManagerId}
  {m : InitManagerImpl}

/-- What the start of targets leaves as it is. -/
structure Still (s s' : ListenerInit Name Address) : Prop where
  objects : s'.objects = s.objects
  map : s'.routeConfigProviders = s.routeConfigProviders
  kept : ListenerManager.Kept s.manager s'.manager
  workers : s.manager.workersStarted = true → s'.manager.workersStarted = true
  starting : s'.isStarting = true → s.isStarting = true

theorem Still.refl (s : ListenerInit Name Address) : Still s s := ⟨rfl, rfl, .refl _, id, id⟩

theorem Still.trans {s'' : ListenerInit Name Address} (h : Still s s') (h' : Still s' s'') :
    Still s s'' :=
  ⟨h'.objects.trans h.objects, h'.map.trans h.map, h.kept.trans h'.kept,
    fun hstarted => h'.workers (h.workers hstarted),
    fun hstarting => h.starting (h'.starting hstarting)⟩

theorem Frame.still (h : Frame tag s s') : Still s s' :=
  { h with starting := fun hstarting => (h.starting hstarting).1 }

theorem Linked.congr {dying : Option ListenerObject} (h : Linked s unstarted dying)
    {unstarted' : List Target}
    (hsame : ∀ tag, Target.provider tag ∈ unstarted' ↔ .provider tag ∈ unstarted) :
    Linked s unstarted' dying := by
  refine ⟨h.settled, fun tag p hp hanswered => ?_, fun id m hm halive tag hmem => ?_,
    h.single, h.sound,
    h.owner⟩
  · obtain ⟨id, m, hwaits⟩ := h.waits tag p hp hanswered
    exact ⟨id, m, hwaits.transfer hwaits.manager hwaits.target rfl (hsame tag)
      fun object hobject htag => ⟨object, hobject, htag, rfl⟩⟩
  · obtain ⟨p, hp, hanswered, hwaits⟩ := h.targets id m hm halive tag hmem
    exact ⟨p, hp, hanswered, hwaits.transfer hwaits.manager hwaits.target rfl (hsame tag)
      fun object hobject htag => ⟨object, hobject, htag, rfl⟩⟩

theorem Core.start (h : Core s (.provider tag :: unstarted) none) (hnot : .provider tag ∉ unstarted)
    (hm : s.initManagers id = some m) (hmem : .provider tag ∈ m.targets)
    (hstate : m.state = .initializing) : ∃ p, s.providers tag = some p ∧
      Core (s.setProvider tag { p with initializeCallback := some id, starts := p.starts + 1 })
        unstarted none ∧
      Frame tag s
        (s.setProvider tag { p with initializeCallback := some id, starts := p.starts + 1 }) := by
  obtain ⟨p, hp, hanswered, hwaits⟩ := h.linked.targets id m hm nofun tag hmem
  have hzero : p.starts = 0 := by
    cases hwaits.phase with
    | registered hzero => exact hzero
    | started _ _ _ hnotMem => exact absurd mem_cons_self hnotMem
  have hframe : Frame tag s
      (s.setProvider tag { p with initializeCallback := some id, starts := p.starts + 1 }) := by
    refine ⟨rfl, rfl, rfl, fun other hne => update_of_ne hne .., fun p₁ hp₁ => ?_,
      fun _ m hm => ⟨m, hm, fun _ hmem _ => hmem, Iff.rfl⟩,
      fun _ m hm => ⟨m, hm, fun _ hmem => hmem⟩, .refl _, fun h => h, fun h => ⟨h, rfl⟩⟩
    cases hp.symm.trans hp₁
    exact ⟨_, update_self .., rfl⟩
  have hnew : Waits (s.setProvider tag { p with
      initializeCallback := some id, starts := p.starts + 1 }) unstarted tag
      { p with initializeCallback := some id, starts := p.starts + 1 } id m :=
    ⟨hm, hmem, .started (by simp [hzero]) rfl hstate hnot, hwaits.holders⟩
  have hother {other : Nat} {p₁ : RdsRouteConfigProviderImpl} {id₁ : ManagerId}
      {m₁ : InitManagerImpl} (hne : other ≠ tag)
      (hwaits : Waits s (.provider tag :: unstarted) other p₁ id₁ m₁) :
      Waits (s.setProvider tag { p with
        initializeCallback := some id, starts := p.starts + 1 }) unstarted other p₁ id₁ m₁ :=
    hwaits.transfer hwaits.manager hwaits.target rfl (by simp [hne])
      fun object hobject htag => ⟨object, hobject, htag, rfl⟩
  refine ⟨p, hp, ⟨⟨fun other p₁ hp₁ hsettled => ?_, fun other p₁ hp₁ hwaiting => ?_,
    fun id₁ m₁ hm₁ halive₁ other hmem₁ => ?_, h.linked.single, h.linked.sound, h.linked.owner⟩,
    { h.served with },
    h.held.frame hframe hp⟩, hframe⟩
  · rcases update_cases hp₁ with ⟨-, rfl⟩ | ⟨-, hold⟩
    · cases hanswered.symm.trans hsettled
    · exact h.linked.settled other p₁ hold hsettled
  · rcases update_cases hp₁ with ⟨rfl, rfl⟩ | ⟨hne, hold⟩
    · exact ⟨id, m, hnew⟩
    · obtain ⟨id₁, m₁, hwaits₁⟩ := h.linked.waits other p₁ hold hwaiting
      exact ⟨id₁, m₁, hother hne hwaits₁⟩
  · obtain ⟨p₁, hp₁, hwaiting, hwaits₁⟩ := h.linked.targets id₁ m₁ hm₁ halive₁ other hmem₁
    by_cases heq : other = tag
    · subst heq
      obtain rfl := h.linked.single id₁ m₁ id m other hm₁ hm hmem₁ hmem
      cases hm₁.symm.trans hm
      exact ⟨_, update_self .., hanswered, hnew⟩
    · exact ⟨p₁, (update_of_ne heq ..).trans hp₁, hwaiting, hother heq hwaits₁⟩

section Names

variable [DecidableEq Name]

theorem Core.answers (h : Core s unstarted none) (tag : Nat) (answers : List Answer) :
    Core (answers.foldl (fun s answer => s.onAnswer tag answer) s) unstarted none ∧
      Frame tag s (answers.foldl (fun s answer => s.onAnswer tag answer) s) := by
  induction answers generalizing s with
  | nil => exact ⟨h, .refl tag s⟩
  | cons answer rest ih =>
    obtain ⟨hcore, hframe⟩ := h.onAnswer tag answer
    obtain ⟨hcore', hframe'⟩ := ih hcore
    exact ⟨hcore', hframe.trans hframe'⟩

theorem Core.initializeProvider (h : Core s (.provider tag :: unstarted) none)
    (sync : Nat → List Answer) (hnot : .provider tag ∉ unstarted) (hm : s.initManagers id = some m)
    (hmem : .provider tag ∈ m.targets) (hstate : m.state = .initializing) :
    Core (s.initializeTarget sync id (.provider tag)) unstarted none ∧
      Frame tag s (s.initializeTarget sync id (.provider tag)) := by
  obtain ⟨p, hp, hcore, hframe⟩ := h.start hnot hm hmem hstate
  obtain ⟨hcore', hframe'⟩ := hcore.answers tag (sync tag)
  rw [initializeTarget, hp]
  exact ⟨hcore', hframe.trans hframe'⟩

def Ready (s : ListenerInit Name Address) (id : ManagerId) (unstarted : List Target) : Prop :=
  unstarted ≠ [] → ∃ m, s.initManagers id = some m ∧ m.state = .initializing ∧
    ∀ target ∈ unstarted, target ∈ m.targets

theorem Core.initializeTarget {target : Target} (h : Core s (target :: unstarted) none)
    (sync : Nat → List Answer)
    (hnot : target ∉ unstarted) (hready : Ready s id (target :: unstarted))
    (hlds : target = .lds → id = .server) :
    Core (s.initializeTarget sync id target) unstarted none ∧
      Ready (s.initializeTarget sync id target) id unstarted ∧
      Still s (s.initializeTarget sync id target) := by
  obtain ⟨m, hm, hstate, hmem⟩ := hready (cons_ne_nil _ _)
  cases target with
  | lds =>
    refine ⟨⟨?_, { h.served with lds := fun _ => ?_ }, { h.held with }⟩,
      fun _ => ⟨m, hm, hstate, fun target htarget => hmem target (mem_cons_of_mem _ htarget)⟩,
      ⟨rfl, rfl, .refl _, fun h => h, fun h => h⟩⟩
    · have hlinked : Linked s unstarted none := h.linked.congr fun tag => by simp
      exact hlinked.same rfl rfl rfl
    · exact ⟨m, (hlds rfl) ▸ hm, hmem .lds mem_cons_self⟩
  | provider tag =>
    obtain ⟨hcore, hframe⟩ := h.initializeProvider sync hnot hm
      (hmem _ mem_cons_self) hstate
    refine ⟨hcore, fun hne => ?_, hframe.still⟩
    obtain ⟨m', hm', hkept, hsame⟩ := hframe.managers id m hm
    have hleft (target : Target) (htarget : target ∈ unstarted) : target ∈ m'.targets :=
      hkept target (hmem target (mem_cons_of_mem _ htarget)) fun heq => hnot (heq ▸ htarget)
    refine ⟨m', hm', ?_, hleft⟩
    -- a target is left, so the manager has not completed
    obtain ⟨target, htarget⟩ := exists_mem_of_ne_nil unstarted hne
    cases hstate' : m'.state with
    | notInitialized => cases (hsame.mp hstate').symm.trans hstate
    | initializing => rfl
    | initialized =>
      exact absurd ((hcore.linked.sound id m' hm').empty hstate')
        (ne_nil_of_mem (hleft target htarget))

theorem Core.initializeTargets (h : Core s unstarted none) (sync : Nat → List Answer)
    (hnodup : unstarted.Nodup)
    (hready : Ready s id unstarted) (hlds : .lds ∈ unstarted → id = .server) :
    Core (unstarted.foldl (fun s target => s.initializeTarget sync id target) s) [] none ∧
      Still s (unstarted.foldl (fun s target => s.initializeTarget sync id target) s) := by
  induction unstarted generalizing s with
  | nil => exact ⟨h, .refl s⟩
  | cons target rest ih =>
    obtain ⟨hnot, hrest⟩ := nodup_cons.mp hnodup
    obtain ⟨hcore, hready', hstill⟩ := h.initializeTarget sync hnot hready
      fun heq => hlds (heq ▸ mem_cons_self)
    obtain ⟨hcore', hstill'⟩ := ih hcore hrest hready' fun hmem =>
      hlds (mem_cons_of_mem _ hmem)
    exact ⟨hcore', hstill.trans hstill'⟩

end Names

variable {m' : InitManagerImpl}

theorem Linked.setState (h : Linked s [] none) (hm : s.initManagers id = some m)
    (hstate : m.state = .notInitialized) (hsound : m'.Sound)
    (hsame : ∀ tag, Target.provider tag ∈ m'.targets ↔ .provider tag ∈ m.targets)
    (hlds : .lds ∈ m'.targets → id = .server) :
    Linked (s.setInitManager id m') m'.targets none := by
  have hwaits {other : ManagerId} {m₁ : InitManagerImpl} {tag : Nat}
      {p : RdsRouteConfigProviderImpl} (hwaits : Waits s [] tag p other m₁) :
      ∃ m₂, Waits (s.setInitManager id m') m'.targets tag p other m₂ := by
    by_cases hother : other = id
    · subst hother
      cases hwaits.manager.symm.trans hm
      have hmem : .provider tag ∈ m'.targets := (hsame tag).mpr hwaits.target
      refine ⟨m', update_self .., hmem, ?_, hwaits.holders⟩
      cases hwaits.phase with
      | registered hstarts hcallback => exact .registered hstarts hcallback (.inr hmem)
      | started _ _ hwhen => cases hstate.symm.trans hwhen
    · have hnot : .provider tag ∉ m'.targets := fun hmem =>
        hother (h.single other m₁ id m tag hwaits.manager hm hwaits.target ((hsame tag).mp hmem))
      refine ⟨m₁, hwaits.transfer ?_ hwaits.target rfl (by simp [hnot])
        fun object hobject htag => ⟨object, hobject, htag, rfl⟩⟩
      exact (update_of_ne hother ..).trans hwaits.manager
  have hbefore {other : ManagerId} {m₁ : InitManagerImpl}
      (hm₁ : (s.setInitManager id m').initManagers other = some m₁) {tag : Nat}
      (htag : .provider tag ∈ m₁.targets) :
      ∃ m₀, s.initManagers other = some m₀ ∧ .provider tag ∈ m₀.targets := by
    rcases update_cases hm₁ with ⟨rfl, rfl⟩ | ⟨-, hm₀⟩
    · exact ⟨m, hm, (hsame tag).mp htag⟩
    · exact ⟨m₁, hm₀, htag⟩
  refine ⟨h.settled, fun tag p hp hanswered => ?_, fun other m₁ hm₁ halive tag htag => ?_,
    fun id₁ m₁ id₂ m₂ tag hm₁ hm₂ htag₁ htag₂ => ?_, fun other m₁ hm₁ => ?_,
    fun listenerTag m₁ hm₁ => ?_⟩
  · obtain ⟨other, m₁, hwaits₁⟩ := h.waits tag p hp hanswered
    exact ⟨other, hwaits hwaits₁⟩
  · obtain ⟨m₀, hm₀, htag₀⟩ := hbefore hm₁ htag
    obtain ⟨p, hp, hanswered, hwaits₀⟩ := h.targets other m₀ hm₀ nofun tag htag₀
    obtain ⟨m₂, hwaits₂⟩ := hwaits hwaits₀
    cases hwaits₂.manager.symm.trans hm₁
    exact ⟨p, hp, hanswered, hwaits₂⟩
  · obtain ⟨m₁', hm₁', htag₁'⟩ := hbefore hm₁ htag₁
    obtain ⟨m₂', hm₂', htag₂'⟩ := hbefore hm₂ htag₂
    exact h.single id₁ m₁' id₂ m₂' tag hm₁' hm₂' htag₁' htag₂'
  · rcases update_cases hm₁ with ⟨-, rfl⟩ | ⟨-, hm₀⟩
    · exact hsound
    · exact h.sound other m₁ hm₀
  · rcases update_cases hm₁ with ⟨rfl, rfl⟩ | ⟨-, hm₀⟩
    · obtain ⟨object, hobject, htag, -, hheld⟩ := h.owner listenerTag m hm
      exact ⟨object, hobject, htag, fun hmem => absurd (hlds hmem) nofun,
        fun tag hmem => hheld tag ((hsame tag).mp hmem)⟩
    · exact h.owner listenerTag m₁ hm₀

theorem Held.setInitManager (h : Held s) (id : ManagerId) (m : InitManagerImpl) :
    Held (s.setInitManager id m) := by
  refine { h with managers := fun object hobject => ?_ }
  by_cases hid : .dynamic object.listenerTag = id
  · exact ⟨m, hid ▸ update_self ..⟩
  · obtain ⟨m₀, hm₀⟩ := h.managers object hobject
    exact ⟨m₀, (update_of_ne hid ..).trans hm₀⟩

theorem Served.still (h : Served s) (hm : s.initManagers .server = some m)
    (hstate : m.state ≠ .initialized) :
    s.manager.workersStarted = false ∧ s.manager.warming = [] := by
  obtain ⟨m₀, hm₀, hiff⟩ := h.server
  cases hm₀.symm.trans hm
  have hstill : s.manager.workersStarted = false :=
    Bool.eq_false_iff.mpr fun hstarted => hstate (hiff.mpr hstarted)
  exact ⟨hstill, h.warming hstill⟩

theorem starting_set (hm : s.initManagers id = some m)
    (hstate : m.state = .notInitialized) (hstarting : (s.setInitManager id m').isStarting = true) :
    s.isStarting = true := by
  obtain ⟨m₁, hm₁, hearly⟩ := isStarting_iff.mp hstarting
  rcases update_cases hm₁ with ⟨heq, -⟩ | ⟨-, hm₀⟩
  · exact isStarting_iff.mpr ⟨m, heq ▸ hm, hstate⟩
  · exact isStarting_iff.mpr ⟨m₁, hm₀, hearly⟩

theorem begun (hstate : m'.state ≠ .notInitialized) :
    (s.setInitManager .server m').isStarting = false := by
  refine Bool.eq_false_iff.mpr fun hstarting => ?_
  obtain ⟨m₁, hm₁, hearly⟩ := isStarting_iff.mp hstarting
  cases (setInitManager_self s .server m').symm.trans hm₁
  exact hstate hearly

theorem Core.begin (h : Core s [] none) (hm : s.initManagers id = some m)
    (hstate : m.state = .notInitialized) {targets : List Target}
    (hsame : ∀ tag, Target.provider tag ∈ targets ↔ .provider tag ∈ m.targets)
    (hnodup : targets.Nodup) (hne : targets ≠ []) (hlds : .lds ∈ targets → id = .server) :
    Core (s.setInitManager id ⟨.initializing, targets⟩) targets none := by
  refine ⟨h.linked.setState hm hstate ⟨nofun, fun _ => hne, hnodup⟩ hsame hlds,
    ⟨?_, h.served.warming, fun hcallback => ?_, fun m₁ hm₁ hearly => ?_, h.served.safe⟩,
    h.held.setInitManager id _⟩
  · by_cases hid : id = .server
    · subst hid
      refine ⟨_, setInitManager_self .., ?_⟩
      simp [setInitManager, (h.served.still hm (by simp [hstate])).1]
    · obtain ⟨m₀, hm₀, hiff⟩ := h.served.server
      exact ⟨m₀, (setInitManager_ne fun heq => hid heq.symm).trans hm₀, hiff⟩
  · obtain ⟨m₀, hm₀, hmem⟩ := h.served.lds hcallback
    by_cases hid : id = .server
    · subst hid
      obtain rfl : m₀ = m := Option.some.inj (hm₀.symm.trans hm)
      exact absurd hmem (h.served.early m₀ hm₀ hstate)
    · exact ⟨m₀, (setInitManager_ne fun heq => hid heq.symm).trans hm₀, hmem⟩
  · rcases update_cases hm₁ with ⟨-, rfl⟩ | ⟨-, hm₀⟩
    · cases hearly
    · exact h.served.early m₁ hm₀ hearly

section Names

variable [DecidableEq Name]

theorem Core.complete (h : Core s [] none) (hm : s.initManagers id = some m)
    (hstate : m.state = .notInitialized) (hempty : m.targets = []) :
    Core ((s.onInitialized id).setInitManager id ⟨.initialized, []⟩) [] none ∧
      Still s ((s.onInitialized id).setInitManager id ⟨.initialized, []⟩) := by
  have hserver (hid : id = .server) :
      s.manager.workersStarted = false ∧ s.manager.warming = [] := by
    subst hid
    exact h.served.still hm (by simp [hstate])
  obtain ⟨manager, heq, hkept, hstarted⟩ := onInitialized_spec hserver
  rw [heq]
  have hlinked : Linked (s.setInitManager id ⟨.initialized, []⟩) [] none :=
    h.linked.setState hm hstate ⟨fun _ => rfl, by simp, nodup_nil⟩ (by simp [hempty]) (by simp)
  have hheld := h.held.setInitManager id ⟨.initialized, []⟩
  refine ⟨⟨hlinked.same rfl rfl rfl,
    ⟨?_, fun hunstarted => hkept.warming (h.served.warming ?_), fun hcallback => ?_,
      fun m₁ hm₁ hearly => ?_, h.served.safe⟩,
    { hheld with workers := fun object hobject hworkers =>
      hstarted.mpr (.inl (hheld.workers object hobject hworkers)) }⟩,
    rfl, rfl, hkept, fun h => hstarted.mpr (.inl h), starting_set hm hstate⟩
  · by_cases hid : id = .server
    · subst hid
      exact ⟨_, setInitManager_self .., by simp [setInitManager, hstarted]⟩
    · obtain ⟨m₀, hm₀, hiff⟩ := h.served.server
      refine ⟨m₀, (setInitManager_ne fun heq => hid heq.symm).trans hm₀, hiff.trans ?_⟩
      simp [setInitManager, hstarted, hid]
  · refine Bool.eq_false_iff.mpr fun hbefore => ?_
    exact absurd (hunstarted.symm.trans (hstarted.mpr (.inl hbefore))) (by simp)
  · obtain ⟨m₀, hm₀, hmem⟩ := h.served.lds hcallback
    by_cases hid : id = .server
    · subst hid
      cases hm₀.symm.trans hm
      rw [hempty] at hmem
      cases hmem
    · exact ⟨m₀, (setInitManager_ne fun heq => hid heq.symm).trans hm₀, hmem⟩
  · rcases update_cases hm₁ with ⟨-, rfl⟩ | ⟨-, hm₀⟩
    · cases hearly
    · exact h.served.early m₁ hm₀ hearly

theorem Core.initializeManager (h : Core s [] none) (sync : Nat → List Answer)
    (hm : s.initManagers id = some m) (hstate : m.state = .notInitialized) :
    Core (s.initializeManager sync id) [] none ∧ Still s (s.initializeManager sync id) ∧
      (id = .server → (s.initializeManager sync id).isStarting = false) := by
  rw [ListenerInit.initializeManager, hm]
  dsimp only
  rw [if_neg (by simp [hstate])]
  split
  · rename_i hempty
    obtain ⟨hcore, hstill⟩ := h.complete hm hstate hempty
    refine ⟨hcore, hstill, fun hid => ?_⟩
    subst hid
    exact begun nofun
  · rename_i hne
    have hlds (hmem : .lds ∈ m.targets) : id = .server := by
      cases id with
      | server => rfl
      | dynamic listenerTag =>
        obtain ⟨object, -, -, hnone, -⟩ := h.linked.owner listenerTag m hm
        exact absurd hmem hnone
    have hnodup := (h.linked.sound id m hm).nodup
    obtain ⟨hcore, hstill⟩ := Core.initializeTargets
      (h.begin hm hstate (fun _ => Iff.rfl) hnodup hne hlds) sync hnodup
      (fun _ => ⟨_, setInitManager_self .., rfl, fun _ hmem => hmem⟩) hlds
    refine ⟨hcore, { hstill with
        starting := fun hstarting => starting_set hm hstate (hstill.starting hstarting) },
        fun hid => ?_⟩
    subst hid
    have hbegun : (s.setInitManager .server ⟨.initializing, m.targets⟩).isStarting = false :=
      begun nofun
    exact Bool.eq_false_iff.mpr fun hstarting =>
      absurd (hbegun.symm.trans (hstill.starting hstarting)) nofun

end Names

end ListenerInit

end Meliproxy.Envoy.Server
