import Meliproxy.Envoy.Upstream.SubsetLbRuns

/-!
# The hosts that a subset load balancer selects from

After any updates of regular hosts the load balancer that `chooseHost` asks has the hosts that the
criteria stand for. The healthy ones among them are known when no health changes without an added
or removed host in the same subset.
-/

namespace Meliproxy.Envoy.Upstream

open Lib List Config Router Option

variable {Host : Type} {config : SubsetConfig Host}

namespace SubsetLoadBalancer

variable {s s' : SubsetLoadBalancer Host} {hosts hostsAdded hostsRemoved : List Host}

variable (config s)

/-- A key set has the names of the criteria, and a host their values. -/
def HasSubset (criteria : List MetadataMatchCriterion) : Prop :=
  (∃ keys ∈ config.subsetKeys, ∀ name, name ∈ keys ↔ name ∈ criteria.map Prod.fst) ∧
    ∃ host ∈ s.original.hosts, config.hostMatches criteria host = true

def FallsBack (chosen : Chosen Host) : Prop :=
  match config.fallbackPolicy with
  | .noFallback => chosen = .none
  | .anyEndpoint => ∃ subset, chosen = .fallback subset ∧ subset.hosts = s.original.hosts
  | .defaultSubset => ∃ subset, chosen = .fallback subset ∧
      subset.hosts = s.original.hosts.filter config.hostMatchesDefaultSubset

/-- What the documentation says of the hosts that are selected. -/
structure Selects : Prop where
  subset : ∀ criteria, MatchCriteria criteria → RegularKvs criteria → HasSubset config s criteria →
    ∃ subset, s.chooseHost config (some criteria) = .subset subset ∧
      subset.hosts = s.original.hosts.filter (config.hostMatches criteria)
  fallback : ∀ criteria, MatchCriteria criteria → RegularKvs criteria →
    ¬ HasSubset config s criteria → FallsBack config s (s.chooseHost config (some criteria))
  noCriteria : FallsBack config s (s.chooseHost config none)
  lbSubsetsActive : s.lbSubsetsActive = s.nonEmpty

structure Selecting : Prop where
  base : Base config s s.original.hosts
  hosts : Shows config HostSet.hosts (s.original.hosts.filter ·) s
  fallback : s.fallbackSubset = none ↔ fallbackPredicate config = none

variable {config s}

theorem Selecting.fallsBack (h : Selecting config s) :
    FallsBack config s (match s.fallbackSubset with
      | none => .none | some hosts => .fallback hosts) := by
  unfold FallsBack
  cases hsubset : s.fallbackSubset with
  | none =>
    have hnone := h.fallback.mp hsubset
    cases hpolicy : config.fallbackPolicy with
    | noFallback => rfl
    | anyEndpoint | defaultSubset =>
      rw [fallbackPredicate, hpolicy] at hnone
      cases hnone
  | some subset =>
    have hview := h.hosts.fallback subset hsubset
    rw [fallbackPredicate] at hview
    cases hpolicy : config.fallbackPolicy with
    | noFallback =>
      have hnone := h.fallback.mpr (by rw [fallbackPredicate, hpolicy])
      rw [hsubset] at hnone
      cases hnone
    | anyEndpoint =>
      rw [hpolicy] at hview
      exact ⟨subset, rfl, by rw [hview _ rfl, filter_eq_self]; exact fun _ _ => rfl⟩
    | defaultSubset =>
      rw [hpolicy] at hview
      exact ⟨subset, rfl, hview _ rfl⟩

theorem names_eq {criteria : List MetadataMatchCriterion} {keys : List Bytes}
    (hcriteria : MatchCriteria criteria) (hkeys : keys ∈ config.subsetKeys)
    (hsame : ∀ name, name ∈ keys ↔ name ∈ criteria.map Prod.fst) : criteria.map Prod.fst = keys := by
  have := (SubsetConfig.mem_subsetKeys hkeys).2
  exact (hcriteria.sorted.eq_of_mem_iff this fun name => (hsame name).symm)

theorem Selecting.selects (h : Selecting config s) : Selects config s where
  subset := by
    rintro criteria hcriteria hregular ⟨⟨keys, hkeys, hsame⟩, host, hhost, hmatches⟩
    obtain rfl := names_eq hcriteria hkeys hsame
    have hextract := extract_of_matches (h.base.regular host hhost) hregular hmatches
    have hne : criteria ≠ [] := by
      rintro rfl
      exact (SubsetConfig.mem_subsetKeys hkeys).1 rfl
    obtain ⟨entry, hkvs, hsubset⟩ := h.base.complete host hhost _ hkeys (by rwa [hextract])
    rw [hextract] at hkvs
    obtain ⟨subset, hsubset'⟩ := ne_none_iff_exists'.mp hsubset
    have hview := h.hosts.entries entry subset hsubset'
    rw [hkvs] at hview
    have hfound : s.findSubset config 0 criteria = some entry := by
      rw [findSubset_eq_walk hne, h.base.tree.walk_iff hregular]
      exact ⟨lt_of_hostSubset hsubset, hkvs⟩
    have hactive : s.active entry = true := by
      rw [active_eq_of_hostSubset hsubset', Bool.not_eq_true', isEmpty_eq_false_iff, hview]
      exact ne_nil_of_mem (mem_filter.mpr ⟨hhost, hmatches⟩)
    refine ⟨subset, ?_, hview⟩
    rw [chooseHost, tryChooseHostFromContext, bind_some, hfound, bind_some,
      if_pos hactive, hsubset']
  fallback := by
    intro criteria hcriteria hregular hno
    have hnone : s.tryChooseHostFromContext config (some criteria) = none := by
      rw [tryChooseHostFromContext, bind_some]
      cases hfound : s.findSubset config 0 criteria with
      | none => rfl
      | some entry =>
        refine if_neg fun hactive => hno ?_
        have hne : criteria ≠ [] := by
          rintro rfl
          cases hfound
        rw [findSubset_eq_walk hne, h.base.tree.walk_iff hregular] at hfound
        obtain ⟨-, hkvs⟩ := hfound
        have hsubset : s.hostSubset entry ≠ none := fun hnone => by
          rw [active_eq_false hnone] at hactive
          cases hactive
        obtain ⟨subset, hsubset'⟩ := ne_none_iff_exists'.mp hsubset
        have hkeys := h.base.keys entry hsubset
        rw [active_eq_of_hostSubset hsubset', h.hosts.entries entry subset hsubset', hkvs] at hactive
        rw [hkvs] at hkeys
        refine ⟨⟨_, hkeys, fun _ => Iff.rfl⟩, ?_⟩
        simpa using hactive
    rw [chooseHost, hnone]
    exact h.fallsBack
  noCriteria := h.fallsBack
  lbSubsetsActive := h.base.count

theorem fallbackSubset_update (h : s.fallbackSubset ≠ none → fallbackPredicate config ≠ none) :
    (s.updateFallbackSubset config hostsAdded hostsRemoved).fallbackSubset = none ↔
      fallbackPredicate config = none := by
  unfold updateFallbackSubset
  split
  · rename_i hnone
    refine ⟨fun _ => hnone, fun _ => ?_⟩
    by_contra hsome
    exact h hsome hnone
  · rename_i predicate hpredicate
    rw [hpredicate]
    split <;> simp

variable (original : HostSet Host)

def blank (healthy : Host → Bool) : SubsetLoadBalancer Host where
  original := original
  healthy := healthy
  fallbackSubset := none
  children := []
  entries := [⟨[], none⟩]
  lbSubsetsActive := 0
  lbSubsetsCreated := 0
  lbSubsetsRemoved := 0

theorem hostSubset_blank (healthy : Host → Bool) (entry : Nat) :
    (blank original healthy).hostSubset entry = none := by
  cases entry <;> rfl

theorem base_blank (healthy : Host → Bool) :
    Base config (blank original healthy) [] where
  tree :=
    { nonempty := Nat.zero_lt_one
      root := rfl
      children := forall_mem_nil _
      reaches := fun entry hlt => by
        obtain rfl := Nat.lt_one_iff.mp hlt
        rfl
      regular := fun entry => by
        cases entry <;> exact forall_mem_nil _ }
  count := rfl
  keys := fun entry hsubset => absurd (hostSubset_blank original healthy entry) hsubset
  regular := forall_mem_nil _
  complete := forall_mem_nil _

theorem shows_blank (healthy : Host → Bool)
    (view : HostSet Host → List Host) (now : (Host → Bool) → List Host) :
    Shows config view now (blank original healthy) where
  entries := fun entry subset hsubset => by
    rw [hostSubset_blank] at hsubset
    cases hsubset
  fallback := nofun

theorem Base.setHosts (h : Base config s hosts) (original : HostSet Host) (healthy : Host → Bool) :
    Base config (s.setHosts original healthy) hosts :=
  { h with tree := h.tree.congr rfl rfl fun _ => rfl }

theorem Shows.setHosts {view : HostSet Host → List Host} {now : (Host → Bool) → List Host}
    (h : Shows config view now s) (original : HostSet Host) (healthy : Host → Bool) :
    Shows config view now (s.setHosts original healthy) := ⟨h.entries, h.fallback⟩

variable [DecidableEq Host]

theorem selecting_update (hbase : Base config s hosts)
    (hshows : Shows config HostSet.hosts (hosts.filter ·) s)
    (hfallback : s.fallbackSubset ≠ none → fallbackPredicate config ≠ none)
    (hregular : ∀ host, host ∈ hostsAdded ∨ host ∈ hostsRemoved → config.RegularHost host)
    (hadded : ∀ host ∈ hostsAdded, host ∈ s.original.hosts)
    (hkept : s.original.hosts.filter (· ∉ hostsAdded) = hosts.filter (· ∉ hostsRemoved)) :
    Selecting config (s.update config hostsAdded hostsRemoved) ∧
      (s.update config hostsAdded hostsRemoved).original = s.original ∧
      (s.update config hostsAdded hostsRemoved).healthy = s.healthy := by
  have hchanged := changed_of_kept hregular hadded hkept
  obtain ⟨fallbackSubset, hfallback'⟩ := updateFallbackSubset_spec s hostsAdded hostsRemoved
  obtain ⟨modified, hbase', hprocessed⟩ := hbase.update hchanged
  have horiginal : (s.update config hostsAdded hostsRemoved).original = s.original := by
    rw [hprocessed.original, hfallback']
  refine ⟨⟨by rwa [horiginal], ?_, ?_⟩, horiginal, by rw [hprocessed.healthy, hfallback']⟩
  · rw [horiginal]
    exact hshows.update hbase hchanged (hosts_initLoadBalancer s) (fun _ => rfl)
      fun predicate _ huntouched => (filter_untouched hkept huntouched).symm
  · rw [hprocessed.fallbackSubset]
    exact fallbackSubset_update hfallback

theorem filter_all (hosts : List Host) : hosts.filter (· ∉ hosts) = [].filter (· ∉ []) := by
  rw [filter_nil, filter_eq_nil_iff]
  exact fun host hmem => by simpa using hmem

variable {original : HostSet Host} {healthy : Host → Bool}

theorem selecting_create (hregular : ∀ host ∈ original.hosts, config.RegularHost host) :
    Selecting config (create config original healthy) := by
  exact (selecting_update (base_blank original healthy) (shows_blank original healthy _ _)
    (fun h => absurd rfl h) (fun host hmem => hregular host (hmem.resolve_right not_mem_nil))
    (fun host hmem => hmem) (filter_all original.hosts)).1

theorem selecting_step {event : Event Host} (h : Selecting config s)
    (hregular : Regular config s event) (hstep : step config s event = some s') :
    Selecting config s' := by
  have hfallback : s.fallbackSubset ≠ none → fallbackPredicate config ≠ none :=
    fun hsome hnone => hsome (h.fallback.mpr hnone)
  cases event with
  | updateHosts hosts hostsPerLocality healthy hostsAdded hostsRemoved =>
    cases hstep
    have hbase := h.base.setHosts (.ofHosts healthy hosts hostsPerLocality) healthy
    have hshows := h.hosts.setHosts (.ofHosts healthy hosts hostsPerLocality) healthy
    exact (selecting_update hbase hshows hfallback hregular.1 hregular.2.1 hregular.2.2).1
  | reloadHealthyHosts healthy =>
    cases hstep
    have hbase := h.base.setHosts (s.original.reloadHealthyHosts healthy) healthy
    have hshows := h.hosts.setHosts (s.original.reloadHealthyHosts healthy) healthy
    exact (selecting_update hbase hshows hfallback (by simp) (forall_mem_nil _) rfl).1

theorem regular_selects {original : HostSet Host} {healthy : Host → Bool}
    {events : List (Event Host)} (hregular : ∀ host ∈ original.hosts, config.RegularHost host)
    (hmeet : AllMeet (step config) (Regular config) (create config original healthy) events)
    (hrun : run (step config) (create config original healthy) events = some s) :
    Selects config s :=
  (run_invariant (fun _ _ _ hinv hregular hstep => selecting_step hinv hregular hstep) hmeet
    (selecting_create hregular) hrun).selects

def versions : SubsetConfig Nat where
  fallbackPolicy := .anyEndpoint
  defaultSubset := []
  subsetSelectors := [[ascii "v"]]
  metadata := fun host => [(envoyLb, [(ascii "v", .bool (host == 0))])]
  hash
    | .bool true => 1
    | _ => 0

theorem versions_regular (host : Nat) : versions.RegularHost host := by
  intro fields hfields
  cases hfields
  rfl

def versionEvents : List (Event Nat) :=
  [.updateHosts [0, 1, 2] [] (fun _ => true) [1, 2] [],
    .updateHosts [1, 2] [] (fun _ => true) [] [0]]

theorem versions_selects : ∃ s, run (step versions)
    (create versions (.ofHosts (fun _ => true) [0] []) fun _ => true) versionEvents = some s ∧
      Selects versions s := by
  have hmeet : AllMeet (step versions) (Regular versions)
      (create versions (.ofHosts (fun _ => true) [0] []) fun _ => true) versionEvents := by
    refine ⟨⟨fun host _ => versions_regular host, by decide, by decide⟩, fun s' hstep => ?_⟩
    cases hstep
    exact ⟨⟨fun host _ => versions_regular host, forall_mem_nil _, by decide⟩,
      fun _ _ => trivial⟩
  exact ⟨_, rfl, regular_selects (fun host _ => versions_regular host) hmeet rfl⟩

/-- The host of a cluster has a number that is not equal to itself. -/
def notANumber : SubsetConfig Nat :=
  { versions with metadata := fun _ => [(envoyLb, [(ascii "v", .number 0x7ff8000000000000)])] }

theorem notANumber_counted : ∃ s, run (step notANumber) (create notANumber .empty (fun _ => true))
    [.updateHosts [0] [] (fun _ => true) [0] []] = some s ∧ ¬ Selects notANumber s := by
  refine ⟨_, rfl, fun h => ?_⟩
  have := h.lbSubsetsActive
  revert this
  decide

/-- The hosts of a subset that no host is added to or removed from keep their health. -/
def Noticed (config : SubsetConfig Host) (s : SubsetLoadBalancer Host) : Event Host → Prop
  | .updateHosts hosts _ healthy hostsAdded hostsRemoved =>
    ∀ predicate, Predicate config s predicate → Untouched hostsAdded hostsRemoved predicate →
      ∀ host ∈ hosts, predicate host = true → healthy host = s.healthy host
  | .reloadHealthyHosts healthy =>
    ∀ predicate, Predicate config s predicate →
      ∀ host ∈ s.original.hosts, predicate host = true → healthy host = s.healthy host

/-- The healthy hosts of each subset are the hosts of the cluster that match and are healthy. -/
def SeesHealth (config : SubsetConfig Host) (s : SubsetLoadBalancer Host) : Prop :=
  Shows config HostSet.healthyHosts
    (fun predicate => (s.original.hosts.filter predicate).filter s.healthy) s

theorem seesHealth_update (healthy : Host → Bool) (hbase : Base config s hosts)
    (hshows : Shows config HostSet.healthyHosts
      (fun predicate => (hosts.filter predicate).filter healthy) s)
    (hchanged : Changed config hosts hostsAdded hostsRemoved s.original.hosts)
    (hkept : s.original.hosts.filter (· ∉ hostsAdded) = hosts.filter (· ∉ hostsRemoved))
    (hnoticed : ∀ predicate, Predicate config s predicate →
      Untouched hostsAdded hostsRemoved predicate →
      ∀ host ∈ s.original.hosts, predicate host = true → s.healthy host = healthy host) :
    SeesHealth config (s.update config hostsAdded hostsRemoved) := by
  obtain ⟨fallbackSubset, hfallback⟩ := updateFallbackSubset_spec s hostsAdded hostsRemoved
  obtain ⟨modified, -, hprocessed⟩ := hbase.update hchanged
  have horiginal : (s.update config hostsAdded hostsRemoved).original = s.original := by
    rw [hprocessed.original, hfallback]
  have hhealthy : (s.update config hostsAdded hostsRemoved).healthy = s.healthy := by
    rw [hprocessed.healthy, hfallback]
  rw [SeesHealth, horiginal, hhealthy]
  refine hshows.update hbase hchanged (healthyHosts_initLoadBalancer s) (fun _ => rfl) ?_
  intro predicate hpredicate huntouched
  rw [← filter_untouched hkept huntouched]
  refine filter_congr fun host hmem => ?_
  obtain ⟨hhost, hmatches⟩ := mem_filter.mp hmem
  exact (hnoticed predicate hpredicate huntouched host hhost hmatches).symm

theorem seesHealth_create (hregular : ∀ host ∈ original.hosts, config.RegularHost host) :
    SeesHealth config (create config original healthy) := by
  have hkept := filter_all original.hosts
  refine seesHealth_update healthy (base_blank original healthy) (shows_blank original healthy _ _)
    (changed_of_kept (fun host hmem => hregular host (hmem.resolve_right not_mem_nil))
      (fun host hmem => hmem) hkept) hkept ?_
  exact fun _ _ _ _ _ _ => rfl

theorem seesHealth_step {event : Event Host} (h : Selecting config s ∧ SeesHealth config s)
    (hmeet : Regular config s event ∧ Noticed config s event)
    (hstep : step config s event = some s') : Selecting config s' ∧ SeesHealth config s' := by
  refine ⟨selecting_step h.1 hmeet.1 hstep, ?_⟩
  obtain ⟨hregular, hnoticed⟩ := hmeet
  cases event with
  | updateHosts hosts hostsPerLocality healthy hostsAdded hostsRemoved =>
    cases hstep
    have hbase := h.1.base.setHosts (.ofHosts healthy hosts hostsPerLocality) healthy
    have hshows := h.2.setHosts (.ofHosts healthy hosts hostsPerLocality) healthy
    exact seesHealth_update s.healthy hbase hshows (changed_of_kept hregular.1 hregular.2.1 hregular.2.2)
      hregular.2.2 hnoticed
  | reloadHealthyHosts healthy =>
    cases hstep
    have hbase := h.1.base.setHosts (s.original.reloadHealthyHosts healthy) healthy
    have hshows := h.2.setHosts (s.original.reloadHealthyHosts healthy) healthy
    exact seesHealth_update s.healthy hbase hshows
      (changed_of_kept (by simp) (forall_mem_nil _) rfl) rfl
      fun predicate hpredicate _ => hnoticed predicate hpredicate

theorem noticed_seesHealth {original : HostSet Host} {healthy : Host → Bool}
    {events : List (Event Host)} (hregular : ∀ host ∈ original.hosts, config.RegularHost host)
    (hmeet : AllMeet (step config) (fun s event => Regular config s event ∧ Noticed config s event)
      (create config original healthy) events)
    (hrun : run (step config) (create config original healthy) events = some s) :
    SeesHealth config s :=
  (run_invariant (fun _ _ _ hinv hmeet hstep => seesHealth_step hinv hmeet hstep) hmeet
    ⟨selecting_create hregular, seesHealth_create hregular⟩ hrun).2

def oneVersion : SubsetConfig Nat :=
  { versions with metadata := fun _ => [(envoyLb, [(ascii "v", .null)])] }

theorem oneVersion_regular (host : Nat) : oneVersion.RegularHost host := by
  intro fields hfields
  cases hfields
  rfl

def unhealthyEvents : List (Event Nat) := [.updateHosts [0, 1, 2] [] (· != 1) [2] []]

theorem unhealthyEvents_seen : ∃ s, run (step oneVersion)
    (create oneVersion (.ofHosts (fun _ => true) [0, 1] []) fun _ => true) unhealthyEvents =
      some s ∧ SeesHealth oneVersion s := by
  have hmeet : AllMeet (step oneVersion)
      (fun s event => Regular oneVersion s event ∧ Noticed oneVersion s event)
      (create oneVersion (.ofHosts (fun _ => true) [0, 1] []) fun _ => true) unhealthyEvents := by
    refine ⟨⟨⟨fun host _ => oneVersion_regular host, by decide, by decide⟩, ?_⟩, fun _ _ => trivial⟩
    intro predicate hpredicate huntouched host _ hmatches
    -- A predicate that one host meets is met by the new host too.
    have hnew : predicate 2 = false := huntouched 2 (.inl mem_cons_self)
    rcases hpredicate with hfallback | ⟨entry, -, rfl⟩
    · cases hfallback
      cases hnew
    · rw [show oneVersion.hostMatches _ 2 = oneVersion.hostMatches _ host from rfl, hmatches] at hnew
      cases hnew
  exact ⟨_, rfl, noticed_seesHealth (fun host _ => oneVersion_regular host) hmeet rfl⟩

/-- The only host of a cluster fails a health check. -/
theorem reload_unseen : ∃ s, run (step oneVersion)
    (create oneVersion (.ofHosts (fun _ => true) [0] []) (fun _ => true))
    [.reloadHealthyHosts fun _ => false] = some s ∧ ¬ SeesHealth oneVersion s := by
  refine ⟨_, rfl, fun h => ?_⟩
  have hunhealthy := h.entries 1 _ rfl
  revert hunhealthy
  decide

end SubsetLoadBalancer

end Meliproxy.Envoy.Upstream
