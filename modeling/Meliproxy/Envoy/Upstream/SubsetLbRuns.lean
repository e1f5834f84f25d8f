import Meliproxy.Envoy.Upstream.SubsetLbUpdate

/-!
# What an update does to the subsets

The entries of the added and removed hosts get a subset with the hosts of the original host set that
match, the others stay as they are.
-/

namespace Meliproxy.Envoy.Upstream

open Lib List Config Router

variable {Host : Type} {config : SubsetConfig Host}

namespace SubsetLoadBalancer

variable {s s' : SubsetLoadBalancer Host}

/-- A visit of the loop: a host of the added or the removed ones, and the keys of a subset. -/
structure Visit (config : SubsetConfig Host) (s : SubsetLoadBalancer Host)
    (hostsAdded hostsRemoved : List Host) (visit : Host × List Bytes × Bool) : Prop where
  keys : visit.2.1 ∈ config.subsetKeys
  regular : config.RegularHost visit.1
  mem : visit.1 ∈ hostsAdded ∨ visit.1 ∈ hostsRemoved
  adding : visit.2.2 = true → visit.1 ∈ s.original.hosts

/-- Where the loop stands after the visits, when it started with `start`. -/
structure Processed (config : SubsetConfig Host) (start : SubsetLoadBalancer Host)
    (visited : List (Host × List Bytes × Bool)) (s : SubsetLoadBalancer Host)
    (modified : List Nat) : Prop where
  tree : Tree config s
  original : s.original = start.original
  healthy : s.healthy = start.healthy
  fallbackSubset : s.fallbackSubset = start.fallbackSubset
  count : s.lbSubsetsActive = s.nonEmpty
  length : start.entries.length ≤ s.entries.length
  kvs : ∀ entry < start.entries.length, s.kvs entry = start.kvs entry
  keys : ∀ entry, s.hostSubset entry ≠ none → (s.kvs entry).map Prod.fst ∈ config.subsetKeys
  initialized : ∀ entry, start.hostSubset entry ≠ none → s.hostSubset entry ≠ none
  lt : ∀ entry ∈ modified, entry < s.entries.length
  untouched : ∀ entry ∉ modified, s.hostSubset entry = start.hostSubset entry
  touched : ∀ entry ∈ modified, ∀ subset, s.hostSubset entry = some subset →
    subset = s.original.matching s.healthy (config.hostMatches (s.kvs entry))
  seen : ∀ visit ∈ visited, config.extractSubsetMetadata visit.2.1 visit.1 ≠ [] →
    ∃ entry ∈ modified, s.kvs entry = config.extractSubsetMetadata visit.2.1 visit.1 ∧
      (visit.2.2 = true → s.hostSubset entry ≠ none)
  adding : (∀ visit ∈ visited, visit.2.2 = true) → ∀ entry ∈ modified, s.hostSubset entry ≠ none

variable {start : SubsetLoadBalancer Host} {hostsAdded hostsRemoved : List Host}
  {visited : List (Host × List Bytes × Bool)} {modified modified' : List Nat}
  {visit : Host × List Bytes × Bool}

theorem Grows.nonEmpty (h : Grows s s') : s'.nonEmpty = s.nonEmpty := h.countP

theorem Processed.grows (h : Processed config start visited s modified) (htree : Tree config s')
    (hgrows : Grows s s') : Processed config start visited s' modified where
  tree := htree
  original := hgrows.original.trans h.original
  healthy := hgrows.healthy.trans h.healthy
  fallbackSubset := hgrows.fallbackSubset.trans h.fallbackSubset
  count := by rw [hgrows.lbSubsetsActive, hgrows.nonEmpty, h.count]
  length := Nat.le_trans h.length hgrows.length
  kvs := fun entry hlt => by
    rw [hgrows.kvs (Nat.lt_of_lt_of_le hlt h.length), h.kvs entry hlt]
  keys := fun entry hsubset => by
    rw [hgrows.hostSubset] at hsubset
    rw [hgrows.kvs (lt_of_hostSubset hsubset)]
    exact h.keys entry hsubset
  initialized := fun entry hsubset => by
    rw [hgrows.hostSubset]
    exact h.initialized entry hsubset
  lt := fun entry hmem => Nat.lt_of_lt_of_le (h.lt entry hmem) hgrows.length
  untouched := fun entry hmem => by rw [hgrows.hostSubset, h.untouched entry hmem]
  touched := fun entry hmem subset hsubset => by
    rw [hgrows.hostSubset] at hsubset
    rw [hgrows.original, hgrows.healthy, hgrows.kvs (h.lt entry hmem)]
    exact h.touched entry hmem subset hsubset
  seen := fun visit hmem hne => by
    obtain ⟨entry, hmodified, hkvs, hadding⟩ := h.seen visit hmem hne
    refine ⟨entry, hmodified, by rw [hgrows.kvs (h.lt entry hmodified), hkvs], fun hadd => ?_⟩
    rw [hgrows.hostSubset]
    exact hadding hadd
  adding := fun hall entry hmem => by
    rw [hgrows.hostSubset]
    exact h.adding hall entry hmem

theorem Processed.seenBefore (h : Processed config start visited s modified)
    (hseen : config.extractSubsetMetadata visit.2.1 visit.1 ≠ [] →
      ∃ entry ∈ modified, s.kvs entry = config.extractSubsetMetadata visit.2.1 visit.1 ∧
        (visit.2.2 = true → s.hostSubset entry ≠ none)) :
    Processed config start (visited ++ [visit]) s modified :=
  { h with
    seen := fun v hmem hne => by
      rcases mem_append.mp hmem with hmem | hmem
      · exact h.seen v hmem hne
      · obtain rfl := mem_singleton.mp hmem
        exact hseen hne
    adding := fun hall => h.adding fun v hmem => hall v (mem_append_left _ hmem) }

theorem updatedSubset_spec (entry : Nat) {predicate : Host → Bool}
    (hvisit : Visit config s hostsAdded hostsRemoved visit) (hmatches : predicate visit.1 = true) :
    (∀ subset, s.updatedSubset hostsAdded hostsRemoved entry predicate visit.2.2 = some subset →
      subset = s.original.matching s.healthy predicate) ∧
    (visit.2.2 = true ∨ s.hostSubset entry ≠ none →
      s.updatedSubset hostsAdded hostsRemoved entry predicate visit.2.2 ≠ none) := by
  unfold updatedSubset
  cases s.hostSubset entry with
  | some old =>
    refine ⟨fun subset hsubset => ?_, fun _ => Option.some_ne_none _⟩
    cases hsubset
    exact updateSubset_eq_matching hvisit.mem hmatches
  | none =>
    cases hadding : visit.2.2 with
    | true =>
      refine ⟨fun subset hsubset => ?_, fun _ => Option.some_ne_none _⟩
      cases hsubset
      exact updateSubset_eq_matching (.inl (hvisit.adding hadding)) hmatches
    | false => exact ⟨nofun, fun h => h.elim nofun fun hne => absurd rfl hne⟩

theorem Processed.updateEntry {entry : Nat} (h : Processed config start visited s modified)
    (hvisit : Visit config s hostsAdded hostsRemoved visit)
    (hlt : entry < s.entries.length) (hnew : entry ∉ modified)
    (hkvs : s.kvs entry = config.extractSubsetMetadata visit.2.1 visit.1)
    (hne : config.extractSubsetMetadata visit.2.1 visit.1 ≠ [])
    (hresult : s.updateEntry hostsAdded hostsRemoved entry
      (config.hostMatches (config.extractSubsetMetadata visit.2.1 visit.1)) visit.2.2 = s') :
    Processed config start (visited ++ [visit]) s' (entry :: modified) := by
  have hmatches := hostMatches_extract hvisit.regular hne
  obtain ⟨hnow, hsome⟩ := updatedSubset_spec entry hvisit hmatches
  obtain ⟨hsame, hsubset, hcount⟩ := updateEntry_spec hlt (fun hadding hnone => by
    have hinit := hnow (s.initLoadBalancer _) (by rw [updatedSubset, hnone, hadding]; rfl)
    rw [hinit]
    exact ne_nil_of_mem (mem_filter.mpr ⟨hvisit.adding hadding, hmatches⟩)) h.count hresult
  rw [← hsubset] at hsome
  simp only [← hsubset] at hnow
  refine ⟨h.tree.congr hsame.children hsame.length hsame.kvs, hsame.original.trans h.original,
    hsame.healthy.trans h.healthy, hsame.fallbackSubset.trans h.fallbackSubset, hcount,
    hsame.length ▸ h.length, fun i hi => (hsame.kvs i).trans (h.kvs i hi), ?_, ?_, ?_, ?_, ?_, ?_, ?_⟩
  · intro i hi
    rw [hsame.kvs]
    by_cases heq : i = entry
    · rw [heq, hkvs, (extract_spec hne).1]
      exact hvisit.keys
    · rw [hsame.others i heq] at hi
      exact h.keys i hi
  · intro i hi
    by_cases heq : i = entry
    · rw [heq] at hi ⊢
      exact hsome (.inr (h.initialized entry hi))
    · rw [hsame.others i heq]
      exact h.initialized i hi
  · rw [hsame.length]
    exact forall_mem_cons.mpr ⟨hlt, h.lt⟩
  · intro i hi
    rw [mem_cons, not_or] at hi
    rw [hsame.others i hi.1]
    exact h.untouched i hi.2
  · intro i hi subset hi'
    rw [hsame.original, hsame.healthy, hsame.kvs]
    by_cases heq : i = entry
    · rw [heq] at hi' ⊢
      rw [hkvs]
      exact hnow subset hi'
    · rw [hsame.others i heq] at hi'
      exact h.touched i ((mem_cons.mp hi).resolve_left heq) subset hi'
  · intro v hv hvne
    rcases mem_append.mp hv with hv | hv
    · obtain ⟨i, hmem, hikvs, hadding⟩ := h.seen v hv hvne
      have heq : i ≠ entry := fun heq => hnew (heq ▸ hmem)
      refine ⟨i, mem_cons_of_mem _ hmem, (hsame.kvs i).trans hikvs, fun hadd => ?_⟩
      rw [hsame.others i heq]
      exact hadding hadd
    · obtain rfl := mem_singleton.mp hv
      exact ⟨entry, mem_cons_self, (hsame.kvs entry).trans hkvs, fun hadd => hsome (.inl hadd)⟩
  · intro hall i hi
    by_cases heq : i = entry
    · rw [heq]
      exact hsome (.inl (hall visit (mem_append_right _ mem_cons_self)))
    · rw [hsame.others i heq]
      exact h.adding (fun v hv => hall v (mem_append_left _ hv)) i
        ((mem_cons.mp hi).resolve_left heq)

theorem Processed.process (h : Processed config start visited s modified)
    (hvisit : Visit config s hostsAdded hostsRemoved visit)
    (horder : visit.2.2 = true → ∀ earlier ∈ visited, earlier.2.2 = true)
    (hresult : processSubset config hostsAdded hostsRemoved (s, modified) visit = (s', modified')) :
    Processed config start (visited ++ [visit]) s' modified' := by
  unfold processSubset at hresult
  dsimp only at hresult
  split at hresult
  · rename_i hempty
    obtain ⟨rfl, rfl⟩ := Prod.mk.inj hresult
    exact h.seenBefore fun hne => absurd (List.isEmpty_iff.mp hempty) hne
  · rename_i hempty
    have hne : config.extractSubsetMetadata visit.2.1 visit.1 ≠ [] := fun heq =>
      hempty (List.isEmpty_iff.mpr heq)
    cases hfound : s.findOrCreateSubset config 0 (config.extractSubsetMetadata visit.2.1 visit.1) with
    | mk s₁ entry =>
      rw [hfound] at hresult
      obtain ⟨htree, hgrows, hlt, hkvs⟩ := findOrCreateSubset_spec h.tree h.tree.nonempty
        (extract_regular hvisit.regular hne) hfound
      rw [h.tree.root, nil_append] at hkvs
      have hgrown := h.grows htree hgrows
      have hvisit₁ : Visit config s₁ hostsAdded hostsRemoved visit :=
        { hvisit with adding := by rw [hgrows.original]; exact hvisit.adding }
      dsimp only at hresult
      split at hresult
      · rename_i hmem
        obtain ⟨rfl, rfl⟩ := Prod.mk.inj hresult
        exact hgrown.seenBefore fun _ => ⟨entry, hmem, hkvs, fun hadding =>
          hgrown.adding (horder hadding) entry hmem⟩
      · rename_i hmem
        obtain ⟨hs', rfl⟩ := Prod.mk.inj hresult
        exact hgrown.updateEntry hvisit₁ hlt hmem hkvs hne hs'

theorem Processed.fold {visits : List (Host × List Bytes × Bool)}
    (h : Processed config start visited s modified)
    (hvisits : ∀ visit ∈ visits, Visit config start hostsAdded hostsRemoved visit)
    (horder : (visited ++ visits).Pairwise fun earlier later => later.2.2 = true → earlier.2.2 = true) :
    ∃ modified', Processed config start (visited ++ visits)
      (visits.foldl (processSubset config hostsAdded hostsRemoved) (s, modified)).1 modified' := by
  induction visits generalizing visited s modified with
  | nil =>
    rw [append_nil]
    exact ⟨modified, h⟩
  | cons visit visits ih =>
    obtain ⟨hfirst, hrest⟩ := forall_mem_cons.mp hvisits
    have hvisit : Visit config s hostsAdded hostsRemoved visit :=
      { hfirst with adding := by rw [h.original]; exact hfirst.adding }
    have hearlier : visit.2.2 = true → ∀ earlier ∈ visited, earlier.2.2 = true :=
      fun hadding earlier hmem =>
        (pairwise_append.mp horder).2.2 earlier hmem visit mem_cons_self hadding
    have hnext := h.process hvisit hearlier rfl
    rw [append_cons] at horder ⊢
    exact ih hnext hrest horder

theorem mem_visits {hosts : List Host} {addingHosts : Bool} :
    visit ∈ visits config hosts addingHosts ↔
      visit.1 ∈ hosts ∧ visit.2.1 ∈ config.subsetKeys ∧ visit.2.2 = addingHosts := by
  obtain ⟨host, keys, adding⟩ := visit
  rw [visits, mem_flatMap]
  constructor
  · rintro ⟨host', hhost, hmem⟩
    obtain ⟨keys', hkeys, heq⟩ := mem_map.mp hmem
    cases heq
    exact ⟨hhost, hkeys, rfl⟩
  · rintro ⟨hhost, hkeys, rfl⟩
    exact ⟨host, hhost, mem_map.mpr ⟨keys, hkeys, rfl⟩⟩

theorem processSubsets_spec (htree : Tree config start)
    (hcount : start.lbSubsetsActive = start.nonEmpty)
    (hkeys : ∀ entry, start.hostSubset entry ≠ none →
      (start.kvs entry).map Prod.fst ∈ config.subsetKeys)
    (hregular : ∀ host, host ∈ hostsAdded ∨ host ∈ hostsRemoved → config.RegularHost host)
    (hadded : ∀ host ∈ hostsAdded, host ∈ start.original.hosts) :
    ∃ modified, Processed config start (visits config hostsAdded true ++ visits config hostsRemoved false)
      (start.processSubsets config hostsAdded hostsRemoved) modified := by
  have hstart : Processed config start [] start [] :=
    ⟨htree, rfl, rfl, rfl, hcount, Nat.le_refl _, fun _ _ => rfl, hkeys, fun _ h => h, nofun,
      fun _ _ => rfl, nofun, nofun, nofun⟩
  refine hstart.fold (fun visit hmem => ?_) ?_
  · rcases mem_append.mp hmem with hmem | hmem
    · obtain ⟨hhost, hkeys, -⟩ := mem_visits.mp hmem
      exact ⟨hkeys, hregular _ (.inl hhost), .inl hhost, fun _ => hadded _ hhost⟩
    · obtain ⟨hhost, hkeys, hremoving⟩ := mem_visits.mp hmem
      refine ⟨hkeys, hregular _ (.inr hhost), .inr hhost, fun hadding => ?_⟩
      rw [hremoving] at hadding
      cases hadding
  · rw [show ∀ l : List (Host × List Bytes × Bool), [] ++ l = l from fun _ => rfl]
    refine pairwise_append.mpr ⟨pairwise_of_forall_mem_list ?_,
      pairwise_of_forall_mem_list ?_, ?_⟩
    · intro earlier hearlier _ _ _
      exact (mem_visits.mp hearlier).2.2
    · intro _ _ later hlater hadding
      rw [(mem_visits.mp hlater).2.2] at hadding
      cases hadding
    · intro earlier hearlier _ _ _
      exact (mem_visits.mp hearlier).2.2

end SubsetLoadBalancer

/-!
## Subsets over all updates

`Base` and `Shows` are the invariants, for the hosts that the last update left: a host is in an
entry for each key set that it has values for, and a list of each subset is the one that it should
be. `Shows` is for the list of all hosts as well as for that of the healthy ones.
-/

variable {Host : Type} {config : SubsetConfig Host}

theorem SubsetConfig.mem_subsetKeys {keys : List Bytes} (h : keys ∈ config.subsetKeys) :
    keys ≠ [] ∧ keys.Pairwise (· < ·) := by
  obtain ⟨selector, hselector, rfl⟩ := mem_map.mp h
  obtain ⟨-, hne⟩ := mem_filter.mp hselector
  constructor
  · intro hnil
    have hperm := sortBy_perm id selector.dedup
    rw [hnil, nil_perm, dedup_eq_nil] at hperm
    rw [hperm] at hne
    cases hne
  · have hsorted := pairwise_lt_sortBy id (l := selector.dedup)
      (by rw [map_id]; exact nodup_dedup selector)
    rwa [map_id] at hsorted

namespace SubsetLoadBalancer

variable {s s' : SubsetLoadBalancer Host} {hosts hostsAdded hostsRemoved : List Host}

variable (config)

/-- The trie for the hosts. -/
structure Base (s : SubsetLoadBalancer Host) (hosts : List Host) :
    Prop where
  tree : Tree config s
  count : s.lbSubsetsActive = s.nonEmpty
  keys : ∀ entry, s.hostSubset entry ≠ none → (s.kvs entry).map Prod.fst ∈ config.subsetKeys
  regular : ∀ host ∈ hosts, config.RegularHost host
  complete : ∀ host ∈ hosts, ∀ keys ∈ config.subsetKeys,
    config.extractSubsetMetadata keys host ≠ [] → ∃ entry,
      s.kvs entry = config.extractSubsetMetadata keys host ∧ s.hostSubset entry ≠ none

/-- `view` of every subset is the list that `now` gives for its predicate. -/
structure Shows (view : HostSet Host → List Host)
    (now : (Host → Bool) → List Host) (s : SubsetLoadBalancer Host) : Prop where
  entries : ∀ entry subset, s.hostSubset entry = some subset →
    view subset = now (config.hostMatches (s.kvs entry))
  fallback : ∀ subset ∈ s.fallbackSubset, ∀ predicate ∈ fallbackPredicate config,
    view subset = now predicate

def Predicate (s : SubsetLoadBalancer Host) (predicate : Host → Bool) :
    Prop :=
  predicate ∈ fallbackPredicate config ∨
    ∃ entry, s.hostSubset entry ≠ none ∧ predicate = config.hostMatches (s.kvs entry)

def Untouched (hostsAdded hostsRemoved : List Host) (predicate : Host → Bool) : Prop :=
  ∀ host, host ∈ hostsAdded ∨ host ∈ hostsRemoved → predicate host = false

/-- The hosts that an update leaves. -/
structure Changed (hosts hostsAdded hostsRemoved hosts' : List Host) :
    Prop where
  regular : ∀ host, host ∈ hostsAdded ∨ host ∈ hostsRemoved → config.RegularHost host
  added : ∀ host ∈ hostsAdded, host ∈ hosts'
  kept : ∀ host ∈ hosts', host ∈ hostsAdded ∨ host ∈ hosts

variable {config}

theorem updateFallbackSubset_spec (s : SubsetLoadBalancer Host) (hostsAdded hostsRemoved : List Host) :
    ∃ fallbackSubset, s.updateFallbackSubset config hostsAdded hostsRemoved =
      { s with fallbackSubset := fallbackSubset } := by
  unfold updateFallbackSubset
  split
  · exact ⟨s.fallbackSubset, rfl⟩
  · split <;> exact ⟨_, rfl⟩

theorem Base.update (h : Base config s hosts)
    (hchanged : Changed config hosts hostsAdded hostsRemoved s.original.hosts) :
    ∃ modified, Base config (s.update config hostsAdded hostsRemoved) s.original.hosts ∧
      Processed config (s.updateFallbackSubset config hostsAdded hostsRemoved)
        (visits config hostsAdded true ++ visits config hostsRemoved false)
        (s.update config hostsAdded hostsRemoved) modified := by
  obtain ⟨fallbackSubset, hfallback⟩ := updateFallbackSubset_spec s hostsAdded hostsRemoved
  have htree : Tree config { s with fallbackSubset := fallbackSubset } :=
    h.tree.congr rfl rfl fun _ => rfl
  obtain ⟨modified, hprocessed⟩ := processSubsets_spec htree h.count h.keys hchanged.regular
    hchanged.added
  rw [SubsetLoadBalancer.update, hfallback]
  refine ⟨modified, ⟨hprocessed.tree, hprocessed.count, hprocessed.keys, ?_, ?_⟩, hprocessed⟩
  · intro host hmem
    rcases hchanged.kept host hmem with hadded | hkept
    · exact hchanged.regular host (.inl hadded)
    · exact h.regular host hkept
  · intro host hmem keys hkeys hne
    rcases hchanged.kept host hmem with hadded | hkept
    · obtain ⟨entry, -, hkvs, hsubset⟩ := hprocessed.seen (host, keys, true)
        (mem_append_left _ (mem_visits.mpr ⟨hadded, hkeys, rfl⟩)) hne
      exact ⟨entry, hkvs, hsubset rfl⟩
    · obtain ⟨entry, hkvs, hsubset⟩ := h.complete host hkept keys hkeys hne
      exact ⟨entry, (hprocessed.kvs entry (lt_of_hostSubset hsubset)).trans hkvs,
        hprocessed.initialized entry hsubset⟩

theorem Base.untouched {modified : List Nat} {entry : Nat} (h : Base config s' hosts)
    {start : SubsetLoadBalancer Host} (hprocessed : Processed config start
      (visits config hostsAdded true ++ visits config hostsRemoved false) s' modified)
    (hregular : ∀ host, host ∈ hostsAdded ∨ host ∈ hostsRemoved → config.RegularHost host)
    (hentry : entry ∉ modified) (hsubset : s'.hostSubset entry ≠ none) :
    Untouched hostsAdded hostsRemoved (config.hostMatches (s'.kvs entry)) := by
  intro host hmem
  cases hmatches : config.hostMatches (s'.kvs entry) host with
  | false => rfl
  | true =>
    have hextract := extract_of_matches (hregular host hmem) (h.tree.regular entry) hmatches
    have hkeys := h.keys entry hsubset
    have hne : config.extractSubsetMetadata ((s'.kvs entry).map Prod.fst) host ≠ [] := by
      rw [hextract]
      intro hnil
      rw [hnil] at hkeys
      exact (SubsetConfig.mem_subsetKeys hkeys).1 rfl
    obtain ⟨adding, hvisit⟩ : ∃ adding, (host, (s'.kvs entry).map Prod.fst, adding) ∈
        visits config hostsAdded true ++ visits config hostsRemoved false := by
      rcases hmem with hadded | hremoved
      · exact ⟨true, mem_append_left _ (mem_visits.mpr ⟨hadded, hkeys, rfl⟩)⟩
      · exact ⟨false, mem_append_right _ (mem_visits.mpr ⟨hremoved, hkeys, rfl⟩)⟩
    obtain ⟨entry', hmodified, hkvs, -⟩ := hprocessed.seen _ hvisit hne
    rw [hextract] at hkvs
    obtain rfl := h.tree.kvs_inj (hprocessed.lt entry' hmodified) (lt_of_hostSubset hsubset) hkvs
    exact absurd hmodified hentry

theorem Shows.update {view : HostSet Host → List Host} {now now' : (Host → Bool) → List Host}
    (h : Shows config view now s) (hbase : Base config s hosts)
    (hchanged : Changed config hosts hostsAdded hostsRemoved s.original.hosts)
    (hinit : ∀ predicate, view (s.initLoadBalancer predicate) = now' predicate)
    (hmatching : ∀ predicate, view (s.original.matching s.healthy predicate) = now' predicate)
    (huntouched : ∀ predicate, Predicate config s predicate →
      Untouched hostsAdded hostsRemoved predicate → now predicate = now' predicate) :
    Shows config view now' (s.update config hostsAdded hostsRemoved) := by
  obtain ⟨fallbackSubset, hfallback⟩ := updateFallbackSubset_spec s hostsAdded hostsRemoved
  obtain ⟨modified, hbase', hprocessed⟩ := hbase.update hchanged
  constructor
  · intro entry subset hsubset
    by_cases hmodified : entry ∈ modified
    · rw [hprocessed.touched entry hmodified subset hsubset, hprocessed.original,
        hprocessed.healthy, hfallback]
      exact hmatching _
    · have hsome : (s.update config hostsAdded hostsRemoved).hostSubset entry ≠ none := by
        rw [hsubset]
        exact Option.some_ne_none subset
      have huntouched' := hbase'.untouched hprocessed hchanged.regular hmodified hsome
      rw [hprocessed.untouched entry hmodified, hfallback] at hsubset hsome
      have hkvs := hprocessed.kvs entry (lt_of_hostSubset (by rwa [hfallback]))
      rw [hfallback] at hkvs
      rw [hkvs] at huntouched' ⊢
      rw [h.entries entry subset hsubset]
      exact huntouched _ (.inr ⟨entry, hsome, rfl⟩) huntouched'
  · intro subset hsubset predicate hpredicate
    rw [hprocessed.fallbackSubset, updateFallbackSubset, hpredicate] at hsubset
    cases hbefore : s.fallbackSubset with
    | none =>
      rw [hbefore] at hsubset
      cases hsubset
      exact hinit predicate
    | some before =>
      rw [hbefore] at hsubset
      cases hsubset
      by_cases hnone : Untouched hostsAdded hostsRemoved predicate
      · rw [updateSubset_of_none hnone, h.fallback before hbefore predicate hpredicate]
        exact huntouched predicate (.inl hpredicate) hnone
      · simp only [Untouched, not_forall, Bool.not_eq_false] at hnone
        obtain ⟨host, hmem, hmatches⟩ := hnone
        rw [updateSubset_eq_matching hmem hmatches]
        exact hmatching predicate

variable (s)

theorem initLoadBalancer_eq (predicate : Host → Bool) :
    s.initLoadBalancer predicate = s.original.matching s.healthy predicate ∨
      s.initLoadBalancer predicate = .empty ∧ s.original.hosts.filter predicate = [] := by
  by_cases hnone : Untouched s.original.hosts [] predicate
  · right
    refine ⟨updateSubset_of_none hnone, ?_⟩
    rw [filter_eq_nil_iff]
    intro host hmem
    simp [hnone host (.inl hmem)]
  · left
    simp only [Untouched, not_forall, Bool.not_eq_false] at hnone
    obtain ⟨host, hmem, hmatches⟩ := hnone
    exact updateSubset_eq_matching hmem hmatches

theorem hosts_initLoadBalancer (predicate : Host → Bool) :
    (s.initLoadBalancer predicate).hosts = s.original.hosts.filter predicate := by
  rcases s.initLoadBalancer_eq predicate with h | ⟨h, hnone⟩
  · rw [h]
    rfl
  · rw [h, hnone]
    rfl

theorem healthyHosts_initLoadBalancer (predicate : Host → Bool) :
    (s.initLoadBalancer predicate).healthyHosts =
      (s.original.hosts.filter predicate).filter s.healthy := by
  rcases s.initLoadBalancer_eq predicate with h | ⟨h, hnone⟩
  · rw [h]
    rfl
  · rw [h, hnone]
    rfl

variable {s}

variable [DecidableEq Host]

/-- The hosts of the updates: the metadata of those that are added and removed is regular, and the
others stay in their order. -/
def Regular (config : SubsetConfig Host) (s : SubsetLoadBalancer Host) : Event Host → Prop
  | .updateHosts hosts _ _ hostsAdded hostsRemoved =>
    (∀ host, host ∈ hostsAdded ∨ host ∈ hostsRemoved → config.RegularHost host) ∧
      (∀ host ∈ hostsAdded, host ∈ hosts) ∧
      hosts.filter (· ∉ hostsAdded) = s.original.hosts.filter (· ∉ hostsRemoved)
  | .reloadHealthyHosts _ => True

theorem filter_untouched {hosts' : List Host} {predicate : Host → Bool}
    (hkept : hosts'.filter (· ∉ hostsAdded) = hosts.filter (· ∉ hostsRemoved))
    (huntouched : Untouched hostsAdded hostsRemoved predicate) :
    hosts'.filter predicate = hosts.filter predicate := by
  have hnarrow : ∀ (l others : List Host), (∀ host ∈ others, predicate host = false) →
      l.filter predicate = (l.filter (· ∉ others)).filter predicate := by
    intro l others hothers
    rw [filter_filter]
    refine filter_congr fun host _ => ?_
    by_cases hmem : host ∈ others
    · rw [hothers host hmem, Bool.false_and]
    · rw [decide_eq_true hmem, Bool.and_true]
  rw [hnarrow hosts' hostsAdded fun host hmem => huntouched host (.inl hmem), hkept,
    ← hnarrow hosts hostsRemoved fun host hmem => huntouched host (.inr hmem)]

theorem changed_of_kept {hosts' : List Host}
    (hregular : ∀ host, host ∈ hostsAdded ∨ host ∈ hostsRemoved → config.RegularHost host)
    (hadded : ∀ host ∈ hostsAdded, host ∈ hosts')
    (hkept : hosts'.filter (· ∉ hostsAdded) = hosts.filter (· ∉ hostsRemoved)) :
    Changed config hosts hostsAdded hostsRemoved hosts' := by
  refine ⟨hregular, hadded, fun host hmem => ?_⟩
  by_cases hnew : host ∈ hostsAdded
  · exact .inl hnew
  · have hold : host ∈ hosts'.filter (· ∉ hostsAdded) := mem_filter.mpr ⟨hmem, decide_eq_true hnew⟩
    rw [hkept] at hold
    exact .inr (mem_of_mem_filter hold)

end SubsetLoadBalancer

end Meliproxy.Envoy.Upstream
