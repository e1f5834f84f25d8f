import Meliproxy.Envoy.Upstream.SubsetLbTrie

/-!
# The metadata of a host and the subset of an entry

A host with regular metadata is in the entry of its own names and values, and no other entry of the
same names. An update of an entry keeps the count of the subsets that are not empty.
-/

namespace Meliproxy.Envoy.Upstream

open Lib List Config Router Option Bool

variable {Host : Type} {config : SubsetConfig Host}

def SubsetConfig.RegularHost (config : SubsetConfig Host) (host : Host) : Prop :=
  ∀ fields ∈ (config.metadata host).lookup envoyLb, Value.regularFields fields = true

section Metadata

variable {host : Host} {keys : List Bytes} {kvs : SubsetMetadata} {fields : Struct}

theorem SubsetConfig.RegularHost.value {key : Bytes} {value : Value} (h : config.RegularHost host)
    (hvalue : metadataValue (config.metadata host) envoyLb key = some value) :
    value.regular = true := by
  obtain ⟨fields, hfields, hlookup⟩ := bind_eq_some_iff.mp hvalue
  exact Value.regular_of_mem (h fields hfields) (Value.mem_of_lookup hlookup)

theorem hostMatches_iff (hhost : config.RegularHost host) (hkvs : RegularKvs kvs) :
    config.hostMatches kvs host = true ↔
      ∀ kv ∈ kvs, metadataValue (config.metadata host) envoyLb kv.1 = some kv.2 := by
  rw [SubsetConfig.hostMatches, List.all_eq_true]
  refine forall₂_congr fun kv hmem => ?_
  cases hvalue : metadataValue (config.metadata host) envoyLb kv.1 with
  | none => simp
  | some value =>
    rw [some_inj]
    exact Value.equal_iff (hhost.value hvalue) (hkvs kv hmem)

theorem extractKeys_spec (fields : Struct) (keys : List Bytes)
    (h : (SubsetConfig.extractKeys fields keys).length = keys.length) :
    (SubsetConfig.extractKeys fields keys).map Prod.fst = keys ∧
      ∀ kv ∈ SubsetConfig.extractKeys fields keys, fields.lookup kv.1 = some kv.2 := by
  induction keys with
  | nil => exact ⟨rfl, forall_mem_nil _⟩
  | cons key keys ih =>
    unfold SubsetConfig.extractKeys at h ⊢
    split at h
    · cases h
    · rename_i value hvalue
      obtain ⟨hnames, hvalues⟩ := ih (Nat.succ.inj h)
      exact ⟨by rw [map_cons, hnames], forall_mem_cons.mpr ⟨hvalue, hvalues⟩⟩

theorem extractKeys_of_values (h : ∀ kv ∈ kvs, fields.lookup kv.1 = some kv.2) :
    SubsetConfig.extractKeys fields (kvs.map Prod.fst) = kvs := by
  induction kvs with
  | nil => rfl
  | cons kv kvs ih =>
    obtain ⟨hfirst, hrest⟩ := forall_mem_cons.mp h
    rw [map_cons, SubsetConfig.extractKeys, hfirst]
    exact congrArg _ (ih hrest)

theorem extract_of_fields (hfields : (config.metadata host).lookup envoyLb = some fields) :
    config.extractSubsetMetadata keys host =
      if (SubsetConfig.extractKeys fields keys).length ≠ keys.length then []
      else SubsetConfig.extractKeys fields keys := by
  rw [SubsetConfig.extractSubsetMetadata, hfields]

theorem extract_spec (h : config.extractSubsetMetadata keys host ≠ []) :
    (config.extractSubsetMetadata keys host).map Prod.fst = keys ∧
      ∀ kv ∈ config.extractSubsetMetadata keys host,
        metadataValue (config.metadata host) envoyLb kv.1 = some kv.2 := by
  cases hfields : (config.metadata host).lookup envoyLb with
  | none => exact absurd (by rw [SubsetConfig.extractSubsetMetadata, hfields]) h
  | some fields =>
    rw [extract_of_fields hfields] at h ⊢
    split at h
    · exact absurd rfl h
    · rename_i hlength
      rw [if_neg hlength]
      obtain ⟨hnames, hvalues⟩ := extractKeys_spec fields keys (not_not.mp hlength)
      refine ⟨hnames, fun kv hmem => ?_⟩
      rw [metadataValue, hfields]
      exact hvalues kv hmem

section

variable (hhost : config.RegularHost host)
include hhost

theorem extract_regular (h : config.extractSubsetMetadata keys host ≠ []) :
    RegularKvs (config.extractSubsetMetadata keys host) :=
  fun kv hmem => hhost.value ((extract_spec h).2 kv hmem)

theorem hostMatches_extract (h : config.extractSubsetMetadata keys host ≠ []) :
    config.hostMatches (config.extractSubsetMetadata keys host) host = true :=
  (hostMatches_iff hhost (extract_regular hhost h)).mpr (extract_spec h).2

theorem extract_of_matches (hkvs : RegularKvs kvs)
    (h : config.hostMatches kvs host = true) :
    config.extractSubsetMetadata (kvs.map Prod.fst) host = kvs := by
  have hvalues := (hostMatches_iff hhost hkvs).mp h
  cases hfields : (config.metadata host).lookup envoyLb with
  | none =>
    rw [SubsetConfig.extractSubsetMetadata, hfields]
    cases kvs with
    | nil => rfl
    | cons kv kvs =>
      have hfirst := hvalues kv mem_cons_self
      rw [metadataValue, hfields] at hfirst
      cases hfirst
  | some fields =>
    have hextract : SubsetConfig.extractKeys fields (kvs.map Prod.fst) = kvs :=
      extractKeys_of_values fun kv hmem => by
        have hvalue := hvalues kv hmem
        rwa [metadataValue, hfields, bind_some] at hvalue
    rw [extract_of_fields hfields, hextract, length_map, if_neg (fun hne => hne rfl)]

end

end Metadata

def HostSet.matching (original : HostSet Host) (healthy : Host → Bool) (predicate : Host → Bool) :
    HostSet Host :=
  .ofHosts healthy (original.hosts.filter predicate)
    (original.hostsPerLocality.map (List.filter predicate))

variable {subset original : HostSet Host} {healthy predicate : Host → Bool}
  {hostsAdded hostsRemoved : List Host}

theorem updateSubset_eq_matching {host : Host} (hmem : host ∈ hostsAdded ∨ host ∈ hostsRemoved)
    (hmatches : predicate host = true) :
    subset.updateSubset original healthy hostsAdded hostsRemoved predicate =
      original.matching healthy predicate := by
  refine if_neg fun hempty => ?_
  obtain ⟨hadded, hremoved⟩ := and_eq_true_iff.mp hempty
  rw [List.isEmpty_iff, filter_eq_nil_iff] at hadded hremoved
  exact hmem.elim (fun hmem => hadded host hmem hmatches) fun hmem => hremoved host hmem hmatches

theorem updateSubset_of_none
    (hnone : ∀ host, host ∈ hostsAdded ∨ host ∈ hostsRemoved → predicate host = false) :
    subset.updateSubset original healthy hostsAdded hostsRemoved predicate = subset := by
  refine if_pos ?_
  rw [and_eq_true, List.isEmpty_iff, List.isEmpty_iff, filter_eq_nil_iff, filter_eq_nil_iff]
  exact ⟨fun host hmem => by simp [hnone host (.inl hmem)],
    fun host hmem => by simp [hnone host (.inr hmem)]⟩

namespace SubsetLoadBalancer

variable {s s' : SubsetLoadBalancer Host} {entry : Nat} {subset : HostSet Host}

@[simp] theorem length_setHostSubset :
    (s.setHostSubset entry subset).entries.length = s.entries.length := length_modify ..

@[simp] theorem kvs_setHostSubset (i : Nat) : (s.setHostSubset entry subset).kvs i = s.kvs i := by
  rw [SubsetLoadBalancer.kvs, SubsetLoadBalancer.kvs, setHostSubset, getElem?_modify]
  split <;> cases s.entries[i]? <;> rfl

theorem hostSubset_setHostSubset (subset : HostSet Host) (h : entry < s.entries.length) :
    (s.setHostSubset entry subset).hostSubset entry = some subset := by
  rw [SubsetLoadBalancer.hostSubset, setHostSubset, getElem?_modify_eq, getElem?_eq_getElem h]
  rfl

theorem hostSubset_setHostSubset_ne {i : Nat} (h : i ≠ entry) :
    (s.setHostSubset entry subset).hostSubset i = s.hostSubset i := by
  rw [SubsetLoadBalancer.hostSubset, SubsetLoadBalancer.hostSubset, setHostSubset,
    getElem?_modify_ne _ _ (Ne.symm h)]

theorem lt_of_hostSubset (h : s.hostSubset entry ≠ none) : entry < s.entries.length := by
  refine Nat.lt_of_not_le fun hle => h ?_
  rw [SubsetLoadBalancer.hostSubset, getElem?_eq_none hle]
  rfl

theorem active_eq_of_hostSubset (h : s.hostSubset entry = some subset) :
    s.active entry = !subset.hosts.isEmpty := by
  obtain ⟨e, he, hsubset⟩ := bind_eq_some_iff.mp h
  rw [SubsetLoadBalancer.active, he, map_some, getD_some, LbSubsetEntry.active, hsubset]

theorem active_eq_false (h : s.hostSubset entry = none) : s.active entry = false := by
  rw [SubsetLoadBalancer.active]
  cases he : s.entries[entry]? with
  | none => rfl
  | some e =>
    rw [SubsetLoadBalancer.hostSubset, he, bind_some] at h
    rw [map_some, getD_some, LbSubsetEntry.active, h]

def nonEmpty (s : SubsetLoadBalancer Host) : Nat := s.entries.countP LbSubsetEntry.active

theorem countP_modify {α : Type} {p : α → Bool} {f : α → α} {l : List α} {i : Nat} {a : α}
    (h : l[i]? = some a) :
    (l.modify i f).countP p + (p a).toNat = l.countP p + (p (f a)).toNat := by
  induction l generalizing i with
  | nil => cases h
  | cons b l ih =>
    cases i with
    | zero =>
      obtain rfl := Option.some.inj h
      rw [modify_zero_cons, countP_cons, countP_cons]
      cases p b <;> cases p (f b) <;> simp
    | succ i =>
      rw [modify_succ_cons, countP_cons, countP_cons]
      have := ih (i := i) h
      omega

theorem nonEmpty_setHostSubset (subset : HostSet Host) (h : entry < s.entries.length) :
    (s.setHostSubset entry subset).nonEmpty + (s.active entry).toNat =
      s.nonEmpty + (!subset.hosts.isEmpty).toNat := by
  have hentry := getElem?_eq_getElem h
  rw [SubsetLoadBalancer.active, hentry]
  exact countP_modify hentry

/-- The subset that `updateEntry` leaves in the entry. -/
def updatedSubset (s : SubsetLoadBalancer Host) (hostsAdded hostsRemoved : List Host) (entry : Nat)
    (predicate : Host → Bool) (addingHost : Bool) : Option (HostSet Host) :=
  match s.hostSubset entry with
  | some subset =>
    some (subset.updateSubset s.original s.healthy hostsAdded hostsRemoved predicate)
  | none => if addingHost then some (s.initLoadBalancer predicate) else none

/-- What an update of an entry leaves as it is. -/
structure SameBut (entry : Nat) (s s' : SubsetLoadBalancer Host) : Prop where
  original : s'.original = s.original
  healthy : s'.healthy = s.healthy
  fallbackSubset : s'.fallbackSubset = s.fallbackSubset
  children : s'.children = s.children
  length : s'.entries.length = s.entries.length
  kvs : ∀ i, s'.kvs i = s.kvs i
  others : ∀ i ≠ entry, s'.hostSubset i = s.hostSubset i

theorem SameBut.refl (entry : Nat) (s : SubsetLoadBalancer Host) : SameBut entry s s :=
  ⟨rfl, rfl, rfl, rfl, rfl, fun _ => rfl, fun _ _ => rfl⟩

theorem sameBut_setHostSubset (s : SubsetLoadBalancer Host) (entry : Nat) (subset : HostSet Host) :
    SameBut entry s (s.setHostSubset entry subset) :=
  ⟨rfl, rfl, rfl, rfl, length_setHostSubset, kvs_setHostSubset,
    fun _ hne => hostSubset_setHostSubset_ne hne⟩

theorem SameBut.countCreated (h : SameBut entry s s') : SameBut entry s s'.countCreated :=
  { h with }

theorem SameBut.countRemoved (h : SameBut entry s s') : SameBut entry s s'.countRemoved :=
  { h with }

theorem updateEntry_spec {hostsAdded hostsRemoved : List Host} {predicate : Host → Bool}
    {addingHost : Bool} (h : entry < s.entries.length)
    (hinit : addingHost = true → s.hostSubset entry = none →
      (s.initLoadBalancer predicate).hosts ≠ []) (hcount : s.lbSubsetsActive = s.nonEmpty)
    (hresult : s.updateEntry hostsAdded hostsRemoved entry predicate addingHost = s') :
    SameBut entry s s' ∧
      s'.hostSubset entry = s.updatedSubset hostsAdded hostsRemoved entry predicate addingHost ∧
      s'.lbSubsetsActive = s'.nonEmpty := by
  unfold updateEntry at hresult
  unfold updatedSubset
  cases hsubset : s.hostSubset entry with
  | none =>
    rw [hsubset] at hresult
    dsimp only at hresult
    split at hresult
    · rename_i hadding
      subst hresult
      rw [if_pos hadding]
      have hnew := nonEmpty_setHostSubset (s.initLoadBalancer predicate) h
      rw [active_eq_false hsubset, isEmpty_eq_false_iff.mpr (hinit hadding hsubset)] at hnew
      refine ⟨(sameBut_setHostSubset s entry _).countCreated, hostSubset_setHostSubset _ h, ?_⟩
      show s.lbSubsetsActive + 1 = (s.setHostSubset entry (s.initLoadBalancer predicate)).nonEmpty
      rw [hcount]
      exact_mod_cast hnew.symm
    · rename_i hadding
      subst hresult
      exact ⟨.refl entry s, by rw [hsubset, if_neg hadding], hcount⟩
  | some subset =>
    rw [hsubset] at hresult
    dsimp only at hresult ⊢
    generalize hupdated :
      subset.updateSubset s.original s.healthy hostsAdded hostsRemoved predicate = updated at hresult
    have hsame := sameBut_setHostSubset s entry updated
    have hset := hostSubset_setHostSubset updated h
    have hnew := nonEmpty_setHostSubset updated h
    rw [← active_eq_of_hostSubset hset] at hnew
    split at hresult
    · rename_i hremoved
      subst hresult
      obtain ⟨hbefore, hafter⟩ := and_eq_true_iff.mp hremoved
      rw [hbefore, (not_eq_true' _).mp hafter] at hnew
      refine ⟨hsame.countRemoved, hset, ?_⟩
      show s.lbSubsetsActive - 1 = (s.setHostSubset entry updated).nonEmpty
      simp only [toNat_true, toNat_false] at hnew
      omega
    · rename_i hkept
      split at hresult
      · rename_i hcreated
        subst hresult
        obtain ⟨hbefore, hafter⟩ := and_eq_true_iff.mp hcreated
        rw [(not_eq_true' _).mp hbefore, hafter] at hnew
        refine ⟨hsame.countCreated, hset, ?_⟩
        show s.lbSubsetsActive + 1 = (s.setHostSubset entry updated).nonEmpty
        simp only [toNat_true, toNat_false] at hnew
        omega
      · rename_i hcreated
        subst hresult
        refine ⟨hsame, hset, ?_⟩
        show s.lbSubsetsActive = (s.setHostSubset entry updated).nonEmpty
        have hactive : (s.setHostSubset entry updated).active entry = s.active entry := by
          cases hbefore : s.active entry <;>
            cases hafter : (s.setHostSubset entry updated).active entry <;> simp_all
        rw [hactive] at hnew
        omega

end SubsetLoadBalancer

end Meliproxy.Envoy.Upstream
