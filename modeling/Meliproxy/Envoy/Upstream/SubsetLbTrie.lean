import Meliproxy.Envoy.Upstream.SubsetLb

/-!
# The trie of subsets

In a trie of regular values the way to an entry is the list of its names and values, and every such
list leads to at most one entry. `findOrCreateSubset` keeps that and touches no subset.
-/

namespace Meliproxy.Envoy.Upstream

open Lib List Config Router Option

variable {Host : Type} {config : SubsetConfig Host}

def RegularKvs (kvs : SubsetMetadata) : Prop := ∀ kv ∈ kvs, kv.2.regular = true

namespace SubsetLoadBalancer

variable {s s' : SubsetLoadBalancer Host} {entry entry' : Nat} {name : Bytes} {value : Value}
  {path : SubsetMetadata}

def walk (config : SubsetConfig Host) (s : SubsetLoadBalancer Host) : Nat → SubsetMetadata → Option Nat
  | entry, [] => some entry
  | entry, kv :: kvs => (s.findChild config entry kv.1 kv.2).bind fun entry => s.walk config entry kvs

theorem findSubset_eq_walk (h : path ≠ []) :
    s.findSubset config entry path = s.walk config entry path := by
  induction path generalizing entry with
  | nil => exact absurd rfl h
  | cons kv path ih =>
    rw [findSubset, walk]
    cases s.findChild config entry kv.1 kv.2 with
    | none => rfl
    | some child =>
      cases path with
      | nil => rfl
      | cons kv' path => exact ih (cons_ne_nil _ _)

theorem walk_append (rest : SubsetMetadata) : s.walk config entry (path ++ rest) =
      (s.walk config entry path).bind fun entry => s.walk config entry rest := by
  induction path generalizing entry with
  | nil => rfl
  | cons kv path ih =>
    rw [cons_append, walk, walk, bind_assoc]
    congr 1
    funext child
    exact ih

structure Tree (config : SubsetConfig Host) (s : SubsetLoadBalancer Host) : Prop where
  nonempty : 0 < s.entries.length
  root : s.kvs 0 = []
  children : ∀ child ∈ s.children, child.parent < s.entries.length ∧
    child.entry < s.entries.length ∧ child.value.regular = true ∧
    s.kvs child.entry = s.kvs child.parent ++ [(child.name, child.value)]
  reaches : ∀ entry < s.entries.length, s.walk config 0 (s.kvs entry) = some entry
  regular : ∀ entry, RegularKvs (s.kvs entry)

section

variable (h : Tree config s)
include h

theorem Tree.findChild (hvalue : value.regular = true)
    (hfound : s.findChild config entry name value = some entry') :
    entry' < s.entries.length ∧ s.kvs entry' = s.kvs entry ++ [(name, value)] := by
  obtain ⟨child, hchild, rfl⟩ := map_eq_some_iff.mp hfound
  obtain ⟨-, hlt, hregular, hkvs⟩ := h.children child (mem_of_find?_eq_some hchild)
  have hsame := find?_some hchild
  simp only [Bool.and_eq_true, beq_iff_eq] at hsame
  obtain ⟨⟨rfl, rfl⟩, hequal⟩ := hsame
  rw [(hashedEqual_iff config.hash hregular hvalue).mp hequal] at hkvs
  exact ⟨hlt, hkvs⟩

theorem Tree.walk (hentry : entry < s.entries.length) (hpath : RegularKvs path)
    (hwalk : s.walk config entry path = some entry') :
    entry' < s.entries.length ∧ s.kvs entry' = s.kvs entry ++ path := by
  induction path generalizing entry with
  | nil =>
    cases hwalk
    exact ⟨hentry, (append_nil _).symm⟩
  | cons kv path ih =>
    obtain ⟨child, hchild, hrest⟩ := bind_eq_some_iff.mp hwalk
    obtain ⟨hregular, hrestKvs⟩ := forall_mem_cons.mp hpath
    obtain ⟨hlt, hfirst⟩ := h.findChild hregular hchild
    obtain ⟨hlt', hlast⟩ := ih hlt hrestKvs hrest
    exact ⟨hlt', by rw [hlast, hfirst, append_assoc]; rfl⟩

theorem Tree.walk_iff (hpath : RegularKvs path) :
    s.walk config 0 path = some entry ↔ entry < s.entries.length ∧ s.kvs entry = path := by
  constructor
  · intro hwalk
    obtain ⟨hlt, heq⟩ := h.walk h.nonempty hpath hwalk
    rw [h.root, nil_append] at heq
    exact ⟨hlt, heq⟩
  · rintro ⟨hlt, rfl⟩
    exact h.reaches entry hlt

theorem Tree.kvs_inj (hentry : entry < s.entries.length)
    (hentry' : entry' < s.entries.length) (heq : s.kvs entry = s.kvs entry') : entry = entry' := by
  have hreach := h.reaches entry hentry
  rw [heq, h.reaches entry' hentry'] at hreach
  exact (Option.some.inj hreach).symm

end

theorem walk_congr (h : s'.children = s.children) (entry : Nat) (path : SubsetMetadata) :
    s'.walk config entry path = s.walk config entry path := by
  induction path generalizing entry with
  | nil => rfl
  | cons kv path ih =>
    rw [SubsetLoadBalancer.walk, SubsetLoadBalancer.walk, SubsetLoadBalancer.findChild,
      SubsetLoadBalancer.findChild, h]
    congr 1
    funext child
    exact ih child

theorem Tree.congr (h : Tree config s) (hchildren : s'.children = s.children)
    (hlength : s'.entries.length = s.entries.length) (hkvs : ∀ entry, s'.kvs entry = s.kvs entry) :
    Tree config s' where
  nonempty := by rw [hlength]; exact h.nonempty
  root := by rw [hkvs]; exact h.root
  children := by
    rw [hchildren, hlength]
    intro child hmem
    rw [hkvs, hkvs]
    exact h.children child hmem
  reaches := by
    intro entry hentry
    rw [hkvs, walk_congr hchildren]
    exact h.reaches entry (hlength ▸ hentry)
  regular := fun entry => by rw [hkvs]; exact h.regular entry

/-- New entries at the end, without subsets. -/
structure Grows (s s' : SubsetLoadBalancer Host) : Prop where
  original : s'.original = s.original
  healthy : s'.healthy = s.healthy
  fallbackSubset : s'.fallbackSubset = s.fallbackSubset
  lbSubsetsActive : s'.lbSubsetsActive = s.lbSubsetsActive
  entries : ∃ created, s'.entries = s.entries ++ created ∧ ∀ e ∈ created, e.hostSubset = none

theorem Grows.refl (s : SubsetLoadBalancer Host) : Grows s s :=
  ⟨rfl, rfl, rfl, rfl, [], (append_nil _).symm, forall_mem_nil _⟩

theorem Grows.trans {s'' : SubsetLoadBalancer Host} (h : Grows s s') (h' : Grows s' s'') :
    Grows s s'' := by
  obtain ⟨created, heq, hnone⟩ := h.entries
  obtain ⟨created', heq', hnone'⟩ := h'.entries
  refine ⟨h'.original.trans h.original, h'.healthy.trans h.healthy,
    h'.fallbackSubset.trans h.fallbackSubset, h'.lbSubsetsActive.trans h.lbSubsetsActive,
    created ++ created', by rw [heq', heq, append_assoc], fun e he => ?_⟩
  exact (mem_append.mp he).elim (hnone e) (hnone' e)

theorem Grows.length (h : Grows s s') : s.entries.length ≤ s'.entries.length := by
  obtain ⟨created, heq, -⟩ := h.entries
  rw [heq, length_append]
  exact Nat.le_add_right _ _

theorem Grows.kvs (h : Grows s s') (hentry : entry < s.entries.length) :
    s'.kvs entry = s.kvs entry := by
  obtain ⟨created, heq, -⟩ := h.entries
  rw [SubsetLoadBalancer.kvs, SubsetLoadBalancer.kvs, heq, getElem?_append_left hentry]

theorem Grows.hostSubset (h : Grows s s') (entry : Nat) :
    s'.hostSubset entry = s.hostSubset entry := by
  obtain ⟨created, heq, hnone⟩ := h.entries
  rw [SubsetLoadBalancer.hostSubset, SubsetLoadBalancer.hostSubset, heq, getElem?_append]
  split
  · rfl
  · rename_i hlt
    rw [getElem?_eq_none (Nat.not_lt.mp hlt)]
    cases hcreated : created[entry - s.entries.length]? with
    | none => rfl
    | some e => exact hnone e (mem_of_getElem? hcreated)

theorem Grows.countP (h : Grows s s') :
    s'.entries.countP LbSubsetEntry.active = s.entries.countP LbSubsetEntry.active := by
  obtain ⟨created, heq, hnone⟩ := h.entries
  rw [heq, countP_append, Nat.add_eq_left, countP_eq_zero]
  intro e he
  simp [LbSubsetEntry.active, hnone e he]

theorem grows_createEntry (s : SubsetLoadBalancer Host) (entry : Nat) (name : Bytes)
    (value : Value) : Grows s (s.createEntry entry name value) :=
  ⟨rfl, rfl, rfl, rfl, _, rfl, fun e he => by rw [mem_singleton.mp he]⟩

theorem kvs_createEntry :
    (s.createEntry entry name value).kvs s.entries.length = s.kvs entry ++ [(name, value)] := by
  rw [SubsetLoadBalancer.kvs, createEntry, getElem?_concat_length]
  rfl

theorem findChild_createEntry {entry₁ : Nat} {name₁ : Bytes} {value₁ : Value}
    (h : s.findChild config entry₁ name₁ value₁ = some entry') :
    (s.createEntry entry name value).findChild config entry₁ name₁ value₁ = some entry' := by
  obtain ⟨child, hchild, rfl⟩ := map_eq_some_iff.mp h
  rw [SubsetLoadBalancer.findChild, createEntry, find?_append, hchild]
  rfl

theorem walk_createEntry {entry₁ : Nat} (h : s.walk config entry₁ path = some entry') :
    (s.createEntry entry name value).walk config entry₁ path = some entry' := by
  induction path generalizing entry₁ with
  | nil => exact h
  | cons kv path ih =>
    obtain ⟨child, hchild, hrest⟩ := bind_eq_some_iff.mp h
    rw [SubsetLoadBalancer.walk, findChild_createEntry hchild]
    exact ih hrest

theorem tree_createEntry (h : Tree config s) (hentry : entry < s.entries.length)
    (hvalue : value.regular = true) (hnone : s.findChild config entry name value = none) :
    Tree config (s.createEntry entry name value) := by
  have hgrows := grows_createEntry s entry name value
  have hlength : (s.createEntry entry name value).entries.length = s.entries.length + 1 :=
    length_append
  have hnew : (s.createEntry entry name value).findChild config entry name value =
      some s.entries.length := by
    rw [SubsetLoadBalancer.findChild, map_eq_none_iff] at hnone
    rw [SubsetLoadBalancer.findChild, createEntry, find?_append, hnone]
    simp [(hashedEqual_iff config.hash hvalue hvalue).mpr rfl]
  refine ⟨by omega, ?_, ?_, ?_, ?_⟩
  · rw [hgrows.kvs h.nonempty]
    exact h.root
  · intro child hmem
    rw [hlength]
    rcases mem_append.mp hmem with hmem | hmem
    · obtain ⟨hparent, hlt, hregular, hkvs⟩ := h.children child hmem
      rw [hgrows.kvs hparent, hgrows.kvs hlt]
      exact ⟨Nat.lt_succ_of_lt hparent, Nat.lt_succ_of_lt hlt, hregular, hkvs⟩
    · obtain rfl := mem_singleton.mp hmem
      rw [hgrows.kvs hentry]
      exact ⟨Nat.lt_succ_of_lt hentry, Nat.lt_succ_self _, hvalue, kvs_createEntry⟩
  · intro i hi
    rcases Nat.lt_or_ge i s.entries.length with hlt | hge
    · rw [hgrows.kvs hlt]
      exact walk_createEntry (h.reaches i hlt)
    · obtain rfl : i = s.entries.length := by omega
      rw [kvs_createEntry, walk_append, walk_createEntry (h.reaches entry hentry), bind_some,
        SubsetLoadBalancer.walk, hnew]
      rfl
  · intro i
    rcases Nat.lt_trichotomy i s.entries.length with hlt | rfl | hgt
    · rw [hgrows.kvs hlt]
      exact h.regular i
    · rw [kvs_createEntry]
      intro kv hmem
      rcases mem_append.mp hmem with hmem | hmem
      · exact h.regular entry kv hmem
      · rw [mem_singleton.mp hmem]
        exact hvalue
    · rw [SubsetLoadBalancer.kvs, getElem?_eq_none (by omega)]
      exact forall_mem_nil _

theorem findOrCreateSubset_spec (h : Tree config s) (hentry : entry < s.entries.length)
    (hpath : RegularKvs path) (hresult : s.findOrCreateSubset config entry path = (s', entry')) :
    Tree config s' ∧ Grows s s' ∧ entry' < s'.entries.length ∧
      s'.kvs entry' = s.kvs entry ++ path := by
  induction path generalizing s entry with
  | nil =>
    obtain ⟨rfl, rfl⟩ := Prod.mk.inj hresult
    exact ⟨h, .refl s, hentry, (append_nil _).symm⟩
  | cons kv path ih =>
    obtain ⟨hvalue, hrest⟩ := forall_mem_cons.mp hpath
    unfold SubsetLoadBalancer.findOrCreateSubset at hresult
    split at hresult
    · rename_i child hchild
      obtain ⟨hlt, hkvs⟩ := h.findChild hvalue hchild
      obtain ⟨htree, hgrows, hlt', hkvs'⟩ := ih h hlt hrest hresult
      exact ⟨htree, hgrows, hlt', by rw [hkvs', hkvs, append_assoc]; rfl⟩
    · rename_i hnone
      have hgrows := grows_createEntry s entry kv.1 kv.2
      have hlength : s.entries.length < (s.createEntry entry kv.1 kv.2).entries.length := by
        rw [createEntry, length_append]
        exact Nat.lt_succ_self _
      obtain ⟨htree, hgrows', hlt', hkvs'⟩ :=
        ih (tree_createEntry h hentry hvalue hnone) hlength hrest hresult
      refine ⟨htree, hgrows.trans hgrows', hlt', ?_⟩
      rw [hkvs', kvs_createEntry, append_assoc]
      rfl

end SubsetLoadBalancer

end Meliproxy.Envoy.Upstream
