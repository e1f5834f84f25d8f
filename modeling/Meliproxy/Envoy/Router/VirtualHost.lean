import Meliproxy.Envoy.Http.HeaderMap
import Meliproxy.Lib.Runs
import Meliproxy.Lib.SuffixTable

/-!
# The choice of a virtual host

`RouteMatcher` keeps the domains of its virtual hosts in three places: the exact ones, the
wildcards by the length of their suffix, and the one virtual host of `*`. `Documented` is
the rule: an exact domain first, then the longest wildcard, then `*`.
-/

namespace Meliproxy.Envoy.Router

open Lib List Option SuffixTable

variable {VirtualHost : Type}

structure RouteMatcher (VirtualHost : Type) where
  virtualHosts : List (Bytes × VirtualHost)
  wildcardVirtualHostSuffixes : List (Nat × List (Bytes × VirtualHost))
  defaultVirtualHost : Option VirtualHost

inductive ConfigError where
  | severalDefaults
  | duplicateDomain (domain : Bytes)

def ConfigError.message : ConfigError → Bytes
  | .severalDefaults => ascii "Only a single single wildcard domain is permitted"
  | .duplicateDomain domain =>
    ascii "Only unique values for domains are permitted. Duplicate entry of domain " ++ domain

namespace RouteMatcher

def empty : RouteMatcher VirtualHost := ⟨[], [], none⟩

variable (m : RouteMatcher VirtualHost)

def addDomain (entry : Bytes × VirtualHost) :
    Except ConfigError (RouteMatcher VirtualHost) :=
  match entry.1 with
  | [42] =>
    if m.defaultVirtualHost.isSome then .error .severalDefaults
    else .ok { m with defaultVirtualHost := some entry.2 }
  | 42 :: suffix =>
    .ok { m with wildcardVirtualHostSuffixes :=
      SuffixTable.insert suffix entry.2 m.wildcardVirtualHostSuffixes }
  | domain =>
    if (m.virtualHosts.lookup domain).isSome then .error (.duplicateDomain domain)
    else .ok { m with virtualHosts := m.virtualHosts ++ [(domain, entry.2)] }

variable (config : List (VirtualHost × List Bytes))

def entriesOf : List (Bytes × VirtualHost) :=
  config.flatMap fun v => v.2.map fun domain => (domain, v.1)

def ofConfig :
    Except ConfigError (RouteMatcher VirtualHost) := (entriesOf config).foldlM addDomain empty

def findWildcardVirtualHost (host : Bytes) : Option VirtualHost :=
  SuffixTable.find host m.wildcardVirtualHostSuffixes

def findVirtualHost (hostHeader : Http.HeaderString) :
    Option VirtualHost :=
  if m.virtualHosts.isEmpty && m.defaultVirtualHost.isSome then m.defaultVirtualHost
  else
    let host := hostHeader.cStr
    match m.virtualHosts.lookup host with
    | some virtualHost => some virtualHost
    | none =>
      if m.wildcardVirtualHostSuffixes.isEmpty then m.defaultVirtualHost
      else
        match m.findWildcardVirtualHost host with
        | some virtualHost => some virtualHost
        | none => m.defaultVirtualHost

end RouteMatcher

open RouteMatcher

def exactDomain (entry : Bytes × VirtualHost) : Option (Bytes × VirtualHost) :=
  if entry.1.head? = some 42 then none else some entry

def wildcardSuffix (entry : Bytes × VirtualHost) : Option (Bytes × VirtualHost) :=
  match entry.1 with
  | 42 :: c :: suffix => some (c :: suffix, entry.2)
  | _ => none

def exactDomains (config : List (VirtualHost × List Bytes)) : List (Bytes × VirtualHost) :=
  (entriesOf config).filterMap exactDomain

def wildcardSuffixes (config : List (VirtualHost × List Bytes)) : List (Bytes × VirtualHost) :=
  (entriesOf config).filterMap wildcardSuffix

/-- The virtual host that a host must get. -/
inductive Documented (config : List (VirtualHost × List Bytes)) (host : Bytes) :
    Option VirtualHost → Prop where
  | exact {v : VirtualHost} : (host, v) ∈ exactDomains config → Documented config host (some v)
  | wildcard {suffix : Bytes} {v : VirtualHost} : (∀ v, (host, v) ∉ exactDomains config) →
      SuffixTable.Longest (wildcardSuffixes config) host suffix v → Documented config host (some v)
  | default {v : VirtualHost} : (∀ v, (host, v) ∉ exactDomains config) →
      (∀ e ∈ wildcardSuffixes config, e.1 <:+ host → e.1 = host) →
      ([42], v) ∈ entriesOf config → Documented config host (some v)
  | none : (∀ v, (host, v) ∉ exactDomains config) →
      (∀ e ∈ wildcardSuffixes config, e.1 <:+ host → e.1 = host) →
      (∀ v, ([42], v) ∉ entriesOf config) → Documented config host none

/-- The wildcard that the rule gives to the host is passed over for `*`. -/
def Shadowed (config : List (VirtualHost × List Bytes)) (host : Bytes) : Prop :=
  exactDomains config = [] ∧ ∃ v, ([42], v) ∈ entriesOf config ∧
    ∃ suffix v', SuffixTable.Longest (wildcardSuffixes config) host suffix v' ∧ v' ≠ v

/-- What the tables are after these domains. -/
structure Built (entries : List (Bytes × VirtualHost)) (m : RouteMatcher VirtualHost) : Prop where
  exact : m.virtualHosts = entries.filterMap exactDomain
  unique : (m.virtualHosts.map Prod.fst).Nodup
  wildcard : SuffixTable.Holds (entries.filterMap wildcardSuffix) m.wildcardVirtualHostSuffixes
  default : ∀ v, m.defaultVirtualHost = some v ↔ ([42], v) ∈ entries

theorem built_empty : Built ([] : List (Bytes × VirtualHost)) empty :=
  ⟨rfl, nodup_nil, holds_nil, by simp [empty]⟩

theorem domain_cases (domain : Bytes) :
    domain = [42] ∨ (∃ c suffix, domain = 42 :: c :: suffix) ∨ domain.head? ≠ some 42 := by
  match domain with
  | [] => exact .inr (.inr (by simp))
  | [c] =>
    by_cases h : c = 42
    · exact .inl (by rw [h])
    · exact .inr (.inr (by simpa using h))
  | c :: c' :: suffix =>
    by_cases h : c = 42
    · exact .inr (.inl ⟨c', suffix, by rw [h]⟩)
    · exact .inr (.inr (by simpa using h))

variable {entry : Bytes × VirtualHost}

theorem addDomain_exact (m : RouteMatcher VirtualHost) (h : entry.1.head? ≠ some 42) :
    m.addDomain entry =
      if (m.virtualHosts.lookup entry.1).isSome then .error (.duplicateDomain entry.1)
      else .ok { m with virtualHosts := m.virtualHosts ++ [entry] } := by
  obtain ⟨domain, v⟩ := entry
  simp only at h
  unfold addDomain
  split
  · rename_i heq
    exact absurd (by rw [show domain = [42] from heq]; rfl) h
  · rename_i suffix _ heq
    exact absurd (by rw [show domain = 42 :: suffix from heq]; rfl) h
  · rfl

variable {table : List (Bytes × VirtualHost)}

theorem nodup_snoc_of_lookup (hnodup : (table.map Prod.fst).Nodup)
    (hnone : table.lookup entry.1 = none) : ((table ++ [entry]).map Prod.fst).Nodup := by
  rw [map_append, map_cons, map_nil]
  refine List.Nodup.append hnodup (nodup_singleton _) (disjoint_singleton.mpr ?_)
  intro h
  obtain ⟨e, he, heq⟩ := List.mem_map.mp h
  have hne := List.lookup_eq_none_iff.mp hnone e he
  simp [heq] at hne

variable {m : RouteMatcher VirtualHost}

theorem built_addDomain {entries : List (Bytes × VirtualHost)} {m' : RouteMatcher VirtualHost}
    (hb : Built entries m) (hadd : m.addDomain entry = .ok m') : Built (entries ++ [entry]) m' := by
  rcases domain_cases entry.1 with hstar | ⟨c, suffix, hwild⟩ | hexact
  · obtain ⟨domain, v⟩ := entry
    obtain rfl : domain = [42] := hstar
    simp only [addDomain] at hadd
    split at hadd
    · cases hadd
    · rename_i hnone
      cases hadd
      refine ⟨?_, hb.unique, ?_, ?_⟩
      · simp [hb.exact, exactDomain]
      · have hsame : (entries ++ [([42], v)]).filterMap wildcardSuffix =
            entries.filterMap wildcardSuffix := by simp [wildcardSuffix]
        rw [hsame]
        exact hb.wildcard
      · intro v'
        have hold := hb.default v'
        have habsent : ([42], v') ∉ entries := by
          rw [← hold]
          intro h
          simp [h] at hnone
        simp [habsent, eq_comm]
  · obtain ⟨domain, v⟩ := entry
    obtain rfl : domain = 42 :: c :: suffix := hwild
    simp only [addDomain] at hadd
    cases hadd
    refine ⟨?_, hb.unique, ?_, ?_⟩
    · simp [hb.exact, exactDomain]
    · have hsnoc : (entries ++ [(42 :: c :: suffix, v)]).filterMap wildcardSuffix =
          entries.filterMap wildcardSuffix ++ [(c :: suffix, v)] := by simp [wildcardSuffix]
      rw [hsnoc]
      exact holds_insert hb.wildcard _ _
    · intro v'
      simpa using hb.default v'
  · rw [addDomain_exact m hexact] at hadd
    split at hadd
    · cases hadd
    · rename_i hnone
      cases hadd
      have hlookup := not_isSome_iff_eq_none.mp hnone
      refine ⟨?_, nodup_snoc_of_lookup hb.unique hlookup, ?_, ?_⟩
      · simp [hb.exact, exactDomain, hexact]
      · have hsame : (entries ++ [entry]).filterMap wildcardSuffix =
            entries.filterMap wildcardSuffix := by
          have hwild : wildcardSuffix entry = none := by
            unfold wildcardSuffix
            split
            · rename_i c suffix heq
              exact absurd (by rw [heq]; rfl) hexact
            · rfl
          simp [hwild]
        rw [hsame]
        exact hb.wildcard
      · intro v'
        have hne : ([42], v') ≠ entry := by
          rintro rfl
          exact hexact rfl
        simpa [hne] using hb.default v'

theorem built_ofConfig {config : List (VirtualHost × List Bytes)} (h : ofConfig config = .ok m) :
    Built (entriesOf config) m := by
  have hfold : ∀ (todo done : List (Bytes × VirtualHost)) (m₀ : RouteMatcher VirtualHost),
      Built done m₀ → todo.foldlM addDomain m₀ = .ok m → Built (done ++ todo) m := by
    intro todo
    induction todo with
    | nil =>
      intro done m₀ hb hrun
      cases hrun
      simpa using hb
    | cons entry todo ih =>
      intro done m₀ hb hrun
      rw [foldlM_cons] at hrun
      obtain ⟨m₁, h₁, hrest⟩ := ok_of_bind hrun
      simpa using ih (done ++ [entry]) m₁ (built_addDomain hb h₁) hrest
  exact hfold _ [] empty built_empty h

theorem lookup_iff_mem (h : (table.map Prod.fst).Nodup) (domain : Bytes) (v : VirtualHost) :
    table.lookup domain = some v ↔ (domain, v) ∈ table := by
  constructor
  · exact mem_of_lookup
  · intro hmem
    cases hlookup : table.lookup domain with
    | none =>
      have hne := List.lookup_eq_none_iff.mp hlookup _ hmem
      simp at hne
    | some v' =>
      have hsame := inj_on_of_nodup_map h (mem_of_lookup hlookup) hmem rfl
      exact congrArg some (Prod.ext_iff.mp hsame).2

section Search
variable {config : List (VirtualHost × List Bytes)} {m : RouteMatcher VirtualHost} {host : Bytes}

variable (m)

def searchTables (host : Bytes) : Option VirtualHost :=
  (m.virtualHosts.lookup host).or ((m.findWildcardVirtualHost host).or m.defaultVirtualHost)

theorem findVirtualHost_eq (hostHeader : Http.HeaderString) :
    m.findVirtualHost hostHeader =
      if m.virtualHosts = [] ∧ m.defaultVirtualHost.isSome then m.defaultVirtualHost
      else searchTables m hostHeader.cStr := by
  unfold findVirtualHost searchTables
  by_cases hfast : m.virtualHosts = [] ∧ m.defaultVirtualHost.isSome
  · simp [hfast]
  · have hfast' : (m.virtualHosts.isEmpty && m.defaultVirtualHost.isSome) = false := by
      simpa using hfast
    simp only [hfast, hfast', if_false, Bool.false_eq_true]
    cases m.virtualHosts.lookup hostHeader.cStr with
    | some v => rfl
    | none =>
      cases hwild : m.wildcardVirtualHostSuffixes with
      | nil => simp [findWildcardVirtualHost, hwild, SuffixTable.find]
      | cons b table =>
        simp only [isEmpty_cons, Bool.false_eq_true, if_false]
        cases m.findWildcardVirtualHost hostHeader.cStr <;> rfl

variable {m}

section

variable (hb : Built (entriesOf config) m)
include hb

theorem lookup_eq_none_iff :
    m.virtualHosts.lookup host = none ↔ ∀ v, (host, v) ∉ exactDomains config := by
  have hlookup := lookup_iff_mem hb.unique host
  rw [hb.exact] at hlookup ⊢
  rw [eq_none_iff_forall_ne_some]
  exact forall_congr' fun v => not_congr (hlookup v)

theorem findWildcard_eq_none (h : ∀ e ∈ wildcardSuffixes config, e.1 <:+ host → e.1 = host) :
    m.findWildcardVirtualHost host = none := by
  rw [eq_none_iff_forall_ne_some]
  intro v hv
  obtain ⟨suffix, hlongest⟩ := (find_eq_some_iff hb.wildcard v).mp hv
  exact hlongest.proper (h _ (mem_of_lookup hlongest.first) hlongest.suffix)

theorem documented_iff (r : Option VirtualHost) :
    Documented config host r ↔ r = searchTables m host := by
  unfold searchTables
  constructor
  · intro h
    cases h with
    | exact hmem =>
      rw [exactDomains, ← hb.exact] at hmem
      rw [(lookup_iff_mem hb.unique host _).mpr hmem]
      rfl
    | wildcard hexact hlongest =>
      rw [(lookup_eq_none_iff hb).mpr hexact, findWildcardVirtualHost,
        (find_eq_some_iff hb.wildcard _).mpr ⟨_, hlongest⟩]
      rfl
    | default hexact hwild hmem =>
      rw [(lookup_eq_none_iff hb).mpr hexact, findWildcard_eq_none hb hwild,
        (hb.default _).mpr hmem]
      rfl
    | none hexact hwild hmem =>
      have hdefault : m.defaultVirtualHost = none := by
        rw [eq_none_iff_forall_ne_some]
        exact fun v hv => hmem v ((hb.default v).mp hv)
      rw [(lookup_eq_none_iff hb).mpr hexact, findWildcard_eq_none hb hwild, hdefault]
      rfl
  · rintro rfl
    cases hlookup : m.virtualHosts.lookup host with
    | some v =>
      refine .exact ?_
      have hmem := mem_of_lookup hlookup
      rwa [hb.exact] at hmem
    | none =>
      have hexact := (lookup_eq_none_iff hb).mp hlookup
      cases hwild : m.findWildcardVirtualHost host with
      | some v =>
        obtain ⟨suffix, hlongest⟩ := longest_of_find hb.wildcard hwild
        exact .wildcard hexact hlongest
      | none =>
        have hother := eq_of_find_none hb.wildcard hwild
        cases hdefault : m.defaultVirtualHost with
        | some v => exact .default hexact hother ((hb.default v).mp hdefault)
        | none =>
          refine .none hexact hother ?_
          intro v hmem
          rw [(hb.default v).mpr hmem] at hdefault
          cases hdefault

end

/-- The choice follows the rule, unless the configuration has no exact domain and the
virtual host of `*` hides the wildcard. -/
theorem findVirtualHost_documented_iff (hostHeader : Http.HeaderString)
    (hconfig : ofConfig config = .ok m) :
    Documented config hostHeader.cStr (m.findVirtualHost hostHeader) ↔
      ¬ Shadowed config hostHeader.cStr := by
  have hb := built_ofConfig hconfig
  have hexact : exactDomains config = m.virtualHosts := hb.exact.symm
  rw [documented_iff hb, findVirtualHost_eq]
  by_cases hfast : m.virtualHosts = [] ∧ m.defaultVirtualHost.isSome
  · obtain ⟨v, hv⟩ := isSome_iff_exists.mp hfast.2
    rw [if_pos hfast, hv, searchTables, hfast.1, lookup_nil, none_or, hv]
    cases hwild : m.findWildcardVirtualHost hostHeader.cStr with
    | none =>
      refine iff_of_true rfl ?_
      rintro ⟨-, -, -, suffix, v', hlongest, -⟩
      have hfind := (find_eq_some_iff hb.wildcard v').mpr ⟨suffix, hlongest⟩
      cases hwild.symm.trans hfind
    | some v' =>
      obtain ⟨suffix, hlongest⟩ := longest_of_find hb.wildcard hwild
      constructor
      · rintro heq ⟨-, w, hw, suffix', w', hlongest', hne⟩
        obtain rfl : v = v' := Option.some.inj heq
        cases hv.symm.trans ((hb.default w).mpr hw)
        exact hne (hlongest'.unique hlongest).2
      · intro hshadow
        by_contra hne
        refine hshadow ⟨hexact.trans hfast.1, v, (hb.default v).mp hv, suffix, v', hlongest, ?_⟩
        rintro rfl
        exact hne rfl
  · rw [if_neg hfast]
    refine iff_of_true rfl ?_
    rintro ⟨hempty, v, hv, -⟩
    refine hfast ⟨hexact.symm.trans hempty, ?_⟩
    rw [(hb.default v).mpr hv]
    rfl

end Search

def sampleConfig (exact : List Bytes) : List (Nat × List Bytes) :=
  [(1, exact), (2, [ascii "*.foo.com"]), (3, [ascii "*"])]

theorem findVirtualHost_documented_exact : ∃ m, ofConfig (sampleConfig [ascii "a.b"]) = .ok m ∧
      Documented (sampleConfig [ascii "a.b"]) (ascii "x.foo.com")
        (m.findVirtualHost ⟨.inline, ascii "x.foo.com"⟩) := by
  have hok : ∃ m, ofConfig (sampleConfig [ascii "a.b"]) = .ok m := ⟨_, rfl⟩
  obtain ⟨m, hm⟩ := hok
  refine ⟨m, hm, ?_⟩
  have hcstr : (⟨.inline, ascii "x.foo.com"⟩ : Http.HeaderString).cStr = ascii "x.foo.com" := by decide
  have hiff := findVirtualHost_documented_iff ⟨.inline, ascii "x.foo.com"⟩ hm
  rw [hcstr] at hiff
  refine hiff.mpr ?_
  rintro ⟨hempty, -⟩
  exact absurd hempty (by decide)

/-- Without an exact domain, `*` gets the hosts of every wildcard. -/
theorem findVirtualHost_shadowed : ∃ m, ofConfig (sampleConfig []) = .ok m ∧
      ¬ Documented (sampleConfig []) (ascii "x.foo.com")
        (m.findVirtualHost ⟨.inline, ascii "x.foo.com"⟩) := by
  have hok : ∃ m, ofConfig (sampleConfig []) = .ok m ∧
      m.findVirtualHost ⟨.inline, ascii "x.foo.com"⟩ = some 3 ∧
      searchTables m (ascii "x.foo.com") = some 2 := ⟨_, rfl, by decide, by decide⟩
  obtain ⟨m, hm, hfound, hsearched⟩ := hok
  refine ⟨m, hm, ?_⟩
  rw [documented_iff (built_ofConfig hm), hfound, hsearched]
  decide

end Meliproxy.Envoy.Router
