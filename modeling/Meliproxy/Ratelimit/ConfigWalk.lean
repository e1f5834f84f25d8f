import Meliproxy.Ratelimit.Config
import Mathlib

/-!
# What the configuration says and what `GetLimit` matches

`configuredLimit` walks the YAML trees themselves: at each level the child with
exactly the key and value of the entry, otherwise the child with that key and no
value. `GetLimit` walks maps whose keys are flattened to `key_value`. The two agree,
and `GetLimit` matches only nodes of the right key, exactly when no sibling on the
way has the text of an entry as its composite key by accident.
-/

namespace Meliproxy.Ratelimit.Config

open Lib List Option

/-- The child configured with exactly this key and value if there is one, otherwise
the child configured with this key and no value. -/
def configuredChild (descriptors : List YamlDescriptor) (entry : Pb.Entry) :
    Option YamlDescriptor :=
  match descriptors.find? fun d => d.key = entry.key ∧ d.value = entry.value with
  | some d => some d
  | none => descriptors.find? fun d => d.key = entry.key ∧ d.value = []

def configuredRateLimit (fullKey : Bytes) (d : YamlDescriptor) : Option RateLimit :=
  match d.rateLimit with
  | none => none
  | some yaml =>
    match rateLimitUnitValue (toUpper yaml.unit) with
    | none => none
    | some unit =>
      if h : unit = .unknown then none
      else some (newRateLimit yaml.requestsPerUnit unit h fullKey)

def YamlDescriptor.finalKey (d : YamlDescriptor) : Bytes := compositeKey d.key d.value

def configuredLimit (parentKey : Bytes) (descriptors : List YamlDescriptor) :
    List Pb.Entry → Option RateLimit
  | [] => none
  | entry :: rest =>
    match configuredChild descriptors entry with
    | none => none
    | some d =>
      if rest = [] then configuredRateLimit (parentKey ++ d.finalKey) d
      else if d.descriptors = [] then none
      else configuredLimit (parentKey ++ d.finalKey ++ ascii ".") d.descriptors rest

def configuredRoots (yaml : Yaml) (configs : List RateLimitConfigToLoad) : List YamlRoot :=
  configs.filterMap fun config => (yaml.unmarshalRoot config.fileBytes).toOption

def domainDescriptors (roots : List YamlRoot) (domain : Bytes) : List YamlDescriptor :=
  match roots.find? fun root => root.domain = domain with
  | none => []
  | some root => root.descriptors

/-- Every node that `GetLimit` matches on its way is configured with the key of the
request entry and with its value or none. -/
def MatchesConfigured : List (Bytes × RateLimitDescriptor) → List YamlDescriptor →
    List Pb.Entry → Prop
  | _, _, [] => True
  | descriptorsMap, descriptors, entry :: rest =>
    ∀ d ∈ descriptors, matchedKey descriptorsMap entry = some d.finalKey →
      d.key = entry.key ∧ (d.value = entry.value ∨ d.value = []) ∧
      ∀ next, nextDescriptor descriptorsMap entry = some next →
        MatchesConfigured next.descriptors d.descriptors rest

/-- Along the configured walk no sibling has the text of an entry as its composite
key while being configured with another key or value. -/
def Unaliased : List YamlDescriptor → List Pb.Entry → Prop
  | _, [] => True
  | descriptors, entry :: rest =>
    (∀ d ∈ descriptors, d.finalKey = entryKey entry → d.key = entry.key ∧ d.value = entry.value) ∧
    ((∀ d ∈ descriptors, d.finalKey ≠ entryKey entry) →
      ∀ d ∈ descriptors, d.finalKey = entry.key → d.key = entry.key) ∧
    ∀ d, configuredChild descriptors entry = some d → Unaliased d.descriptors rest

mutual

def loadedMap (parentKey : Bytes) : List YamlDescriptor → List (Bytes × RateLimitDescriptor)
  | [] => []
  | d :: rest => (d.finalKey, loadedNode parentKey d) :: loadedMap parentKey rest

def loadedNode (parentKey : Bytes) : YamlDescriptor → RateLimitDescriptor
  | .mk key value rateLimit descriptors =>
    .mk (loadedMap (parentKey ++ compositeKey key value ++ ascii ".") descriptors)
      (configuredRateLimit (parentKey ++ compositeKey key value)
        (.mk key value rateLimit descriptors))

end

variable (parentKey : Bytes)

@[simp] theorem loadedNode_descriptors (d : YamlDescriptor) :
    (loadedNode parentKey d).descriptors =
      loadedMap (parentKey ++ d.finalKey ++ ascii ".") d.descriptors := by
  cases d
  rfl

@[simp] theorem loadedNode_limit (d : YamlDescriptor) :
    (loadedNode parentKey d).limit = configuredRateLimit (parentKey ++ d.finalKey) d := by
  cases d
  rfl

@[simp] theorem loadedMap_eq_nil (descriptors : List YamlDescriptor) :
    loadedMap parentKey descriptors = [] ↔ descriptors = [] := by
  cases descriptors <;> simp [loadedMap]

theorem loadedMap_lookup (parentKey key : Bytes) (descriptors : List YamlDescriptor) :
    (loadedMap parentKey descriptors).lookup key =
      (descriptors.find? fun d => d.finalKey = key).map (loadedNode parentKey) := by
  induction descriptors with
  | nil => rfl
  | cons d rest ih =>
    by_cases h : d.finalKey = key
    · simp [loadedMap, List.find?, h]
    · have hne : (key == d.finalKey) = false := by simpa using Ne.symm h
      simp [loadedMap, List.lookup, hne, h, ih]

variable {parentKey : Bytes} {config : RateLimitConfigToLoad} {d : YamlDescriptor}
  {descriptors : List YamlDescriptor} {entry : Pb.Entry}
  {this m : List (Bytes × RateLimitDescriptor)}

theorem loadRateLimit_ok {key : Bytes}
    {limit : Option RateLimit} (h : loadRateLimit config key d.rateLimit = .ok limit) :
    limit = configuredRateLimit key d := by
  unfold configuredRateLimit
  cases hd : d.rateLimit with
  | none =>
    rw [hd] at h
    exact (Except.ok.inj h).symm
  | some yaml =>
    rw [hd, loadRateLimit] at h
    cases hu : rateLimitUnitValue (toUpper yaml.unit) with
    | none => simp [hu] at h
    | some unit =>
      simp only [hu] at h ⊢
      by_cases hk : unit = .unknown
      · simp [hk] at h
      · rw [dif_neg hk] at h ⊢
        exact (Except.ok.inj h).symm

theorem loadDescriptor_ok {this : List (Bytes × RateLimitDescriptor)}
    {new : Bytes × RateLimitDescriptor} (h : loadDescriptor config parentKey this d = .ok new) :
    this.lookup d.finalKey = none ∧ ∃ children,
      loadDescriptors config (parentKey ++ d.finalKey ++ ascii ".") [] d.descriptors =
        .ok children ∧
      new = (d.finalKey, .mk children (configuredRateLimit (parentKey ++ d.finalKey) d)) := by
  obtain ⟨key, value, rateLimit, descriptors⟩ := d
  unfold loadDescriptor at h
  split at h
  · simp at h
  · simp only at h
    split at h
    · simp at h
    · rename_i hlookup
      split at h
      · simp at h
      · rename_i limit hlimit
        split at h
        · simp at h
        · rename_i children hchildren
          have hl := @loadRateLimit_ok config (.mk key value rateLimit descriptors) _ limit hlimit
          refine ⟨not_isSome_iff_eq_none.mp hlookup, children, hchildren, ?_⟩
          rw [← Except.ok.inj h, hl]
          rfl

theorem loadDescriptors_cons_ok {rest : List YamlDescriptor}
    (h : loadDescriptors config parentKey this (d :: rest) = .ok m) :
    ∃ new, loadDescriptor config parentKey this d = .ok new ∧
      loadDescriptors config parentKey (this ++ [new]) rest = .ok m := by
  rw [loadDescriptors] at h
  split at h
  · simp at h
  · rename_i new hnew
    exact ⟨new, hnew, h⟩

mutual

theorem loadDescriptors_eq {config : RateLimitConfigToLoad} {parentKey : Bytes}
    {this m : List (Bytes × RateLimitDescriptor)} (descriptors : List YamlDescriptor)
    (h : loadDescriptors config parentKey this descriptors = .ok m) :
    m = this ++ loadedMap parentKey descriptors := by
  match descriptors with
  | [] =>
    rw [loadDescriptors] at h
    simpa [loadedMap] using (Except.ok.inj h).symm
  | d :: rest =>
    obtain ⟨new, hnew, hrest⟩ := loadDescriptors_cons_ok h
    rw [loadDescriptors_eq rest hrest, loadDescriptor_eq d hnew]
    simp [loadedMap]

theorem loadDescriptor_eq {config : RateLimitConfigToLoad} {parentKey : Bytes}
    {this : List (Bytes × RateLimitDescriptor)} {new : Bytes × RateLimitDescriptor}
    (d : YamlDescriptor) (h : loadDescriptor config parentKey this d = .ok new) :
    new = (d.finalKey, loadedNode parentKey d) := by
  match d with
  | .mk key value rateLimit descriptors =>
    obtain ⟨_, children, hchildren, rfl⟩ := loadDescriptor_ok h
    have hc := loadDescriptors_eq descriptors hchildren
    rw [nil_append] at hc
    rw [hc]
    rfl

end

/-- The descriptors of one level are accepted by the loader. -/
def Loads (config : RateLimitConfigToLoad) (parentKey : Bytes)
    (descriptors : List YamlDescriptor) : Prop :=
  ∃ m, loadDescriptors config parentKey [] descriptors = .ok m

section

variable (h : loadDescriptors config parentKey this descriptors = .ok m)
include h

theorem loadDescriptors_children :
    ∀ d ∈ descriptors, Loads config (parentKey ++ d.finalKey ++ ascii ".") d.descriptors := by
  induction descriptors generalizing this with
  | nil => intro d hd; simp at hd
  | cons d rest ih =>
    obtain ⟨new, hnew, hrest⟩ := loadDescriptors_cons_ok h
    obtain ⟨_, children, hchildren, _⟩ := loadDescriptor_ok hnew
    intro d' hd'
    rcases mem_cons.mp hd' with rfl | hd'
    · exact ⟨children, hchildren⟩
    · exact ih hrest d' hd'

theorem loadDescriptors_nodup :
    (∀ d ∈ descriptors, this.lookup d.finalKey = none) ∧
      (descriptors.map YamlDescriptor.finalKey).Nodup := by
  induction descriptors generalizing this with
  | nil => simp
  | cons d rest ih =>
    obtain ⟨new, hnew, hrest⟩ := loadDescriptors_cons_ok h
    obtain ⟨hfresh, children, _, rfl⟩ := loadDescriptor_ok hnew
    obtain ⟨hlookup, hnodup⟩ := ih hrest
    have hsplit : ∀ d' ∈ rest, this.lookup d'.finalKey = none ∧ d'.finalKey ≠ d.finalKey := by
      intro d' hd'
      have hl := hlookup d' hd'
      rw [lookup_append, or_eq_none_iff] at hl
      refine ⟨hl.1, fun heq => ?_⟩
      simp [heq] at hl
    constructor
    · intro d' hd'
      rcases mem_cons.mp hd' with rfl | hd'
      · exact hfresh
      · exact (hsplit d' hd').1
    · rw [map_cons, nodup_cons]
      refine ⟨fun hmem => ?_, hnodup⟩
      obtain ⟨d', hd', heq⟩ := List.mem_map.mp hmem
      exact (hsplit d' hd').2 heq

end

section Level
variable {config : RateLimitConfigToLoad} {parentKey : Bytes} {descriptors : List YamlDescriptor}
  (hloads : Loads config parentKey descriptors)
include hloads

theorem Loads.eq_of_finalKey {d d' : YamlDescriptor} (hd : d ∈ descriptors)
    (hd' : d' ∈ descriptors) (h : d.finalKey = d'.finalKey) : d = d' := by
  obtain ⟨m, hm⟩ := hloads
  exact inj_on_of_nodup_map (loadDescriptors_nodup hm).2 hd hd' h

theorem Loads.find_finalKey (hd : d ∈ descriptors) :
    (descriptors.find? fun d' => d'.finalKey = d.finalKey) = some d := by
  cases hfind : descriptors.find? fun d' => d'.finalKey = d.finalKey with
  | none =>
    have := find?_eq_none.mp hfind d hd
    simp at this
  | some d' =>
    have hkey : d'.finalKey = d.finalKey := by simpa using find?_some hfind
    rw [hloads.eq_of_finalKey (mem_of_find?_eq_some hfind) hd hkey]

end Level

theorem compositeKey_eq_self {key value : Bytes} (h : compositeKey key value = key) :
    value = [] := by
  by_contra hv
  simp [compositeKey, hv] at h

theorem compositeKey_of_value {key value : Bytes} (h : value ≠ []) :
    compositeKey key value = key ++ underscore :: value := by
  simp [compositeKey, h]

theorem lookup_isSome_iff (parentKey key : Bytes) (descriptors : List YamlDescriptor) :
    ((loadedMap parentKey descriptors).lookup key).isSome ↔
      ∃ d ∈ descriptors, d.finalKey = key := by
  rw [loadedMap_lookup, isSome_map, find?_isSome]
  simp

theorem configuredChild_some (h : configuredChild descriptors entry = some d) :
    d ∈ descriptors ∧ d.key = entry.key ∧ (d.value = entry.value ∨ d.value = []) := by
  unfold configuredChild at h
  split at h
  · rename_i d' hfind
    cases h
    have hp := find?_some hfind
    simp only [decide_eq_true_eq] at hp
    exact ⟨mem_of_find?_eq_some hfind, hp.1, Or.inl hp.2⟩
  · have hp := find?_some h
    simp only [decide_eq_true_eq] at hp
    exact ⟨mem_of_find?_eq_some h, hp.1, Or.inr hp.2⟩

theorem configuredChild_finalKey (h : configuredChild descriptors entry = some d) :
    d.finalKey = entryKey entry ∨ (d.finalKey = entry.key ∧ d.value = []) := by
  obtain ⟨_, hk, hv⟩ := configuredChild_some h
  by_cases hnil : d.value = []
  · exact Or.inr ⟨by simp [YamlDescriptor.finalKey, compositeKey, hnil, hk], hnil⟩
  · refine Or.inl ?_
    rcases hv with hv | hv
    · rw [YamlDescriptor.finalKey, compositeKey_of_value hnil, hk, hv]
      rfl
    · exact absurd hv hnil

section Level
variable {config : RateLimitConfigToLoad} {parentKey : Bytes} {descriptors : List YamlDescriptor}
  {entry : Pb.Entry} (hloads : Loads config parentKey descriptors)
include hloads

theorem Loads.configuredChild_exact (hd : d ∈ descriptors)
    (hk : d.key = entry.key) (hv : d.value = entry.value) :
    configuredChild descriptors entry = some d := by
  unfold configuredChild
  cases hfind : descriptors.find? fun d => d.key = entry.key ∧ d.value = entry.value with
  | none =>
    have := find?_eq_none.mp hfind d hd
    simp [hk, hv] at this
  | some d' =>
    have hp := find?_some hfind
    simp only [decide_eq_true_eq] at hp
    have hkey : d'.finalKey = d.finalKey := by
      rw [YamlDescriptor.finalKey, YamlDescriptor.finalKey, hp.1, hp.2, hk, hv]
    simp [hloads.eq_of_finalKey (mem_of_find?_eq_some hfind) hd hkey]

theorem Loads.configuredChild_default (hd : d ∈ descriptors)
    (hk : d.key = entry.key) (hv : d.value = [])
    (hno : ∀ d' ∈ descriptors, d'.finalKey ≠ entryKey entry) :
    configuredChild descriptors entry = some d := by
  have hkey : d.finalKey = entry.key := by simp [YamlDescriptor.finalKey, compositeKey, hk, hv]
  cases hchild : configuredChild descriptors entry with
  | none =>
    unfold configuredChild at hchild
    split at hchild
    · simp at hchild
    · have := find?_eq_none.mp hchild d hd
      simp [hk, hv] at this
  | some d' =>
    obtain ⟨hd', -, -⟩ := configuredChild_some hchild
    rcases configuredChild_finalKey hchild with hf | ⟨hf, -⟩
    · exact absurd hf (hno d' hd')
    · rw [hloads.eq_of_finalKey hd' hd (hf.trans hkey.symm)]

/-- Without aliases on a level, the two lookups of `GetLimit` find the configured
child. -/
theorem Loads.nextDescriptor_eq (hexact : ∀ d ∈ descriptors, d.finalKey = entryKey entry →
      d.key = entry.key ∧ d.value = entry.value)
    (hdefault : (∀ d ∈ descriptors, d.finalKey ≠ entryKey entry) →
      ∀ d ∈ descriptors, d.finalKey = entry.key → d.key = entry.key) :
    nextDescriptor (loadedMap parentKey descriptors) entry =
      (configuredChild descriptors entry).map (loadedNode parentKey) := by
  unfold nextDescriptor
  rw [loadedMap_lookup, loadedMap_lookup]
  by_cases hex : ∃ d ∈ descriptors, d.finalKey = entryKey entry
  · obtain ⟨d, hd, hkey⟩ := hex
    obtain ⟨hk, hv⟩ := hexact d hd hkey
    rw [← hkey, hloads.find_finalKey hd, hloads.configuredChild_exact hd hk hv]
    rfl
  · have hno : ∀ d ∈ descriptors, d.finalKey ≠ entryKey entry := fun d hd h => hex ⟨d, hd, h⟩
    have hnone : (descriptors.find? fun d => d.finalKey = entryKey entry) = none := by
      apply find?_eq_none.mpr
      intro d hd
      simpa using hno d hd
    rw [hnone]
    by_cases hbare : ∃ d ∈ descriptors, d.finalKey = entry.key
    · obtain ⟨d, hd, hkey⟩ := hbare
      have hk := hdefault hno d hd hkey
      have hv : d.value = [] := compositeKey_eq_self (hkey.trans hk.symm)
      rw [← hkey, hloads.find_finalKey hd, hloads.configuredChild_default hd hk hv hno]
      rfl
    · have hbnone : (descriptors.find? fun d => d.finalKey = entry.key) = none := by
        apply find?_eq_none.mpr
        intro d hd
        simpa using fun h => hbare ⟨d, hd, h⟩
      rw [hbnone]
      cases hchild : configuredChild descriptors entry with
      | none => rfl
      | some d =>
        have hd := (configuredChild_some hchild).1
        rcases configuredChild_finalKey hchild with hf | ⟨hf, -⟩
        · exact absurd hf (hno d hd)
        · exact absurd ⟨d, hd, hf⟩ hbare

end Level

theorem Loads.child (h : Loads config parentKey descriptors) (hd : d ∈ descriptors) :
    Loads config (parentKey ++ d.finalKey ++ ascii ".") d.descriptors := by
  obtain ⟨m, hm⟩ := h
  exact loadDescriptors_children hm d hd

theorem getLimitLoop_eq {entries : List Pb.Entry}
    (hloads : Loads config parentKey descriptors) (h : Unaliased descriptors entries) :
    getLimitLoop (loadedMap parentKey descriptors) none entries =
      configuredLimit parentKey descriptors entries := by
  induction entries generalizing parentKey descriptors with
  | nil => rfl
  | cons entry rest ih =>
    obtain ⟨hexact, hdefault, hrest⟩ := h
    rw [getLimitLoop, configuredLimit, hloads.nextDescriptor_eq hexact hdefault]
    cases hchild : configuredChild descriptors entry with
    | none => rfl
    | some d =>
      have hnext := ih (hloads.child (configuredChild_some hchild).1) (hrest d hchild)
      by_cases hlast : rest = []
      · subst hlast
        cases hlimit : configuredRateLimit (parentKey ++ d.finalKey) d <;>
          simp [getLimitLoop, hlimit]
      · simp [hlast, hnext, -append_assoc]

theorem matchedKey_of_exact (hd : d ∈ descriptors) (hkey : d.finalKey = entryKey entry) :
    matchedKey (loadedMap parentKey descriptors) entry = some d.finalKey := by
  unfold matchedKey
  rw [if_pos ((lookup_isSome_iff _ _ _).mpr ⟨d, hd, hkey⟩), hkey]

theorem matchedKey_of_bare
    (hno : ∀ d' ∈ descriptors, d'.finalKey ≠ entryKey entry) (hd : d ∈ descriptors)
    (hkey : d.finalKey = entry.key) :
    matchedKey (loadedMap parentKey descriptors) entry = some d.finalKey := by
  unfold matchedKey
  rw [if_neg, if_pos ((lookup_isSome_iff _ _ _).mpr ⟨d, hd, hkey⟩), hkey]
  intro h
  obtain ⟨d', hd', hk⟩ := (lookup_isSome_iff _ _ _).mp h
  exact hno d' hd' hk

theorem matchedKey_cases {key : Bytes}
    (h : matchedKey (loadedMap parentKey descriptors) entry = some key) : key = entryKey entry ∨
      (key = entry.key ∧ ∀ d ∈ descriptors, d.finalKey ≠ entryKey entry) := by
  unfold matchedKey at h
  split at h
  · exact Or.inl (Option.some.inj h).symm
  · rename_i hnone
    split at h
    · refine Or.inr ⟨(Option.some.inj h).symm, fun d hd hk => ?_⟩
      exact hnone ((lookup_isSome_iff _ _ _).mpr ⟨d, hd, hk⟩)
    · simp at h

/-- `GetLimit` matches only nodes of the right key and value exactly when no sibling
on its way aliases an entry. -/
theorem matchesConfigured_iff {entries : List Pb.Entry}
    (hloads : Loads config parentKey descriptors) :
    MatchesConfigured (loadedMap parentKey descriptors) descriptors entries ↔
      Unaliased descriptors entries := by
  induction entries generalizing parentKey descriptors with
  | nil => simp [MatchesConfigured, Unaliased]
  | cons entry rest ih =>
    constructor
    · intro h
      have hexact : ∀ d ∈ descriptors, d.finalKey = entryKey entry →
          d.key = entry.key ∧ d.value = entry.value := by
        intro d hd hkey
        obtain ⟨hk, hv, -⟩ := h d hd (matchedKey_of_exact hd hkey)
        rcases hv with hv | hv
        · exact ⟨hk, hv⟩
        · simp [YamlDescriptor.finalKey, compositeKey, hv, hk, entryKey] at hkey
      have hdefault : (∀ d ∈ descriptors, d.finalKey ≠ entryKey entry) →
          ∀ d ∈ descriptors, d.finalKey = entry.key → d.key = entry.key := by
        intro hno d hd hkey
        exact (h d hd (matchedKey_of_bare hno hd hkey)).1
      refine ⟨hexact, hdefault, fun d hchild => ?_⟩
      have hnext := hloads.nextDescriptor_eq hexact hdefault
      rw [hchild, map_some] at hnext
      have hd := (configuredChild_some hchild).1
      have hmatched : matchedKey (loadedMap parentKey descriptors) entry = some d.finalKey := by
        rcases configuredChild_finalKey hchild with hf | ⟨hf, -⟩
        · exact matchedKey_of_exact hd hf
        · by_cases hex : ∃ d' ∈ descriptors, d'.finalKey = entryKey entry
          · obtain ⟨d', hd', hf'⟩ := hex
            obtain ⟨hk', hv'⟩ := hexact d' hd' hf'
            have heq := hloads.configuredChild_exact hd' hk' hv'
            rw [hchild] at heq
            rw [Option.some.inj heq]
            exact matchedKey_of_exact hd' hf'
          · exact matchedKey_of_bare (fun d' hd' hf' => hex ⟨d', hd', hf'⟩) hd hf
      have hrest := (h d hd hmatched).2.2 _ hnext
      rw [loadedNode_descriptors] at hrest
      exact (ih (hloads.child hd)).mp hrest
    · rintro ⟨hexact, hdefault, hrest⟩ d hd hmatched
      have hnext := hloads.nextDescriptor_eq hexact hdefault
      have hdone : ∀ hchild : configuredChild descriptors entry = some d, ∀ next,
          nextDescriptor (loadedMap parentKey descriptors) entry = some next →
          MatchesConfigured next.descriptors d.descriptors rest := by
        intro hchild next hn
        rw [hnext, hchild, map_some] at hn
        rw [← Option.some.inj hn, loadedNode_descriptors]
        exact (ih (hloads.child hd)).mpr (hrest d hchild)
      rcases matchedKey_cases hmatched with hkey | ⟨hkey, hno⟩
      · obtain ⟨hk, hv⟩ := hexact d hd hkey
        exact ⟨hk, Or.inl hv, hdone (hloads.configuredChild_exact hd hk hv)⟩
      · have hk := hdefault hno d hd hkey
        have hv : d.value = [] := compositeKey_eq_self (hkey.trans hk.symm)
        exact ⟨hk, Or.inr hv, hdone (hloads.configuredChild_default hd hk hv hno)⟩

def loadedDomain (root : YamlRoot) : RateLimitDescriptor :=
  .mk (loadedMap (root.domain ++ ascii ".") root.descriptors) none

theorem loadConfig_ok {yaml : Yaml} {this next : RateLimitConfigImpl}
    (h : loadConfig yaml this config = .ok next) :
    ∃ root, yaml.unmarshalRoot config.fileBytes = .ok root ∧
      Loads config (root.domain ++ ascii ".") root.descriptors ∧
      next.domains = this.domains ++ [(root.domain, loadedDomain root)] := by
  unfold loadConfig at h
  split at h
  · simp at h
  · split at h
    · simp at h
    · split at h
      · simp at h
      · rename_i root hroot
        split at h
        · simp at h
        · split at h
          · simp at h
          · split at h
            · simp at h
            · rename_i descriptors hload
              refine ⟨root, hroot, ⟨descriptors, hload⟩, ?_⟩
              rw [← Except.ok.inj h, loadDescriptors_eq _ hload]
              rfl

theorem loadConfigs_ok {yaml : Yaml} {this next : RateLimitConfigImpl}
    {configs : List RateLimitConfigToLoad} (h : loadConfigs yaml this configs = .ok next) :
    (∀ root ∈ configuredRoots yaml configs,
      ∃ config, Loads config (root.domain ++ ascii ".") root.descriptors) ∧
    next.domains = this.domains ++
      (configuredRoots yaml configs).map fun root => (root.domain, loadedDomain root) := by
  induction configs generalizing this with
  | nil =>
    rw [loadConfigs] at h
    simp [configuredRoots, Except.ok.inj h]
  | cons config rest ih =>
    rw [loadConfigs] at h
    split at h
    · simp at h
    · rename_i mid hmid
      obtain ⟨root, hroot, hloads, hdomains⟩ := loadConfig_ok hmid
      obtain ⟨hall, hnext⟩ := ih h
      have hroots : configuredRoots yaml (config :: rest) = root :: configuredRoots yaml rest := by
        simp [configuredRoots, hroot, Except.toOption]
      rw [hroots, hnext, hdomains]
      refine ⟨?_, by simp⟩
      intro root' hmem
      rcases mem_cons.mp hmem with rfl | hmem
      · exact ⟨config, hloads⟩
      · exact hall root' hmem

theorem lookup_domains (roots : List YamlRoot) (domain : Bytes) :
    (roots.map fun root => (root.domain, loadedDomain root)).lookup domain =
      (roots.find? fun root => root.domain = domain).map loadedDomain := by
  induction roots with
  | nil => rfl
  | cons root rest ih =>
    by_cases h : root.domain = domain
    · simp [h]
    · have hne : (domain == root.domain) = false := by simpa using Ne.symm h
      simp [List.lookup, hne, h, ih]

def domainMap (this : RateLimitConfigImpl) (domain : Bytes) : List (Bytes × RateLimitDescriptor) :=
  match this.domains.lookup domain with
  | none => []
  | some value => value.descriptors

/-- On every accepted configuration and every request, `GetLimit` answers as the
configured walk does and matches only nodes of the right key and value, if and only
if no sibling on the way aliases a request entry. -/
theorem getLimit_configured_iff (yaml : Yaml) (configs : List RateLimitConfigToLoad)
    (this : RateLimitConfigImpl) (h : newRateLimitConfigImpl yaml configs = .ok this)
    (domain : Bytes) (descriptor : Pb.RateLimitDescriptor) : (getLimit this domain descriptor =
        configuredLimit (domain ++ ascii ".")
          (domainDescriptors (configuredRoots yaml configs) domain) descriptor.entries ∧
      MatchesConfigured (domainMap this domain)
        (domainDescriptors (configuredRoots yaml configs) domain) descriptor.entries) ↔
    Unaliased (domainDescriptors (configuredRoots yaml configs) domain) descriptor.entries := by
  obtain ⟨hall, hdomains⟩ := loadConfigs_ok h
  have hlookup : this.domains.lookup domain =
      ((configuredRoots yaml configs).find? fun root => root.domain = domain).map loadedDomain := by
    rw [hdomains, nil_append, lookup_domains]
  unfold getLimit domainMap domainDescriptors
  rw [hlookup]
  cases hfind : (configuredRoots yaml configs).find? fun root => root.domain = domain with
  | none =>
    cases descriptor.entries <;>
      simp [MatchesConfigured, Unaliased, configuredLimit, configuredChild]
  | some root =>
    have hdomain : root.domain = domain := by simpa using find?_some hfind
    obtain ⟨config, hloads⟩ := hall root (mem_of_find?_eq_some hfind)
    subst hdomain
    change (getLimitLoop (loadedMap _ root.descriptors) none descriptor.entries = _ ∧
      MatchesConfigured (loadedMap _ root.descriptors) root.descriptors _) ↔ _
    rw [matchesConfigured_iff hloads]
    exact ⟨fun hp => hp.2, fun hu => ⟨getLimitLoop_eq hloads hu, hu⟩⟩

/-- A file with one limit on the key `user_agent`. -/
def agentFile : RateLimitConfigToLoad where
  name := ascii "config.mobile"
  fileBytes := ascii
    "domain: mobile\ndescriptors:\n- key: user_agent\n  rate_limit: {unit: minute, requests_per_unit: 10}"

def agentRoot : YamlRoot where
  domain := ascii "mobile"
  descriptors := [.mk (ascii "user_agent") [] (some ⟨10, ascii "minute"⟩) []]

def agentYaml : Yaml where
  unmarshalAny := fun bytes => if bytes = agentFile.fileBytes then
      .ok [(.string (ascii "domain"), .string (ascii "mobile")),
        (.string (ascii "descriptors"), .list [.map
          [(.string (ascii "key"), .string (ascii "user_agent")),
            (.string (ascii "rate_limit"), .map [(.string (ascii "unit"), .string (ascii "minute")),
              (.string (ascii "requests_per_unit"), .int 10)])]])]
    else .error []
  unmarshalRoot := fun bytes => if bytes = agentFile.fileBytes then .ok agentRoot else .error []
  format := fun _ => []

def agentConfig : RateLimitConfigImpl := ⟨[(ascii "mobile", loadedDomain agentRoot)]⟩

theorem agentConfig_loaded : newRateLimitConfigImpl agentYaml [agentFile] = .ok agentConfig := by
  rfl

theorem getLimit_configured_agent : newRateLimitConfigImpl agentYaml [agentFile] = .ok agentConfig ∧
    getLimit agentConfig (ascii "mobile") ⟨[⟨ascii "user_agent", ascii "curl"⟩]⟩ =
      configuredLimit (ascii "mobile" ++ ascii ".")
        (domainDescriptors (configuredRoots agentYaml [agentFile]) (ascii "mobile"))
        [⟨ascii "user_agent", ascii "curl"⟩] := by
  refine ⟨agentConfig_loaded, ((getLimit_configured_iff agentYaml [agentFile] agentConfig
    agentConfig_loaded (ascii "mobile") ⟨[⟨ascii "user_agent", ascii "curl"⟩]⟩).mpr ?_).1⟩
  change Unaliased agentRoot.descriptors [⟨ascii "user_agent", ascii "curl"⟩]
  simp only [Unaliased, agentRoot, mem_singleton, forall_eq]
  refine ⟨fun hkey => absurd hkey (by decide), fun _ _ => rfl, fun _ _ => trivial⟩

/-- The request entry `("user", "agent")` gets the limit of the key `user_agent`. -/
theorem getLimit_matches_other_key :
    ∃ (yaml : Yaml) (configs : List RateLimitConfigToLoad) (this : RateLimitConfigImpl)
      (domain : Bytes) (descriptor : Pb.RateLimitDescriptor),
      newRateLimitConfigImpl yaml configs = .ok this ∧
      (getLimit this domain descriptor).isSome = true ∧ configuredLimit (domain ++ ascii ".")
        (domainDescriptors (configuredRoots yaml configs) domain) descriptor.entries = none :=
  ⟨agentYaml, [agentFile], agentConfig, ascii "mobile", ⟨[⟨ascii "user", ascii "agent"⟩]⟩,
    agentConfig_loaded, by decide, by decide⟩

end Meliproxy.Ratelimit.Config
