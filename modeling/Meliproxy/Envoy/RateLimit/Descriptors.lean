import Meliproxy.Envoy.RateLimit.HttpFilter

/-!
# Rate limit descriptors

`RateLimitPolicyImpl` keeps its entries in a list for each stage, and the filter takes those of its
stage. What comes out is one descriptor for each entry that applies.
-/

namespace Meliproxy.Envoy.RateLimit

open Lib List Http Option

/-- A rate limit of the configuration. -/
structure RateLimitConfig where
  disableKey : Bytes
  stage : Option UInt32
  actions : List RateLimitAction

def RateLimitPolicyEntry.ofConfig (config : RateLimitConfig) : RateLimitPolicyEntry :=
  ⟨config.disableKey, (config.stage.getD 0).toNat, config.actions⟩

structure RateLimitPolicyImpl where
  references : List (List RateLimitPolicyEntry)

namespace RateLimitPolicyImpl

def empty : RateLimitPolicyImpl := ⟨List.replicate (maxStageNumber + 1) []⟩

variable (policy : RateLimitPolicyImpl)

/-- A step of the constructor, with `none` for a stage that fails the assertion. -/
def add (config : RateLimitConfig) : Option RateLimitPolicyImpl :=
  let entry := RateLimitPolicyEntry.ofConfig config
  if entry.stage < policy.references.length then
    some ⟨policy.references.modify entry.stage (· ++ [entry])⟩
  else none

def create (rateLimits : List RateLimitConfig) : Option RateLimitPolicyImpl :=
  rateLimits.foldlM add empty

def getApplicableRateLimit (stage : Nat) :
    Option (List RateLimitPolicyEntry) := policy.references[stage]?

def Holds (entries : List RateLimitPolicyEntry) : Prop :=
  ∀ stage, policy.getApplicableRateLimit stage =
    if stage ≤ maxStageNumber then some (entries.filter fun entry => entry.stage = stage) else none

variable {policy policy' : RateLimitPolicyImpl} {entries : List RateLimitPolicyEntry}

theorem holds_empty : empty.Holds [] := by
  intro stage
  rw [getApplicableRateLimit, empty, getElem?_replicate]
  simp only [Nat.lt_succ_iff]
  rfl

theorem Holds.length (h : policy.Holds entries) (stage : Nat) :
    stage < policy.references.length ↔ stage ≤ maxStageNumber := by
  have hstage := h stage
  rw [getApplicableRateLimit] at hstage
  split at hstage
  · rename_i hle
    exact iff_of_true (List.getElem?_eq_some_iff.mp hstage).1 hle
  · rename_i hnot
    exact iff_of_false (Nat.not_lt.mpr (List.getElem?_eq_none_iff.mp hstage)) hnot

theorem Holds.add (h : policy.Holds entries) {config : RateLimitConfig}
    (hadd : policy.add config = some policy') : policy'.Holds (entries ++ [.ofConfig config]) := by
  rw [RateLimitPolicyImpl.add] at hadd
  split at hadd
  · cases hadd
    intro stage
    have hstage := h stage
    rw [getApplicableRateLimit] at hstage ⊢
    rw [getElem?_modify, hstage, filter_append, filter_singleton]
    by_cases hle : stage ≤ maxStageNumber
    · rw [if_pos hle, if_pos hle, Option.map_eq_map, map_some]
      by_cases heq : (RateLimitPolicyEntry.ofConfig config).stage = stage
      · simp [heq, cond_true]
      · simp [heq, cond_false]
    · rw [if_neg hle, if_neg hle]
      rfl
  · cases hadd

theorem foldlM_add (h : policy.Holds entries) (rateLimits : List RateLimitConfig) :
    (∃ policy', rateLimits.foldlM RateLimitPolicyImpl.add policy = some policy' ∧
        policy'.Holds (entries ++ rateLimits.map RateLimitPolicyEntry.ofConfig)) ∨
      rateLimits.foldlM RateLimitPolicyImpl.add policy = none ∧
        ∃ config ∈ rateLimits, maxStageNumber < (RateLimitPolicyEntry.ofConfig config).stage := by
  induction rateLimits generalizing policy entries with
  | nil => exact .inl ⟨policy, rfl, by rwa [map_nil, append_nil]⟩
  | cons config rateLimits ih =>
    rw [foldlM_cons]
    cases hadd : policy.add config with
    | none =>
      refine .inr ⟨rfl, config, mem_cons_self, ?_⟩
      rw [RateLimitPolicyImpl.add] at hadd
      split at hadd
      · cases hadd
      · rename_i hnot
        rw [h.length] at hnot
        exact Nat.lt_of_not_le hnot
    | some policy' =>
      rw [bind_eq_bind, bind_some]
      rcases ih (h.add hadd) with ⟨policy'', hfold, hholds⟩ | ⟨hfold, late, hlate, hstage⟩
      · refine .inl ⟨policy'', hfold, ?_⟩
        rw [append_assoc] at hholds
        exact hholds
      · exact .inr ⟨hfold, late, mem_cons_of_mem _ hlate, hstage⟩

theorem create_holds {rateLimits : List RateLimitConfig} (h : create rateLimits = some policy) :
    policy.Holds (rateLimits.map RateLimitPolicyEntry.ofConfig) := by
  rcases foldlM_add holds_empty rateLimits with ⟨policy', hfold, hholds⟩ | ⟨hfold, -⟩
  · cases h.symm.trans hfold
    exact hholds
  · cases h.symm.trans hfold

end RateLimitPolicyImpl

def RateLimitAction.entry (s : Subject) : RateLimitAction → Option DescriptorEntry
  | .sourceCluster => some ⟨ascii "source_cluster", s.localServiceCluster⟩
  | .destinationCluster => some ⟨ascii "destination_cluster", s.routeCluster⟩
  | .requestHeaders headerName descriptorKey =>
    (s.headers.get headerName).map fun header => ⟨descriptorKey, header.value.cStr⟩
  | .remoteAddress =>
    if s.remoteAddress = [] then none else some ⟨ascii "remote_address", s.remoteAddress⟩
  | .genericKey descriptorValue => some ⟨ascii "generic_key", descriptorValue⟩
  | .headerValueMatch descriptorValue expectMatch actionHeaders =>
    if expectMatch = matchHeaders s.headers actionHeaders then
      some ⟨ascii "header_match", descriptorValue⟩
    else none

theorem populateDescriptor_eq (s : Subject) (descriptor : Descriptor) (action : RateLimitAction) :
    action.populateDescriptor s descriptor =
      (action.entry s).map fun entry => descriptor ++ [entry] := by
  cases action with
  | sourceCluster | destinationCluster => rfl
  | requestHeaders headerName descriptorKey =>
    rw [RateLimitAction.populateDescriptor, RateLimitAction.entry, Option.map_map]
    rfl
  | remoteAddress =>
    rw [RateLimitAction.populateDescriptor, RateLimitAction.entry, populateRemoteAddress]
    split <;> rfl
  | genericKey descriptorValue => rfl
  | headerValueMatch descriptorValue expectMatch actionHeaders =>
    rw [RateLimitAction.populateDescriptor, RateLimitAction.entry]
    split <;> rfl

namespace RateLimitPolicyEntry

variable (entry : RateLimitPolicyEntry)

def Populates (s : Subject) : Prop :=
  ∀ action ∈ entry.actions, (action.entry s).isSome = true

instance (s : Subject) : Decidable (entry.Populates s) :=
  inferInstanceAs (Decidable (∀ action ∈ entry.actions, _))

def descriptor (s : Subject) : Descriptor :=
  entry.actions.filterMap fun action => action.entry s

theorem foldlM_populateDescriptor (s : Subject) (actions : List RateLimitAction)
    (descriptor : Descriptor) :
    actions.foldlM (fun descriptor action => action.populateDescriptor s descriptor) descriptor =
      if ∀ action ∈ actions, (action.entry s).isSome = true then
        some (descriptor ++ actions.filterMap fun action => action.entry s) else none := by
  induction actions generalizing descriptor with
  | nil =>
    rw [if_pos (forall_mem_nil _), filterMap_nil, append_nil]
    rfl
  | cons action actions ih =>
    rw [foldlM_cons, populateDescriptor_eq]
    cases hentry : action.entry s with
    | none =>
      rw [if_neg]
      · rfl
      · intro hall
        have hsome := hall action mem_cons_self
        rw [hentry] at hsome
        cases hsome
    | some entry =>
      rw [map_some, bind_eq_bind, bind_some, ih]
      apply if_congr
      · rw [forall_mem_cons, hentry]
        exact (and_iff_right rfl).symm
      · rw [filterMap_cons, hentry, append_assoc]
        rfl
      · rfl

theorem populateDescriptors_eq (entry : RateLimitPolicyEntry) (s : Subject)
    (descriptors : List Descriptor) : entry.populateDescriptors s descriptors =
      if entry.Populates s then descriptors ++ [entry.descriptor s] else descriptors := by
  have hfold := foldlM_populateDescriptor s entry.actions []
  rw [nil_append] at hfold
  rw [populateDescriptors]
  by_cases hall : entry.Populates s
  · rw [hfold.trans (if_pos hall), if_pos hall]
    rfl
  · rw [hfold.trans (if_neg hall), if_neg hall]

end RateLimitPolicyEntry

namespace HttpFilter

variable (config : FilterConfig) (r : Request) (clusterName : Bytes)

def subject : Subject :=
  ⟨clusterName, config.localServiceCluster, r.headers, r.downstreamAddress⟩

def httpFilterEnabled (disableKey : Bytes) : Bytes :=
  ascii "ratelimit." ++ disableKey ++ ascii ".http_filter_enabled"

def populateRateLimit (populated : Nat × List Descriptor) (rateLimit : RateLimitPolicyEntry) :
    Nat × List Descriptor :=
  (populated.1 + 1,
    if rateLimit.disableKey ≠ [] ∧
        r.featureEnabled populated.1 (httpFilterEnabled rateLimit.disableKey) = false then
      populated.2
    else rateLimit.populateDescriptors (subject config r clusterName) populated.2)

/-- `populateRateLimitDescriptors`, with `none` for a stage that fails the assertion. -/
def populateFromPolicy (policy : RateLimitPolicyImpl) (populated : Nat × List Descriptor) :
    Option (Nat × List Descriptor) :=
  (policy.getApplicableRateLimit config.stage).map fun rateLimits =>
    rateLimits.foldl (populateRateLimit config r clusterName) populated

def populateAll (includeVirtualHostRateLimits : Bool) (routePolicy virtualHostPolicy : RateLimitPolicyImpl) :
    Option (List Descriptor) := do
  let populated ← populateFromPolicy config r clusterName routePolicy (0, [])
  if includeVirtualHostRateLimits then
    (populateFromPolicy config r clusterName virtualHostPolicy populated).map Prod.snd
  else some populated.2

variable {rateLimits : List RateLimitConfig} {policy : RateLimitPolicyImpl}

/-! ## What is wanted -/

variable (rateLimit : RateLimitPolicyEntry)

/-- The key is enabled at the `i`-th check, if there is one, and every action adds something. -/
def Applies (i : Nat) : Prop :=
  (rateLimit.disableKey = [] ∨ r.featureEnabled i (httpFilterEnabled rateLimit.disableKey) = true) ∧
    rateLimit.Populates (subject config r clusterName)

instance (i : Nat) :
    Decidable (Applies config r clusterName rateLimit i) :=
  inferInstanceAs (Decidable ((_ ∨ _) ∧ _))

def ofStage (rateLimits : List RateLimitConfig) : List RateLimitPolicyEntry :=
  (rateLimits.map RateLimitPolicyEntry.ofConfig).filter fun rateLimit =>
    rateLimit.stage = config.stage

/-- The rate limits are numbered from `first` on. -/
def wantedDescriptors (first : Nat) (rateLimits : List RateLimitPolicyEntry) : List Descriptor :=
  ((rateLimits.zipIdx first).filter fun (rateLimit, i) =>
      Applies config r clusterName rateLimit i).map
    fun (rateLimit, _) => rateLimit.descriptor (subject config r clusterName)

variable {config r clusterName}

theorem populateRateLimit_eq (i : Nat) (descriptors : List Descriptor)
    (rateLimit : RateLimitPolicyEntry) :
    populateRateLimit config r clusterName (i, descriptors) rateLimit = (i + 1,
      if Applies config r clusterName rateLimit i then
        descriptors ++ [rateLimit.descriptor (subject config r clusterName)] else descriptors) := by
  rw [populateRateLimit, RateLimitPolicyEntry.populateDescriptors_eq]
  by_cases hdisabled : rateLimit.disableKey ≠ [] ∧
      r.featureEnabled i (httpFilterEnabled rateLimit.disableKey) = false
  · have hnot : ¬Applies config r clusterName rateLimit i := by
      rintro ⟨hnone | henabled, -⟩
      · exact hdisabled.1 hnone
      · exact absurd (hdisabled.2.symm.trans henabled) Bool.false_ne_true
    rw [if_pos hdisabled, if_neg hnot]
  · have hkey : rateLimit.disableKey = [] ∨
        r.featureEnabled i (httpFilterEnabled rateLimit.disableKey) = true := by
      by_contra hneither
      rw [not_or, Bool.not_eq_true] at hneither
      exact hdisabled hneither
    rw [if_neg hdisabled]
    exact congrArg _ (if_congr (and_iff_right hkey).symm rfl rfl)

theorem wantedDescriptors_cons (first : Nat) (rateLimit : RateLimitPolicyEntry)
    (rateLimits : List RateLimitPolicyEntry) :
    wantedDescriptors config r clusterName first (rateLimit :: rateLimits) =
      (if Applies config r clusterName rateLimit first then
        [rateLimit.descriptor (subject config r clusterName)] else []) ++
        wantedDescriptors config r clusterName (first + 1) rateLimits := by
  rw [wantedDescriptors, zipIdx_cons, filter_cons]
  by_cases happlies : Applies config r clusterName rateLimit first
  · rw [if_pos happlies, if_pos (decide_eq_true happlies)]
    rfl
  · rw [if_neg happlies, if_neg fun h => happlies (of_decide_eq_true h)]
    rfl

theorem foldl_populateRateLimit (first : Nat) (descriptors : List Descriptor)
    (rateLimits : List RateLimitPolicyEntry) :
    rateLimits.foldl (populateRateLimit config r clusterName) (first, descriptors) =
      (first + rateLimits.length,
        descriptors ++ wantedDescriptors config r clusterName first rateLimits) := by
  induction rateLimits generalizing first descriptors with
  | nil => exact congrArg _ (append_nil descriptors).symm
  | cons rateLimit rateLimits ih =>
    rw [foldl_cons, populateRateLimit_eq, ih, wantedDescriptors_cons, length_cons,
      Nat.add_right_comm, ← Nat.add_assoc]
    split
    · rw [append_assoc]
    · rw [nil_append]

theorem wantedDescriptors_append (first second : List RateLimitPolicyEntry) :
    wantedDescriptors config r clusterName 0 (first ++ second) =
      wantedDescriptors config r clusterName 0 first ++
        wantedDescriptors config r clusterName first.length second := by
  rw [wantedDescriptors, zipIdx_append, filter_append, map_append, Nat.zero_add]
  rfl

theorem ofStage_append (first second : List RateLimitConfig) :
    ofStage config (first ++ second) = ofStage config first ++ ofStage config second := by
  rw [ofStage, map_append, filter_append]
  rfl

theorem populateFromPolicy_eq (hcreate : RateLimitPolicyImpl.create rateLimits = some policy)
    (first : Nat) (descriptors : List Descriptor) :
    populateFromPolicy config r clusterName policy (first, descriptors) =
      if config.stage ≤ maxStageNumber then
        some (first + (ofStage config rateLimits).length, descriptors ++
          wantedDescriptors config r clusterName first (ofStage config rateLimits)) else none := by
  rw [populateFromPolicy, RateLimitPolicyImpl.create_holds hcreate config.stage]
  split
  · rw [map_some, foldl_populateRateLimit]
    rfl
  · rfl

/-- In order, there is one descriptor for each entry that applies, those of the route first. -/
theorem populateAll_wanted (config : FilterConfig) (r : Request) (clusterName : Bytes)
    (includeVirtualHostRateLimits : Bool) (routeLimits virtualHostLimits : List RateLimitConfig)
    {routePolicy virtualHostPolicy : RateLimitPolicyImpl}
    (hroute : RateLimitPolicyImpl.create routeLimits = some routePolicy)
    (hvirtualHost : RateLimitPolicyImpl.create virtualHostLimits = some virtualHostPolicy) :
    populateAll config r clusterName includeVirtualHostRateLimits routePolicy virtualHostPolicy =
      if config.stage ≤ maxStageNumber then
        some (wantedDescriptors config r clusterName 0 (ofStage config
          (if includeVirtualHostRateLimits then routeLimits ++ virtualHostLimits else routeLimits)))
      else none := by
  rw [populateAll, populateFromPolicy_eq hroute]
  by_cases hstage : config.stage ≤ maxStageNumber
  · rw [if_pos hstage, if_pos hstage, bind_eq_bind, bind_some, nil_append]
    cases includeVirtualHostRateLimits with
    | false => rfl
    | true =>
      rw [if_pos rfl, if_pos rfl, populateFromPolicy_eq hvirtualHost, if_pos hstage, map_some,
        ofStage_append, wantedDescriptors_append, Nat.zero_add]
  · rw [if_neg hstage, if_neg hstage]
    rfl

section Sample

def sampleLimits : List RateLimitConfig :=
  [⟨[], none, [.sourceCluster, .remoteAddress]⟩, ⟨[], some 1, [.destinationCluster]⟩,
    ⟨ascii "off", none, [.sourceCluster]⟩]

def sampleFilter : FilterConfig := ⟨ascii "edge", 0, .both, ascii "local"⟩

/-- The key is enabled at the first of its two checks only. -/
def sampleLimited : Request := ⟨.new, none, fun _ => true, fun i _ => i = 1, []⟩

def samplePolicy : RateLimitPolicyImpl :=
  ⟨(List.range 11).map fun stage =>
    (sampleLimits.map RateLimitPolicyEntry.ofConfig).filter fun entry => entry.stage = stage⟩

theorem populateAll_wanted_sample :
    populateAll sampleFilter sampleLimited (ascii "web") true samplePolicy samplePolicy =
      some [[⟨ascii "source_cluster", ascii "local"⟩]] :=
  populateAll_wanted sampleFilter sampleLimited (ascii "web") true sampleLimits sampleLimits rfl rfl

end Sample

end HttpFilter

end Meliproxy.Envoy.RateLimit
