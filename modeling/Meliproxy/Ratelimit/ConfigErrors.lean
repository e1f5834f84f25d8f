import Meliproxy.Ratelimit.Config

/-!
# Errors of a configuration

Every panic of the loader, from however deep in a tree, is a `RateLimitConfigError`.
-/

namespace Meliproxy.Ratelimit

open Lib Config

def IsConfigError (e : Panic) : Prop := ∃ text, e = .rateLimitConfigError text

variable {yaml : Yaml} {this : RateLimitConfigImpl} {config : RateLimitConfigToLoad}
  {parentKey : Bytes} {e e' : Panic} {α : Type}

theorem error_inj (h : (.error e : Except Panic α) = .error e') (he : IsConfigError e) :
    IsConfigError e' :=
  Except.error.inj h ▸ he

theorem error_new {err : Bytes}
    (h : (.error (newRateLimitConfigError config err) : Except Panic α) = .error e) :
    IsConfigError e :=
  error_inj h ⟨_, rfl⟩

theorem loadRateLimit_error {yaml : Option YamlRateLimit}
    (h : loadRateLimit config parentKey yaml = .error e) : IsConfigError e := by
  cases yaml with
  | none => cases h
  | some yaml =>
    rw [loadRateLimit] at h
    split at h
    · exact error_new h
    · split at h
      · exact error_new h
      · cases h

mutual

theorem loadDescriptors_error {parentKey : Bytes} {this : List (Bytes × RateLimitDescriptor)}
    {e : Panic} (descriptors : List YamlDescriptor)
    (h : loadDescriptors config parentKey this descriptors = .error e) : IsConfigError e := by
  match descriptors with
  | [] =>
    rw [loadDescriptors] at h
    cases h
  | descriptorConfig :: rest =>
    rw [loadDescriptors] at h
    cases hfirst : loadDescriptor config parentKey this descriptorConfig with
    | error e' =>
      rw [hfirst] at h
      exact error_inj h (loadDescriptor_error descriptorConfig hfirst)
    | ok newDescriptor =>
      rw [hfirst] at h
      exact loadDescriptors_error rest h

theorem loadDescriptor_error {parentKey : Bytes} {this : List (Bytes × RateLimitDescriptor)}
    {e : Panic} (descriptor : YamlDescriptor)
    (h : loadDescriptor config parentKey this descriptor = .error e) : IsConfigError e := by
  match descriptor with
  | .mk key value yamlRateLimit descriptors =>
    rw [loadDescriptor] at h
    split at h
    · exact error_new h
    · dsimp only at h
      split at h
      · exact error_new h
      · cases hlimit : loadRateLimit config (parentKey ++ compositeKey key value) yamlRateLimit with
        | error e' =>
          rw [hlimit] at h
          exact error_inj h (loadRateLimit_error hlimit)
        | ok rateLimit =>
          rw [hlimit] at h
          cases hchildren : loadDescriptors config
              (parentKey ++ compositeKey key value ++ ascii ".") [] descriptors with
          | error e' =>
            rw [hchildren] at h
            exact error_inj h (loadDescriptors_error descriptors hchildren)
          | ok children =>
            rw [hchildren] at h
            cases h

end

mutual

theorem validateYamlKeys_error {e : Panic} (fields : List (YamlValue × YamlValue))
    (h : validateYamlKeys yaml config fields = .error e) : IsConfigError e := by
  match fields with
  | [] =>
    rw [validateYamlKeys] at h
    cases h
  | field :: rest =>
    rw [validateYamlKeys] at h
    cases hfield : validateYamlField yaml config field with
    | error e' =>
      rw [hfield] at h
      exact error_inj h (validateYamlField_error field hfield)
    | ok u =>
      rw [hfield] at h
      exact validateYamlKeys_error rest h

theorem validateYamlField_error {e : Panic} (field : YamlValue × YamlValue)
    (h : validateYamlField yaml config field = .error e) : IsConfigError e := by
  match field with
  | (.string name, v) =>
    rw [validateYamlField] at h
    split at h
    · exact validateYamlValue_error v h
    · exact error_new h
  | (.list _, _) | (.map _, _) | (.int _, _) | (.nil, _) | (.other _, _) =>
    rw [validateYamlField] at h
    · exact error_new h
    · nofun

theorem validateYamlValue_error {e : Panic} (v : YamlValue)
    (h : validateYamlValue yaml config v = .error e) : IsConfigError e := by
  match v with
  | .list items => exact validateYamlItems_error items (by rwa [validateYamlValue] at h)
  | .map fields => exact validateYamlKeys_error fields (by rwa [validateYamlValue] at h)
  | .string _ | .int _ | .nil =>
    rw [validateYamlValue] at h
    cases h
  | .other _ =>
    rw [validateYamlValue] at h
    exact error_new h

theorem validateYamlItems_error {e : Panic} (items : List YamlValue)
    (h : validateYamlItems yaml config items = .error e) : IsConfigError e := by
  match items with
  | [] =>
    rw [validateYamlItems] at h
    cases h
  | .map fields :: rest =>
    rw [validateYamlItems] at h
    cases hfields : validateYamlKeys yaml config fields with
    | error e' =>
      rw [hfields] at h
      exact error_inj h (validateYamlKeys_error fields hfields)
    | ok u =>
      rw [hfields] at h
      exact validateYamlItems_error rest h
  | .list _ :: _ | .string _ :: _ | .int _ :: _ | .nil :: _ | .other _ :: _ =>
    rw [validateYamlItems] at h
    · exact error_new h
    · nofun

end

theorem loadConfig_error (h : loadConfig yaml this config = .error e) : IsConfigError e := by
  rw [loadConfig] at h
  split at h
  · exact error_new h
  · rename_i any _
    cases hkeys : validateYamlKeys yaml config any with
    | error e' =>
      rw [hkeys] at h
      exact error_inj h (validateYamlKeys_error any hkeys)
    | ok u =>
      rw [hkeys] at h
      dsimp only at h
      split at h
      · exact error_new h
      · rename_i root _
        split at h
        · exact error_new h
        · split at h
          · exact error_new h
          · cases hdescriptors :
                loadDescriptors config (root.domain ++ ascii ".") [] root.descriptors with
            | error e' =>
              rw [hdescriptors] at h
              exact error_inj h (loadDescriptors_error root.descriptors hdescriptors)
            | ok descriptors =>
              rw [hdescriptors] at h
              cases h

theorem loadConfigs_error {configs : List RateLimitConfigToLoad}
    (h : loadConfigs yaml this configs = .error e) : IsConfigError e := by
  induction configs generalizing this with
  | nil => cases h
  | cons config rest ih =>
    rw [loadConfigs] at h
    cases hfirst : loadConfig yaml this config with
    | error e' =>
      rw [hfirst] at h
      exact error_inj h (loadConfig_error hfirst)
    | ok next =>
      rw [hfirst] at h
      exact ih h

end Meliproxy.Ratelimit
