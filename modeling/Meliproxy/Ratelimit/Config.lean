import Meliproxy.Ratelimit.CacheKey

/-!
# Loading a configuration and looking up limits

The `config` package. YAML parsing itself is a parameter; everything after it is
modelled: the check of the generic map, the descriptor trees with their composite
keys, and the lookup loop of `GetLimit`. Maps are association lists with the entries
in insertion order.
-/

namespace Meliproxy.Ratelimit.Config

open Lib

structure YamlRateLimit where
  requestsPerUnit : UInt32
  unit : Bytes

inductive YamlDescriptor where
  | mk (key value : Bytes) (rateLimit : Option YamlRateLimit) (descriptors : List YamlDescriptor)

structure YamlRoot where
  domain : Bytes
  descriptors : List YamlDescriptor

/-- A node of the generic map that `validateYamlKeys` walks over. -/
inductive YamlValue where
  | list (items : List YamlValue)
  | map (fields : List (YamlValue × YamlValue))
  | string (text : Bytes)
  | int (value : Int)
  | nil
  | other (text : Bytes)

/-- The YAML package: the two `Unmarshal` calls of `loadConfig` and the `%v` text of
a value. -/
structure Yaml where
  unmarshalAny : Bytes → Except Bytes (List (YamlValue × YamlValue))
  unmarshalRoot : Bytes → Except Bytes YamlRoot
  format : YamlValue → Bytes

structure RateLimitConfigToLoad where
  name : Bytes
  fileBytes : Bytes

inductive RateLimitDescriptor where
  | mk (descriptors : List (Bytes × RateLimitDescriptor)) (limit : Option RateLimit)

/-- A domain embeds a descriptor without a limit of its own. -/
structure RateLimitConfigImpl where
  domains : List (Bytes × RateLimitDescriptor)

namespace YamlDescriptor

def key : YamlDescriptor → Bytes
  | mk key _ _ _ => key

def value : YamlDescriptor → Bytes
  | mk _ value _ _ => value

def rateLimit : YamlDescriptor → Option YamlRateLimit
  | mk _ _ rateLimit _ => rateLimit

def descriptors : YamlDescriptor → List YamlDescriptor
  | mk _ _ _ descriptors => descriptors

end YamlDescriptor

namespace RateLimitDescriptor

def descriptors : RateLimitDescriptor → List (Bytes × RateLimitDescriptor)
  | mk descriptors _ => descriptors

def limit : RateLimitDescriptor → Option RateLimit
  | mk _ limit => limit

end RateLimitDescriptor

def validKeys : List Bytes :=
  [ascii "domain", ascii "key", ascii "value", ascii "descriptors", ascii "rate_limit",
    ascii "unit", ascii "requests_per_unit"]

variable (config : RateLimitConfigToLoad)

def newRateLimitConfigError (err : Bytes) : Panic :=
  .rateLimitConfigError (config.name ++ ascii ": " ++ err)

/-- `strings.ToUpper`, as far as it can produce ASCII letters: besides the ASCII
lower case letters only U+0131 and U+017F have an ASCII upper case. -/
def toUpper : Bytes → Bytes
  | 0xc4 :: 0xb1 :: rest => 73 :: toUpper rest
  | 0xc5 :: 0xbf :: rest => 83 :: toUpper rest
  | b :: rest => (if 97 ≤ b ∧ b ≤ 122 then b - 32 else b) :: toUpper rest
  | [] => []

/-- `pb.RateLimit_Unit_value`. -/
def rateLimitUnitValue (name : Bytes) : Option Pb.RateLimitUnit :=
  [(ascii "UNKNOWN", Pb.RateLimitUnit.unknown), (ascii "SECOND", .second),
    (ascii "MINUTE", .minute), (ascii "HOUR", .hour), (ascii "DAY", .day)].lookup name

/-- Value is optional, so the final key for the map is either the key only or
key_value. -/
def compositeKey (key value : Bytes) : Bytes :=
  if value = [] then key else key ++ underscore :: value

def loadRateLimit (newParentKey : Bytes) :
    Option YamlRateLimit → Except Panic (Option RateLimit)
  | none => .ok none
  | some yaml =>
    match rateLimitUnitValue (toUpper yaml.unit) with
    | none => .error (newRateLimitConfigError config
        (ascii "invalid rate limit unit '" ++ yaml.unit ++ ascii "'"))
    | some unit =>
      if h : unit = .unknown then
        .error (newRateLimitConfigError config
          (ascii "invalid rate limit unit '" ++ yaml.unit ++ ascii "'"))
      else .ok (some (newRateLimit yaml.requestsPerUnit unit h newParentKey))

mutual

def loadDescriptors (config : RateLimitConfigToLoad) (parentKey : Bytes)
    (this : List (Bytes × RateLimitDescriptor)) :
    List YamlDescriptor → Except Panic (List (Bytes × RateLimitDescriptor))
  | [] => .ok this
  | descriptorConfig :: rest =>
    match loadDescriptor config parentKey this descriptorConfig with
    | .error e => .error e
    | .ok newDescriptor => loadDescriptors config parentKey (this ++ [newDescriptor]) rest

def loadDescriptor (config : RateLimitConfigToLoad) (parentKey : Bytes)
    (this : List (Bytes × RateLimitDescriptor)) :
    YamlDescriptor → Except Panic (Bytes × RateLimitDescriptor)
  | .mk key value yamlRateLimit descriptors =>
    if key = [] then .error (newRateLimitConfigError config (ascii "descriptor has empty key"))
    else
      let finalKey := compositeKey key value
      let newParentKey := parentKey ++ finalKey
      if (this.lookup finalKey).isSome then
        .error (newRateLimitConfigError config
          (ascii "duplicate descriptor composite key '" ++ newParentKey ++ ascii "'"))
      else
        match loadRateLimit config newParentKey yamlRateLimit with
        | .error e => .error e
        | .ok rateLimit =>
          match loadDescriptors config (newParentKey ++ ascii ".") [] descriptors with
          | .error e => .error e
          | .ok children => .ok (finalKey, .mk children rateLimit)

end

mutual

def validateYamlKeys (yaml : Yaml) (config : RateLimitConfigToLoad) :
    List (YamlValue × YamlValue) → Except Panic Unit
  | [] => .ok ()
  | field :: rest =>
    match validateYamlField yaml config field with
    | .error e => .error e
    | .ok _ => validateYamlKeys yaml config rest

def validateYamlField (yaml : Yaml) (config : RateLimitConfigToLoad) :
    YamlValue × YamlValue → Except Panic Unit
  | (.string name, v) =>
    if name ∈ validKeys then validateYamlValue yaml config v
    else .error (newRateLimitConfigError config
      (ascii "config error, unknown key '" ++ name ++ ascii "'"))
  | (k, _) => .error (newRateLimitConfigError config
      (ascii "config error, key is not of type string: " ++ yaml.format k))

def validateYamlValue (yaml : Yaml) (config : RateLimitConfigToLoad) :
    YamlValue → Except Panic Unit
  | .list items => validateYamlItems yaml config items
  | .map fields => validateYamlKeys yaml config fields
  | .string _ => .ok ()
  | .int _ => .ok ()
  | .nil => .ok ()
  | .other _ => .error (newRateLimitConfigError config (ascii "error checking config"))

def validateYamlItems (yaml : Yaml) (config : RateLimitConfigToLoad) :
    List YamlValue → Except Panic Unit
  | [] => .ok ()
  | item :: rest =>
    match item with
    | .map fields =>
      match validateYamlKeys yaml config fields with
      | .error e => .error e
      | .ok _ => validateYamlItems yaml config rest
    | e => .error (newRateLimitConfigError config
        (ascii "config error, yaml file contains list of type other than map: " ++ yaml.format e))

end

def loadConfig (yaml : Yaml) (this : RateLimitConfigImpl) (config : RateLimitConfigToLoad) :
    Except Panic RateLimitConfigImpl :=
  match yaml.unmarshalAny config.fileBytes with
  | .error err => .error (newRateLimitConfigError config (ascii "error loading config file: " ++ err))
  | .ok any =>
    match validateYamlKeys yaml config any with
    | .error e => .error e
    | .ok _ =>
      match yaml.unmarshalRoot config.fileBytes with
      | .error err =>
        .error (newRateLimitConfigError config (ascii "error loading config file: " ++ err))
      | .ok root =>
        if root.domain = [] then
          .error (newRateLimitConfigError config (ascii "config file cannot have empty domain"))
        else if (this.domains.lookup root.domain).isSome then
          .error (newRateLimitConfigError config
            (ascii "duplicate domain '" ++ root.domain ++ ascii "' in config file"))
        else
          match loadDescriptors config (root.domain ++ ascii ".") [] root.descriptors with
          | .error e => .error e
          | .ok descriptors =>
            .ok ⟨this.domains ++ [(root.domain, .mk descriptors none)]⟩

def loadConfigs (yaml : Yaml) (this : RateLimitConfigImpl) :
    List RateLimitConfigToLoad → Except Panic RateLimitConfigImpl
  | [] => .ok this
  | config :: rest =>
    match loadConfig yaml this config with
    | .error e => .error e
    | .ok next => loadConfigs yaml next rest

def newRateLimitConfigImpl (yaml : Yaml) (configs : List RateLimitConfigToLoad) :
    Except Panic RateLimitConfigImpl := loadConfigs yaml ⟨[]⟩ configs

/-- The text under which `GetLimit` first looks an entry up. -/
def entryKey (entry : Pb.Entry) : Bytes := entry.key ++ underscore :: entry.value

variable (descriptorsMap : List (Bytes × RateLimitDescriptor))

/-- The node that one iteration of `GetLimit` selects. -/
def nextDescriptor (entry : Pb.Entry) :
    Option RateLimitDescriptor :=
  match descriptorsMap.lookup (entryKey entry) with
  | some next => some next
  | none => descriptorsMap.lookup entry.key

def matchedKey (entry : Pb.Entry) :
    Option Bytes :=
  if (descriptorsMap.lookup (entryKey entry)).isSome then some (entryKey entry)
  else if (descriptorsMap.lookup entry.key).isSome then some entry.key
  else none

def getLimitLoop (descriptorsMap : List (Bytes × RateLimitDescriptor))
    (rateLimit : Option RateLimit) : List Pb.Entry → Option RateLimit
  | [] => rateLimit
  | entry :: rest =>
    match nextDescriptor descriptorsMap entry with
    | none => rateLimit
    | some next =>
      let found := if next.limit.isSome ∧ rest = [] then next.limit else rateLimit
      if next.descriptors = [] then found else getLimitLoop next.descriptors found rest

def getLimit (this : RateLimitConfigImpl) (domain : Bytes) (descriptor : Pb.RateLimitDescriptor) :
    Option RateLimit :=
  match this.domains.lookup domain with
  | none => none
  | some value => getLimitLoop value.descriptors none descriptor.entries

end Meliproxy.Ratelimit.Config
