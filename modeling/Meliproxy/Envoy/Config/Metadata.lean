import Meliproxy.Lib.Text

/-!
# Metadata of hosts and routes

A metadata value is a value of a JSON document. `ValueUtil::equal` of `protobuf/utility.cc` compares
two of them as the processor compares doubles, and `HashedValue` looks at the hash of the bytes
besides. On values without NaN and negative zero both say whether the values are identical.
-/

namespace Meliproxy.Envoy.Config

open Lib List

/-- `ProtobufWkt::Value`. A number is the bits of a double, and the fields of a struct come in the
order of their names. -/
inductive Value where
  | null
  | number (bits : UInt64)
  | string (text : Bytes)
  | bool (b : Bool)
  | struct (fields : List (Bytes × Value))
  | list (values : List Value)

abbrev Struct := List (Bytes × Value)

abbrev Metadata := List (Bytes × Struct)

variable (bits : UInt64)

def magnitude : Nat := bits.toNat % 2 ^ 63

def isNaN : Bool := 0x7ff0000000000000 < magnitude bits

def isZero : Bool := magnitude bits = 0

def doubleEqual (a b : UInt64) : Bool :=
  !isNaN a && !isNaN b && (a == b || (isZero a && isZero b))

namespace Value

mutual

def equal : Value → Value → Bool
  | .null, .null => true
  | .number a, .number b => doubleEqual a b
  | .string a, .string b => a == b
  | .bool a, .bool b => a == b
  | .struct s₁, .struct s₂ => s₁.length == s₂.length && equalFields s₁ s₂
  | .list l₁, .list l₂ => l₁.length == l₂.length && equalValues l₁ l₂
  | _, _ => false

def equalFields : Struct → Struct → Bool
  | [], _ => true
  | (name, v) :: s₁, s₂ =>
    (match s₂.lookup name with
    | none => false
    | some w => v.equal w) && equalFields s₁ s₂

def equalValues : List Value → List Value → Bool
  | v :: l₁, w :: l₂ => v.equal w && equalValues l₁ l₂
  | _, _ => true

end

mutual

def regular : Value → Bool
  | .number bits => !isNaN bits && bits != 0x8000000000000000
  | .struct fields =>
    decide ((fields.map Prod.fst).Pairwise (· < ·)) && regularFields fields
  | .list values => regularValues values
  | _ => true

def regularFields : Struct → Bool
  | [] => true
  | (_, v) :: fields => v.regular && regularFields fields

def regularValues : List Value → Bool
  | [] => true
  | v :: values => v.regular && regularValues values

end

variable {fields : Struct} {name : Bytes} {v : Value}

theorem regular_of_mem (h : regularFields fields = true) (hmem : (name, v) ∈ fields) :
    v.regular = true := by
  induction fields with
  | nil => cases hmem
  | cons field fields ih =>
    obtain ⟨hv, hfields⟩ := Bool.and_eq_true_iff.mp h
    rcases mem_cons.mp hmem with rfl | hmem
    · exact hv
    · exact ih hfields hmem

theorem mem_of_lookup (h : fields.lookup name = some v) : (name, v) ∈ fields := by
  induction fields with
  | nil => cases h
  | cons field fields ih =>
    obtain ⟨name', v'⟩ := field
    rw [lookup_cons] at h
    split at h
    · rename_i heq
      cases h
      rw [beq_iff_eq.mp heq]
      exact mem_cons_self
    · exact mem_cons_of_mem _ (ih h)

theorem lookup_of_mem (hsorted : (fields.map Prod.fst).Pairwise (· < ·)) (hmem : (name, v) ∈ fields)
    : fields.lookup name = some v := by
  induction fields with
  | nil => cases hmem
  | cons field fields ih =>
    obtain ⟨name', v'⟩ := field
    obtain ⟨hfirst, hrest⟩ := pairwise_cons.mp hsorted
    rw [lookup_cons]
    rcases mem_cons.mp hmem with heq | hmem
    · obtain ⟨rfl, rfl⟩ := Prod.mk.inj heq
      rw [beq_self_eq_true]
    · have hlt := hfirst name (mem_map.mpr ⟨_, hmem, rfl⟩)
      have hne : (name == name') = false := by
        rw [beq_eq_false_iff_ne]
        rintro rfl
        exact List.lt_irrefl _ hlt
      rw [hne]
      exact ih hrest hmem

theorem eq_of_subset {s₁ s₂ : Struct} (h₁ : (s₁.map Prod.fst).Pairwise (· < ·))
    (h₂ : (s₂.map Prod.fst).Pairwise (· < ·)) (hlength : s₁.length = s₂.length)
    (hsubset : s₁ ⊆ s₂) : s₁ = s₂ := by
  rw [pairwise_map] at h₁ h₂
  have hnodup : s₁.Nodup := h₁.imp fun {a b} hlt heq => by
    rw [heq] at hlt
    exact List.lt_irrefl _ hlt
  have hperm := (subperm_of_subset hnodup hsubset).perm_of_length_le (Nat.le_of_eq hlength.symm)
  exact hperm.eq_of_pairwise (fun a b _ _ hab hba => absurd hba (List.lt_asymm hab)) h₁ h₂

theorem zero_of_isZero {bits : UInt64} (h : isZero bits = true) (hsign : bits ≠ 0x8000000000000000) :
    bits = 0 := by
  have hmod : bits.toNat % 2 ^ 63 = 0 := of_decide_eq_true h
  have hbound := bits.toNat_lt
  have hne : bits.toNat ≠ 2 ^ 63 := fun heq => hsign (UInt64.toNat_inj.mp heq)
  exact UInt64.toNat_inj.mp (show bits.toNat = 0 by omega)

theorem doubleEqual_iff {a b : UInt64} (ha : (number a).regular = true)
    (hb : (number b).regular = true) : doubleEqual a b = true ↔ a = b := by
  obtain ⟨hnan, hzero⟩ := Bool.and_eq_true_iff.mp ha
  obtain ⟨hnan', hzero'⟩ := Bool.and_eq_true_iff.mp hb
  rw [doubleEqual, hnan, hnan', Bool.true_and, Bool.true_and, Bool.or_eq_true, beq_iff_eq,
    or_iff_left_iff_imp, Bool.and_eq_true]
  rintro ⟨hzeroa, hzerob⟩
  rw [zero_of_isZero hzeroa (by simpa using hzero), zero_of_isZero hzerob (by simpa using hzero')]

mutual

theorem eq_of_equal : (v w : Value) → v.regular = true → w.regular = true → v.equal w = true → v = w
  | .null, w, _, _, h => by cases w <;> first | rfl | cases h
  | .number a, w, hv, hw, h => by
    cases w with
    | number b => rw [(doubleEqual_iff hv hw).mp h]
    | _ => cases h
  | .string a, w, _, _, h => by
    cases w with
    | string b => rw [beq_iff_eq.mp h]
    | _ => cases h
  | .bool a, w, _, _, h => by
    cases w with
    | bool b => rw [beq_iff_eq.mp h]
    | _ => cases h
  | .struct s₁, w, hv, hw, h => by
    cases w with
    | struct s₂ =>
      obtain ⟨hsorted₁, hfields₁⟩ := Bool.and_eq_true_iff.mp hv
      obtain ⟨hsorted₂, hfields₂⟩ := Bool.and_eq_true_iff.mp hw
      obtain ⟨hlength, hequal⟩ := Bool.and_eq_true_iff.mp h
      rw [eq_of_subset (of_decide_eq_true hsorted₁) (of_decide_eq_true hsorted₂)
        (beq_iff_eq.mp hlength) (fields_subset s₁ s₂ hfields₁ hfields₂ hequal)]
    | _ => cases h
  | .list l₁, w, hv, hw, h => by
    cases w with
    | list l₂ =>
      obtain ⟨hlength, hequal⟩ := Bool.and_eq_true_iff.mp h
      rw [values_eq l₁ l₂ (beq_iff_eq.mp hlength) hv hw hequal]
    | _ => cases h

theorem fields_subset : (s₁ s₂ : Struct) → regularFields s₁ = true → regularFields s₂ = true →
    equalFields s₁ s₂ = true → s₁ ⊆ s₂
  | [], _, _, _, _ => nil_subset _
  | (name, v) :: s₁, s₂, h₁, h₂, h => by
    obtain ⟨hv, hrest⟩ := Bool.and_eq_true_iff.mp h₁
    obtain ⟨hfound, hequal⟩ := Bool.and_eq_true_iff.mp h
    cases hlookup : s₂.lookup name with
    | none =>
      rw [hlookup] at hfound
      cases hfound
    | some w =>
      rw [hlookup] at hfound
      have hmem := mem_of_lookup hlookup
      obtain rfl := eq_of_equal v w hv (regular_of_mem h₂ hmem) hfound
      exact cons_subset.mpr ⟨hmem, fields_subset s₁ s₂ hrest h₂ hequal⟩

theorem values_eq : (l₁ l₂ : List Value) → l₁.length = l₂.length → regularValues l₁ = true →
    regularValues l₂ = true → equalValues l₁ l₂ = true → l₁ = l₂
  | [], [], _, _, _, _ => rfl
  | v :: l₁, w :: l₂, hlength, h₁, h₂, h => by
    obtain ⟨hv, hrest₁⟩ := Bool.and_eq_true_iff.mp h₁
    obtain ⟨hw, hrest₂⟩ := Bool.and_eq_true_iff.mp h₂
    obtain ⟨hfirst, hrest⟩ := Bool.and_eq_true_iff.mp h
    rw [eq_of_equal v w hv hw hfirst, values_eq l₁ l₂ (Nat.succ.inj hlength) hrest₁ hrest₂ hrest]

end

mutual

theorem equal_self : (v : Value) → v.regular = true → v.equal v = true
  | .null, _ => rfl
  | .number _, h => (doubleEqual_iff h h).mpr rfl
  | .string _, _ => BEq.rfl
  | .bool _, _ => BEq.rfl
  | .struct s, h => by
    obtain ⟨hsorted, hfields⟩ := Bool.and_eq_true_iff.mp h
    exact Bool.and_eq_true_iff.mpr ⟨BEq.rfl,
      equalFields_of_subset s s hfields (of_decide_eq_true hsorted) (List.Subset.refl s)⟩
  | .list l, h => Bool.and_eq_true_iff.mpr ⟨BEq.rfl, equalValues_self l h⟩

theorem equalFields_of_subset : (s₁ s₂ : Struct) → regularFields s₁ = true →
    (s₂.map Prod.fst).Pairwise (· < ·) → s₁ ⊆ s₂ → equalFields s₁ s₂ = true
  | [], _, _, _, _ => rfl
  | (name, v) :: s₁, s₂, h, hsorted, hsubset => by
    obtain ⟨hv, hrest⟩ := Bool.and_eq_true_iff.mp h
    obtain ⟨hmem, hsubset⟩ := cons_subset.mp hsubset
    rw [equalFields, lookup_of_mem hsorted hmem]
    exact Bool.and_eq_true_iff.mpr ⟨equal_self v hv,
      equalFields_of_subset s₁ s₂ hrest hsorted hsubset⟩

theorem equalValues_self : (l : List Value) → regularValues l = true → equalValues l l = true
  | [], _ => rfl
  | v :: l, h => by
    obtain ⟨hv, hrest⟩ := Bool.and_eq_true_iff.mp h
    exact Bool.and_eq_true_iff.mpr ⟨equal_self v hv, equalValues_self l hrest⟩

end

theorem equal_iff {v w : Value} (hv : v.regular = true) (hw : w.regular = true) :
    v.equal w = true ↔ v = w := ⟨eq_of_equal v w hv hw, fun h => h ▸ equal_self v hv⟩

end Value

def hashedEqual (hash : Value → UInt64) (v w : Value) : Bool := hash v == hash w && v.equal w

theorem hashedEqual_iff (hash : Value → UInt64) {v w : Value} (hv : v.regular = true)
    (hw : w.regular = true) : hashedEqual hash v w = true ↔ v = w := by
  rw [hashedEqual, Bool.and_eq_true, Value.equal_iff hv hw]
  exact ⟨And.right, fun h => ⟨by rw [h, beq_self_eq_true], h⟩⟩

/-- `Metadata::metadataValue`, without the default instance that stands for no value. -/
def metadataValue (metadata : Metadata) (filter key : Bytes) : Option Value :=
  (metadata.lookup filter).bind (List.lookup key)

end Meliproxy.Envoy.Config
