import Meliproxy.Envoy.Config.Metadata
import Meliproxy.Envoy.Mongo.BsonRoundTrip

/-!
# Equality of BSON documents

`FieldImpl::operator==` and `DocumentImpl::operator==`. They do not look at the keys, and compare
doubles as the processor does. What they see of a document is `plain`.
-/

namespace Meliproxy.Envoy.Bson

open Lib Config

mutual

def Field.equal : Field → Field → Bool
  | .mk _ value, .mk _ value' => value.equal value'

def Value.equal : Value → Value → Bool
  | .double value, .double value' => doubleEqual value value'
  | .string value, .string value' => value == value'
  | .document fields, .document fields' =>
    fields.length == fields'.length && fieldsEqual fields fields'
  | .array fields, .array fields' =>
    fields.length == fields'.length && fieldsEqual fields fields'
  | .binary value, .binary value' => value == value'
  | .objectId value, .objectId value' => value == value'
  | .boolean value, .boolean value' => value == value'
  | .datetime value, .datetime value' => value == value'
  | .nullValue, .nullValue => true
  | .regex value, .regex value' =>
    value.pattern == value'.pattern && value.options == value'.options
  | .int32 value, .int32 value' => value == value'
  | .timestamp value, .timestamp value' => value == value'
  | .int64 value, .int64 value' => value == value'
  | _, _ => false

def fieldsEqual : List Field → List Field → Bool
  | field :: fields, field' :: fields' => field.equal field' && fieldsEqual fields fields'
  | _, _ => true

end

def Document.equal (lhs rhs : Document) : Bool :=
  lhs.length == rhs.length && fieldsEqual lhs rhs

mutual

def Field.noNaN : Field → Bool
  | .mk _ value => value.noNaN

def Value.noNaN : Value → Bool
  | .double value => !isNaN value
  | .document fields => fieldsNoNaN fields
  | .array fields => fieldsNoNaN fields
  | _ => true

def fieldsNoNaN : List Field → Bool
  | [] => true
  | field :: fields => field.noNaN && fieldsNoNaN fields

end

mutual

def Field.plain : Field → Field
  | .mk _ value => .mk [] value.plain

def Value.plain : Value → Value
  | .double value => .double (if isZero value then 0 else value)
  | .document fields => .document (plainFields fields)
  | .array fields => .array (plainFields fields)
  | value => value

def plainFields : List Field → List Field
  | [] => []
  | field :: fields => field.plain :: plainFields fields

end

theorem doubleEqual_plain_iff (a b : UInt64) : doubleEqual a b = true ↔
      isNaN a = false ∧ (if isZero a then 0 else a) = if isZero b then 0 else b := by
  have hzero : isZero 0 = true := rfl
  have hnan : ∀ {c : UInt64}, isZero c = true → isNaN c = false := by
    intro c hc
    have hmag : magnitude c = 0 := of_decide_eq_true hc
    exact decide_eq_false (by omega)
  rw [doubleEqual, Bool.and_eq_true, Bool.and_eq_true, Bool.or_eq_true, Bool.and_eq_true,
    beq_iff_eq, Bool.not_eq_true', Bool.not_eq_true']
  constructor
  · rintro ⟨⟨ha, -⟩, rfl | ⟨hza, hzb⟩⟩
    · exact ⟨ha, rfl⟩
    · exact ⟨ha, by rw [if_pos hza, if_pos hzb]⟩
  · rintro ⟨ha, heq⟩
    by_cases hza : isZero a = true
    · by_cases hzb : isZero b = true
      · exact ⟨⟨ha, hnan hzb⟩, .inr ⟨hza, hzb⟩⟩
      · rw [if_pos hza, if_neg hzb] at heq
        exact absurd (heq ▸ hzero) hzb
    · by_cases hzb : isZero b = true
      · rw [if_neg hza, if_pos hzb] at heq
        exact absurd (heq ▸ hzero) hza
      · rw [if_neg hza, if_neg hzb] at heq
        exact ⟨⟨ha, heq ▸ ha⟩, .inl heq⟩

mutual

theorem Field.equal_iff : (field field' : Field) →
    (field.equal field' = true ↔ field.noNaN = true ∧ field.plain = field'.plain)
  | .mk key value, .mk key' value' => by
    rw [Field.equal, Field.noNaN, Field.plain, Field.plain, Value.equal_iff value value']
    simp [Field.mk.injEq]

theorem Value.equal_iff : (value value' : Value) →
    (value.equal value' = true ↔ value.noNaN = true ∧ value.plain = value'.plain)
  | .double a, w => by
    cases w with
    | double b =>
      rw [Value.equal, doubleEqual_plain_iff]
      simp [Value.noNaN, Value.plain]
    | _ => simp [Value.equal, Value.plain]
  | .document fields, w => by
    cases w with
    | document fields' =>
      rw [Value.equal, fieldsEqual_iff fields fields', Value.noNaN, Value.plain, Value.plain]
      simp only [Value.document.injEq]
    | _ => simp [Value.equal, Value.plain]
  | .array fields, w => by
    cases w with
    | array fields' =>
      rw [Value.equal, fieldsEqual_iff fields fields', Value.noNaN, Value.plain, Value.plain]
      simp only [Value.array.injEq]
    | _ => simp [Value.equal, Value.plain]
  | .regex value, w => by
    cases w with
    | regex value' =>
      obtain ⟨pattern, options⟩ := value
      obtain ⟨pattern', options'⟩ := value'
      simp [Value.equal, Value.noNaN, Value.plain]
    | _ => simp [Value.equal, Value.plain]
  | .objectId value, w => by
    cases w <;> simp [Value.equal, Value.noNaN, Value.plain, Subtype.ext_iff]
  | .string _, w | .binary _, w | .boolean _, w | .datetime _, w | .nullValue, w | .int32 _, w
  | .timestamp _, w | .int64 _, w => by cases w <;> simp [Value.equal, Value.noNaN, Value.plain]

theorem fieldsEqual_iff : (fields fields' : List Field) →
    ((fields.length == fields'.length && fieldsEqual fields fields') = true ↔
      fieldsNoNaN fields = true ∧ plainFields fields = plainFields fields')
  | [], [] => by simp [fieldsEqual, fieldsNoNaN, plainFields]
  | [], _ :: _ => by simp [plainFields]
  | _ :: _, [] => by simp [plainFields]
  | field :: fields, field' :: fields' => by
    have hfield := Field.equal_iff field field'
    have hfields := fieldsEqual_iff fields fields'
    rw [Bool.and_eq_true] at hfields
    simp only [fieldsEqual, fieldsNoNaN, plainFields, List.length_cons, Bool.and_eq_true,
      List.cons.injEq, beq_iff_eq, Nat.add_right_cancel_iff] at hfields ⊢
    rw [hfield]
    tauto

end

theorem Document.equal_iff (a b : Document) :
    Document.equal a b = true ↔ fieldsNoNaN a = true ∧ plainFields a = plainFields b :=
  fieldsEqual_iff a b

mutual

theorem Field.noNaN_plain : (field : Field) → field.plain.noNaN = field.noNaN
  | .mk _ value => Value.noNaN_plain value

theorem Value.noNaN_plain : (value : Value) → value.plain.noNaN = value.noNaN
  | .double bits => by
    rw [Value.plain]
    split
    · rename_i hzero
      have hmag : magnitude bits = 0 := of_decide_eq_true hzero
      have hnan : isNaN bits = false := decide_eq_false (by omega)
      rw [Value.noNaN, Value.noNaN, hnan]
      rfl
    · rfl
  | .document fields => fieldsNoNaN_plain fields
  | .array fields => fieldsNoNaN_plain fields
  | .string _ | .binary _ | .objectId _ | .boolean _ | .datetime _ | .nullValue | .regex _
  | .int32 _ | .timestamp _ | .int64 _ => rfl

theorem fieldsNoNaN_plain : (fields : List Field) →
    fieldsNoNaN (plainFields fields) = fieldsNoNaN fields
  | [] => rfl
  | field :: fields => by
    rw [plainFields, fieldsNoNaN, fieldsNoNaN, Field.noNaN_plain field, fieldsNoNaN_plain fields]

end

theorem Document.equal_symm {a b : Document} (h : Document.equal a b = true) :
    Document.equal b a = true := by
  obtain ⟨hnan, hplain⟩ := (Document.equal_iff a b).mp h
  refine (Document.equal_iff b a).mpr ⟨?_, hplain.symm⟩
  rw [← fieldsNoNaN_plain, ← hplain, fieldsNoNaN_plain, hnan]

theorem Document.equal_trans {a b c : Document} (hab : Document.equal a b = true)
    (hbc : Document.equal b c = true) : Document.equal a c = true := by
  obtain ⟨hnan, hplain⟩ := (Document.equal_iff a b).mp hab
  obtain ⟨-, hplain'⟩ := (Document.equal_iff b c).mp hbc
  exact (Document.equal_iff a c).mpr ⟨hnan, hplain.trans hplain'⟩

/-- Two documents without NUL bytes that are not too large have two encodings. -/
theorem encode_injective {a b : Document} (ha : fieldsNoNul a = true) (hb : fieldsNoNul b = true)
    (hsize : (Document.encode a).length < 2 ^ 31) (h : Document.encode a = Document.encode b) :
    a = b := by
  have hreada := create_reads ha hsize []
  have hreadb := create_reads hb (h ▸ hsize) []
  unfold Reads at hreada hreadb
  rw [h, hreadb] at hreada
  cases hreada
  rfl

/-- What the operator should say of two documents, where `=` compares all of them: the number of
the fields, and the key, the type and the value of each, a double by its bits. -/
structure IsStructural (a b : Document) : Prop where
  structural : Document.equal a b = true ↔ a = b
  refl : Document.equal a a = true
  symm : Document.equal a b = true → Document.equal b a = true
  trans : ∀ c, Document.equal a b = true → Document.equal b c = true → Document.equal a c = true
  encoding : Document.equal a b = true ↔ Document.encode a = Document.encode b

/-- It says so exactly of a document without NaN and one that is not the same but for keys and
signs of zeros, as long as their encodings tell them apart. Those of documents that can be read
back do. -/
theorem equal_isStructural_iff (a b : Document) :
    (IsStructural a b ↔ fieldsNoNaN a = true ∧ (plainFields a = plainFields b → a = b) ∧
      (Document.encode a = Document.encode b → a = b)) ∧
    (fieldsNoNul a = true → fieldsNoNul b = true → (Document.encode a).length < 2 ^ 31 →
      Document.encode a = Document.encode b → a = b) := by
  refine ⟨⟨fun h => ?_, fun ⟨hnan, hplain, hencode⟩ => ?_⟩, encode_injective⟩
  · have hnan := ((Document.equal_iff a a).mp h.refl).1
    refine ⟨hnan, fun hplain => ?_, fun hencode => ?_⟩
    · exact h.structural.mp ((Document.equal_iff a b).mpr ⟨hnan, hplain⟩)
    · exact h.structural.mp (h.encoding.mpr hencode)
  · have hrefl : Document.equal a a = true := (Document.equal_iff a a).mpr ⟨hnan, rfl⟩
    have hstructural : Document.equal a b = true ↔ a = b := by
      constructor
      · intro h
        exact hplain ((Document.equal_iff a b).mp h).2
      · rintro rfl
        exact hrefl
    refine ⟨hstructural, hrefl, Document.equal_symm, fun c => Document.equal_trans, ?_⟩
    rw [hstructural]
    constructor
    · rintro rfl
      rfl
    · exact hencode

/-- The documents `{"a": null}` and `{"b": null}` are equal. -/
theorem equal_without_keys :
    Document.equal [.mk (ascii "a") .nullValue] [.mk (ascii "b") .nullValue] = true ∧
      ¬ IsStructural [.mk (ascii "a") .nullValue] [.mk (ascii "b") .nullValue] := by
  have hequal : Document.equal [.mk (ascii "a") .nullValue] [.mk (ascii "b") .nullValue] = true :=
    by decide
  refine ⟨hequal, fun h => ?_⟩
  have heq := h.structural.mp hequal
  have hkeys : ascii "a" = ascii "b" := (Field.mk.inj (List.cons.inj heq).1).1
  exact absurd hkeys (by decide)

end Meliproxy.Envoy.Bson
