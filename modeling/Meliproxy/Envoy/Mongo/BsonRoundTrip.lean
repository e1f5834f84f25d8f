import Meliproxy.Envoy.Mongo.Bson

/-!
# Reading a document that was written

Each helper reads back what its counterpart has written. The length in front of a document is the
number of its bytes modulo 32 bits, so the subtraction in the loop of `fromBuffer` counts the bytes
that are left of it, and the loop stops at its last byte.
-/

namespace Meliproxy.Envoy.Bson

open Lib List BufferHelper

theorem drain_reads (bytes rest : Bytes) : Reads (drain bytes.length) bytes ⟨⟩ rest := by
  apply reads_get
  rw [if_neg (by rw [length_append]; omega), drop_left]
  exact reads_set bytes rest

theorem length_writeInt32 (value : Int32) : (writeInt32 value).length = 4 := length_littleEndian 4 _

theorem length_writeInt64 (value : Int64) : (writeInt64 value).length = 8 := length_littleEndian 8 _

theorem peakInt32_reads (value : Int32) (rest : Bytes) :
    Reads peakInt32 [] value (writeInt32 value ++ rest) := by
  have hword : (UInt32.ofNat (fromLittleEndian (writeInt32 value))).toInt32 = value := by
    rw [writeInt32, fromLittleEndian_littleEndian _ _ value.toUInt32.toNat_lt, UInt32.ofNat_toNat]
    exact Int32.toInt32_toUInt32 value
  apply reads_get
  rw [nil_append, take_left' (length_writeInt32 value), hword, if_neg]
  · exact reads_pure value _
  · rw [length_append, length_writeInt32]
    omega

theorem removeInt32_reads (value : Int32) (rest : Bytes) :
    Reads removeInt32 (writeInt32 value) value rest := by
  apply (peakInt32_reads value rest).peek
  have hdrain := drain_reads (writeInt32 value) rest
  rw [length_writeInt32] at hdrain
  exact hdrain.map

theorem removeInt64_reads (value : Int64) (rest : Bytes) :
    Reads removeInt64 (writeInt64 value) value rest := by
  have hword : (UInt64.ofNat (fromLittleEndian (writeInt64 value))).toInt64 = value := by
    rw [writeInt64, fromLittleEndian_littleEndian _ _ value.toUInt64.toNat_lt, UInt64.ofNat_toNat]
    exact Int64.toInt64_toUInt64 value
  apply reads_get
  rw [take_left' (length_writeInt64 value), hword, if_neg]
  · have hdrain := drain_reads (writeInt64 value) rest
    rw [length_writeInt64] at hdrain
    exact hdrain.map
  · rw [length_append, length_writeInt64]
    omega

theorem removeDouble_reads (value : UInt64) (rest : Bytes) :
    Reads removeDouble (writeDouble value) value rest := by
  have hread := (removeInt64_reads value.toInt64 rest).map (g := Int64.toUInt64)
  rw [UInt64.toUInt64_toInt64] at hread
  exact hread

theorem removeByte_reads (byte : UInt8) (rest : Bytes) : Reads removeByte [byte] byte rest := rfl

theorem removeBytes_reads {length : Nat} (bytes : { bytes : Bytes // bytes.length = length })
    (rest : Bytes) : Reads (removeBytes length) bytes.val bytes rest := by
  obtain ⟨bytes, rfl⟩ := bytes
  have hlength : ¬ (bytes ++ rest).length < bytes.length := by
    rw [length_append]
    omega
  apply reads_get
  rw [dif_neg hlength]
  simp only [take_left, drop_left]
  exact (reads_set bytes rest).map

variable {value : Bytes}

theorem takeWhile_value (h : 0 ∉ value) (rest : Bytes) :
    (value ++ 0 :: rest).takeWhile (· ≠ 0) = value := by
  rw [takeWhile_append_of_pos]
  · simp
  · intro b hb
    simp only [decide_eq_true_eq]
    rintro rfl
    exact h hb

theorem removeCString_reads (h : 0 ∉ value) (hsize : value.length + 1 < 2 ^ 32) (rest : Bytes) :
    Reads removeCString (writeCString value) value rest := by
  have hvalue : (writeCString value ++ rest).takeWhile (· ≠ 0) = value := by
    rw [writeCString, append_assoc]
    exact takeWhile_value h rest
  apply reads_get
  rw [if_neg (by simp [writeCString]), hvalue, if_neg (Nat.not_le.mpr hsize)]
  have hdrain := drain_reads (writeCString value) rest
  rw [writeCString, length_append, length_singleton] at hdrain
  exact hdrain.map

theorem removeString_reads (h : 0 ∉ value) (hsize : value.length + 1 < 2 ^ 31) (rest : Bytes) :
    Reads removeString (writeString value) value rest := by
  apply (removeInt32_reads _ _).bind
  apply reads_get
  have hlength : (Int32.ofNat (value.length + 1)).toInt.toNat = (value ++ [0]).length := by
    rw [Int32.toInt_ofNat_of_lt hsize, length_append]
    rfl
  have hpos : ¬ Int32.ofNat (value.length + 1) ≤ 0 := by
    rw [Int32.le_iff_toInt_le, Int32.toInt_ofNat_of_lt hsize]
    simp only [Int32.toInt_zero]
    omega
  simp only [hlength, take_left]
  rw [if_neg, takeWhile_value h []]
  · exact (drain_reads (value ++ [0]) rest).map
  · rintro (hle | hlt | hnul)
    · exact hpos hle
    · rw [length_append] at hlt
      omega
    · simp at hnul

theorem removeBinary_reads (hsize : value.length < 2 ^ 31) (rest : Bytes) :
    Reads removeBinary (writeBinary value) value rest := by
  apply (removeInt32_reads _ _).bind
  have hlength : (Int32.ofNat value.length).toInt.toNat = value.length := by
    rw [Int32.toInt_ofNat_of_lt hsize]
    rfl
  have hpos : ¬ Int32.ofNat value.length < 0 := by
    rw [Int32.lt_iff_toInt_lt, Int32.toInt_ofNat_of_lt hsize]
    simp only [Int32.toInt_zero]
    omega
  apply (removeByte_reads 0 _).bind
  apply reads_get
  simp only [hlength, take_left]
  rw [if_neg]
  · exact (drain_reads value rest).map
  · rintro (hlt | hlt)
    · exact hpos hlt
    · rw [length_append] at hlt
      omega

mutual

theorem Field.byteSize_eq : (field : Field) → field.byteSize = Int32.ofNat field.encode.length
  | .mk key value => by
    rw [Field.byteSize, Field.encode, value.byteSize_eq, ← Int32.ofNat_add]
    congr 1
    simp only [writeCString, length_cons, length_append, length_nil]
    omega

theorem Value.byteSize_eq : (value : Value) → value.byteSize = Int32.ofNat value.encode.length
  | .double value => by rw [Value.encode, writeDouble, length_writeInt64]; rfl
  | .string value => by
    simp only [Value.byteSize, Value.encode, writeString, length_append, length_writeInt32,
      length_singleton, Int32.ofNat_add]
    grind
  | .document fields => by
    simp only [Value.byteSize, Value.encode, length_append, length_writeInt32,
      length_singleton, Int32.ofNat_add, fieldsByteSize_eq fields]
    grind
  | .array fields => by
    simp only [Value.byteSize, Value.encode, length_append, length_writeInt32,
      length_singleton, Int32.ofNat_add, fieldsByteSize_eq fields]
    grind
  | .binary value => by
    simp only [Value.byteSize, Value.encode, writeBinary, length_append, length_writeInt32,
      length_cons, Int32.ofNat_add]
    grind
  | .objectId value => by rw [Value.encode, value.property]; rfl
  | .boolean value => rfl
  | .datetime value => by rw [Value.encode, length_writeInt64]; rfl
  | .nullValue => rfl
  | .regex value => by
    simp only [Value.byteSize, Value.encode, writeCString, length_append, length_singleton,
      Int32.ofNat_add]
    grind
  | .int32 value => by rw [Value.encode, length_writeInt32]; rfl
  | .timestamp value => by rw [Value.encode, length_writeInt64]; rfl
  | .int64 value => by rw [Value.encode, length_writeInt64]; rfl

theorem fieldsByteSize_eq :
    (fields : List Field) → fieldsByteSize fields = Int32.ofNat (encodeFields fields).length
  | [] => rfl
  | field :: fields => by
    rw [fieldsByteSize, encodeFields, field.byteSize_eq, fieldsByteSize_eq fields, length_append,
      Int32.ofNat_add]

end

theorem Document.length_encode (fields : Document) :
    (Document.encode fields).length = (encodeFields fields).length + 5 := by
  simp only [Document.encode, length_append, length_writeInt32, length_singleton]
  omega

theorem Document.byteSize_eq (fields : Document) :
    Document.byteSize fields = Int32.ofNat (Document.encode fields).length := by
  rw [Document.byteSize, fieldsByteSize_eq, Document.length_encode, Int32.ofNat_add]
  exact Int32.add_comm _ _

variable {n : Nat}

theorem toUInt64_ofNat (h : n < 2 ^ 31) : (Int32.ofNat n).toInt64.toUInt64 = UInt64.ofNat n := by
  have hint : (Int32.ofNat n).toInt64 = Int64.ofNat n := by
    apply Int64.toInt_inj.mp
    rw [Int32.toInt_toInt64, Int32.toInt_ofNat_of_lt h, Int64.toInt_ofNat_of_lt (by omega)]
  rw [hint, Int64.toUInt64_ofNat']

theorem toNat_ofNat_small (h : n < 2 ^ 31) : (UInt64.ofNat n).toNat = n :=
  UInt64.toNat_ofNat_of_lt' (Nat.lt_of_lt_of_le h (by decide))

theorem bytesRemaining_eq (left rest total : Nat) :
    bytesRemaining (left + rest) (total + rest) (UInt64.ofNat total) = UInt64.ofNat left := by
  simp only [bytesRemaining, UInt64.ofNat_add]
  grind

theorem ofNat_eq_one (h : n < 2 ^ 31) : UInt64.ofNat n = 1 ↔ n = 1 := by
  rw [← UInt64.toNat_inj, toNat_ofNat_small h]
  rfl

mutual

def Field.noNul : Field → Bool
  | .mk key value => 0 ∉ key && value.noNul

def Value.noNul : Value → Bool
  | .string value => 0 ∉ value
  | .document fields => fieldsNoNul fields
  | .array fields => fieldsNoNul fields
  | .regex value => 0 ∉ value.pattern && 0 ∉ value.options
  | _ => true

def fieldsNoNul : List Field → Bool
  | [] => true
  | field :: fields => field.noNul && fieldsNoNul fields

end

theorem FieldType.ofByte_toByte (type : FieldType) : FieldType.ofByte type.toByte = some type := by
  cases type <;> rfl

variable {rest : Bytes}

theorem removeValue_reads {create : BufferReader Document} {value : Value} (h : value.noNul = true)
    (hsize : value.encode.length < 2 ^ 31)
    (hcreate : ∀ fields, value = .document fields ∨ value = .array fields →
      Reads create (Document.encode fields) fields rest) :
    Reads (removeValue create value.type) value.encode value rest := by
  cases value with
  | double value => exact (removeDouble_reads value rest).map
  | string value =>
    have hnul : 0 ∉ value := by simpa [Value.noNul] using h
    have hlength : value.length + 1 < 2 ^ 31 := by
      simp only [Value.encode, writeString, length_append, length_singleton] at hsize
      omega
    exact (removeString_reads hnul hlength rest).map
  | document fields => exact (hcreate fields (.inl rfl)).map
  | array fields => exact (hcreate fields (.inr rfl)).map
  | binary value =>
    have hlength : value.length < 2 ^ 31 := by
      simp only [Value.encode, writeBinary, length_append, length_cons] at hsize
      omega
    exact (removeBinary_reads hlength rest).map
  | objectId value => exact (removeBytes_reads value rest).map
  | boolean value =>
    have hread := (removeByte_reads (if value then 1 else 0) rest).map
      (g := fun byte => Value.boolean (byte ≠ 0))
    cases value <;> exact hread
  | datetime value => exact (removeInt64_reads value rest).map
  | nullValue => exact reads_pure _ rest
  | regex value =>
    obtain ⟨hpattern, hoptions⟩ : 0 ∉ value.pattern ∧ 0 ∉ value.options := by
      simpa [Value.noNul] using h
    simp only [Value.encode, writeCString, length_append, length_singleton] at hsize
    apply (removeCString_reads hpattern (by omega) _).bind
    exact (removeCString_reads hoptions (by omega) rest).map
  | int32 value => exact (removeInt32_reads value rest).map
  | timestamp value => exact (removeInt64_reads value rest).map
  | int64 value => exact (removeInt64_reads value rest).map

theorem length_field (key : Bytes) (value : Value) :
    (Field.mk key value).encode.length = key.length + value.encode.length + 2 := by
  simp only [Field.encode, writeCString, length_cons, length_append, length_nil]
  omega

variable {fields : Document}

theorem fromBuffer_reads {fuel : Nat} (hsize : (Document.encode fields).length < 2 ^ 31)
    (hfields : Reads (removeFields fuel ((Document.encode fields).length + rest.length)
      (UInt64.ofNat (Document.encode fields).length)) (encodeFields fields ++ [0]) fields rest) :
    Reads (fromBuffer (fuel + 1)) (Document.encode fields) fields rest := by
  rw [fromBuffer]
  apply reads_get
  apply (removeInt32_reads _ _).bind
  rw [Document.byteSize_eq, toUInt64_ofNat hsize, toNat_ofNat_small hsize, length_append,
    if_neg (by omega)]
  exact hfields

theorem removeFields_reads (fuel : Nat) : ∀ {fields : List Field} {rest : Bytes} {total : Nat},
    fieldsNoNul fields = true → (encodeFields fields).length < total → total < 2 ^ 31 →
      (encodeFields fields).length < fuel →
      Reads (removeFields fuel (total + rest.length) (UInt64.ofNat total)) (encodeFields fields ++ [0])
        fields rest := by
  induction fuel using Nat.strongRecOn with
  | ind fuel ih =>
    intro fields rest total hnul hlength htotal hfuel
    obtain ⟨fuel, rfl⟩ : ∃ n, fuel = n + 1 := ⟨fuel - 1, by omega⟩
    rw [removeFields]
    apply reads_get
    have hleft : bytesRemaining (encodeFields fields ++ [0] ++ rest).length (total + rest.length)
        (UInt64.ofNat total) = UInt64.ofNat ((encodeFields fields).length + 1) := by
      rw [length_append, length_append]
      exact bytesRemaining_eq _ _ _
    have hone : UInt64.ofNat ((encodeFields fields).length + 1) = 1 ↔ (encodeFields fields).length = 0 := by
      rw [ofNat_eq_one (by omega)]
      omega
    rw [hleft]
    cases fields with
    | nil =>
      rw [if_pos (hone.mpr rfl)]
      rfl
    | cons field fields =>
      obtain ⟨key, value⟩ := field
      obtain ⟨⟨hkey, hvalue⟩, hfields⟩ : (0 ∉ key ∧ value.noNul = true) ∧ fieldsNoNul fields = true := by
        simpa [fieldsNoNul, Field.noNul] using hnul
      simp only [encodeFields, length_append, length_field] at hlength hfuel hone ⊢
      rw [if_neg (fun h => by have := hone.mp h; omega)]
      have hbytes : (Field.mk key value).encode ++ encodeFields fields ++ [0] =
          [value.type.toByte] ++ (writeCString key ++ (value.encode ++ (encodeFields fields ++ [0]))) := by
        simp [Field.encode]
      rw [hbytes]
      apply (removeByte_reads _ _).bind
      apply (removeCString_reads hkey (by omega) _).bind
      rw [FieldType.ofByte_toByte]
      have hcreate : ∀ inner, value = .document inner ∨ value = .array inner → ∀ rest,
          Reads (fromBuffer fuel) (Document.encode inner) inner rest := by
        intro inner hinner rest
        obtain ⟨hencode, hinnerNul⟩ : value.encode = Document.encode inner ∧ fieldsNoNul inner = true := by
          rcases hinner with rfl | rfl
          · exact ⟨rfl, hvalue⟩
          · exact ⟨rfl, hvalue⟩
        have hinnerLength := Document.length_encode inner
        rw [hencode] at hlength hfuel
        obtain ⟨fuel, rfl⟩ : ∃ n, fuel = n + 1 := ⟨fuel - 1, by omega⟩
        apply fromBuffer_reads (by omega)
        apply ih fuel (by omega) hinnerNul
        · omega
        · omega
        · omega
      apply (removeValue_reads hvalue (by omega) (fun inner hinner => hcreate inner hinner _)).bind
      apply Reads.map
      apply ih fuel (by omega) hfields
      · omega
      · exact htotal
      · omega

/-- A document reads back what was written of it. -/
theorem create_reads (hnul : fieldsNoNul fields = true)
    (hsize : (Document.encode fields).length < 2 ^ 31) (rest : Bytes) :
    Reads create (Document.encode fields) fields rest := by
  have hlength := Document.length_encode fields
  apply reads_get
  rw [length_append]
  apply fromBuffer_reads hsize
  apply removeFields_reads _ hnul
  · omega
  · exact hsize
  · omega

end Meliproxy.Envoy.Bson
