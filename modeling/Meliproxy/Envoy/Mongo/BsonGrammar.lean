import Meliproxy.Envoy.Mongo.BsonRoundTrip
import Meliproxy.Lib.Grammar
import Mathlib

/-!
# The bytes of a document

What the decoder takes for a document, without the decoder: a length, elements and a NUL byte, as
many bytes as the length says. The elements of a buffer are bad if one of them announces a string
or a binary that is not there, or a document whose elements are bad, or if a text without a length
has more than 32 bits of them. The decoder oversteps the buffer there and nowhere else.
-/

namespace Meliproxy.Envoy.Bson

open Lib Format BufferHelper List

def word32 (bytes : Bytes) : Int32 := (UInt32.ofNat (fromLittleEndian bytes)).toInt32

def word64 (bytes : Bytes) : Int64 := (UInt64.ofNat (fromLittleEndian bytes)).toInt64

def fixed {α : Type} (n : Nat) (value : Bytes → α) : Format α :=
  fun bytes a => bytes.length = n ∧ a = value bytes

def int32 : Format Int32 := fixed 4 word32

def int64 : Format Int64 := fixed 8 word64

def double : Format UInt64 := int64.map Int64.toUInt64

def byte : Format UInt8 := fun bytes b => bytes = [b]

def cString : Format Bytes := fun bytes value =>
  bytes = value ++ [0] ∧ 0 ∉ value ∧ value.length + 1 < 2 ^ 32

def string : Format Bytes := int32.seq fun length _ bytes value =>
  0 < length ∧ bytes.length = length.toInt.toNat ∧ 0 ∈ bytes ∧ value = bytes.takeWhile (· ≠ 0)

def binary : Format Bytes := int32.seq fun length _ => byte.seq fun _ _ bytes value =>
  0 ≤ length ∧ bytes.length = length.toInt.toNat ∧ value = bytes

def BadCString (data : Bytes) : Prop :=
  ∃ value rest, data = value ++ 0 :: rest ∧ 0 ∉ value ∧ 2 ^ 32 ≤ value.length + 1

/-- The length of a string is not positive, or more than there is, or the string does not end. -/
def BadString : Bytes → Prop := After int32 fun length _ rest =>
  length ≤ 0 ∨ rest.length < length.toInt.toNat ∨ 0 ∉ rest.take length.toInt.toNat

def BadBinary : Bytes → Prop := After int32 fun length _ => After byte fun _ _ rest =>
  length < 0 ∨ rest.length < length.toInt.toNat

def valueFormat (document : Format Document) : FieldType → Format Value
  | .double => double.map .double
  | .string => string.map .string
  | .document => document.map .document
  | .array => document.map .array
  | .binary => binary.map .binary
  | .objectId => Format.map .objectId fun bytes id => id.val = bytes
  | .boolean => byte.map fun b => .boolean (b ≠ 0)
  | .datetime => int64.map .datetime
  | .nullValue => nothing .nullValue
  | .regex => cString.seq fun pattern _ => cString.map fun options => .regex ⟨pattern, options⟩
  | .int32 => int32.map .int32
  | .timestamp => int64.map .timestamp
  | .int64 => int64.map .int64

def badValue (document : Bytes → Prop) : FieldType → Bytes → Prop
  | .string => BadString
  | .binary => BadBinary
  | .document => document
  | .array => document
  | .regex => fun data => BadCString data ∨ After cString (fun _ _ => BadCString) data
  | _ => fun _ => False

/-- The bytes that a document announces. A negative length is a very large one. -/
def announced (length : Int32) : Nat := length.toInt64.toUInt64.toNat

/-- The type and the key in front of a value. -/
structure IsElement (elementType : UInt8) (key : Bytes) (type : FieldType) : Prop where
  type : FieldType.ofByte elementType = some type
  noNul : 0 ∉ key
  fits : key.length + 1 < 2 ^ 32

def FieldType.nested : FieldType → Option (Document → Value)
  | .document => some .document
  | .array => some .array
  | _ => none

inductive SpellsFields : Bytes → List Field → Prop where
  | nil : SpellsFields [] []
  | scalar {elementType : UInt8} {key bytes rest : Bytes} {type : FieldType} {value : Value}
      {fields : List Field} : IsElement elementType key type →
      valueFormat never type bytes value → SpellsFields rest fields →
      SpellsFields (elementType :: (key ++ 0 :: (bytes ++ rest))) (.mk key value :: fields)
  | nested {elementType : UInt8} {key length elements rest : Bytes} {type : FieldType}
      {wrap : Document → Value} {inner fields : List Field} : IsElement elementType key type →
      type.nested = some wrap → length.length = 4 →
      announced (word32 length) = (length ++ (elements ++ [0])).length →
      SpellsFields elements inner → SpellsFields rest fields →
      SpellsFields (elementType :: (key ++ 0 :: (length ++ (elements ++ [0]) ++ rest)))
        (.mk key (wrap inner) :: fields)

def SpellsDocument : Format Document := fun bytes fields =>
  ∃ length elements, bytes = length ++ (elements ++ [0]) ∧ length.length = 4 ∧
    announced (word32 length) = bytes.length ∧ SpellsFields elements fields

variable {bytes : Bytes}

theorem SpellsDocument.length_pos {fields : Document} (h : SpellsDocument bytes fields) :
    0 < bytes.length := by
  obtain ⟨length, elements, rfl, hlength, -⟩ := h
  rw [length_append]
  omega

/-- The elements of a document that announces so many bytes, of which so many are read. -/
inductive BadFields : Nat → Nat → Bytes → Prop where
  | key {total consumed : Nat} {elementType : UInt8} {rest : Bytes} :
      consumed + 1 ≠ total → BadCString rest → BadFields total consumed (elementType :: rest)
  | scalar {total consumed : Nat} {elementType : UInt8} {key rest : Bytes} {type : FieldType} :
      consumed + 1 ≠ total → IsElement elementType key type →
      badValue (fun _ => False) type rest →
      BadFields total consumed (elementType :: (key ++ 0 :: rest))
  | nested {total consumed : Nat} {elementType : UInt8} {key length rest : Bytes}
      {type : FieldType} {wrap : Document → Value} :
      consumed + 1 ≠ total → IsElement elementType key type → type.nested = some wrap →
      length.length = 4 → announced (word32 length) ≤ (length ++ rest).length →
      BadFields (announced (word32 length)) 4 rest →
      BadFields total consumed (elementType :: (key ++ 0 :: (length ++ rest)))
  | skip {total consumed : Nat} {elementType : UInt8} {key bytes rest : Bytes}
      {type : FieldType} {value : Value} :
      consumed + 1 ≠ total → IsElement elementType key type →
      valueFormat SpellsDocument type bytes value →
      BadFields total (consumed + (elementType :: (key ++ 0 :: bytes)).length) rest →
      BadFields total consumed (elementType :: (key ++ 0 :: (bytes ++ rest)))

def BadDocument (data : Bytes) : Prop :=
  ∃ length rest, data = length ++ rest ∧ length.length = 4 ∧
    announced (word32 length) ≤ data.length ∧ BadFields (announced (word32 length)) 4 rest

variable {n : Nat}

variable {data : Bytes}

theorem describes_fixed {α : Type} {r : BufferReader α} {value : Bytes → α}
    {what : Bytes} (h : r data = if data.length < n then .error (.exception what)
      else .ok (value (data.take n), data.drop n)) :
    Describes .undefined r (fixed n value) False data where
  reads := by
    rintro bytes rest a rfl ⟨rfl, rfl⟩
    rw [h, if_neg (by rw [length_append]; omega), take_left, drop_left]
  spelled := by
    intro a rest hr
    rw [h] at hr
    obtain ⟨hlen, hr⟩ : ¬ data.length < n ∧ _ = _ := by
      by_cases hlen : data.length < n
      · rw [if_pos hlen] at hr
        cases hr
      · exact ⟨hlen, (if_neg hlen).symm.trans hr⟩
    obtain ⟨rfl, rfl⟩ := Prod.mk.inj (Except.ok.inj hr)
    exact ⟨data.take n, (take_append_drop n data).symm, length_take_of_le (by omega), rfl⟩
  fails := by
    rw [h]
    split <;> simp

theorem drain_eq (h : n ≤ data.length) : drain n data = .ok (⟨⟩, data.drop n) :=
  congrFun (if_neg (Nat.not_lt.mpr h)) data

theorem peakInt32_eq (h : 4 ≤ data.length) :
    peakInt32 data = .ok (word32 (data.take 4), data) :=
  congrFun (if_neg (Nat.not_lt.mpr h)) data

theorem removeInt32_eq (data : Bytes) :
    removeInt32 data = if data.length < 4 then .error (exception "invalid buffer size")
      else .ok (word32 (data.take 4), data.drop 4) := by
  by_cases h : data.length < 4
  · have hpeak : peakInt32 data = .error (exception "invalid buffer size") :=
      congrFun (if_pos h) data
    change (peakInt32 data).bind _ = _
    rw [hpeak, if_pos h]
    rfl
  · change (peakInt32 data).bind _ = _
    rw [peakInt32_eq (Nat.le_of_not_lt h), if_neg h]
    change (drain 4 data).bind _ = _
    rw [drain_eq (Nat.le_of_not_lt h)]
    rfl

theorem removeInt64_eq (data : Bytes) :
    removeInt64 data = if data.length < 8 then .error (exception "invalid buffer size")
      else .ok (word64 (data.take 8), data.drop 8) := by
  split
  · rename_i h
    exact congrFun (if_pos h) data
  · rename_i h
    refine (congrFun (if_neg h) data).trans ?_
    change (drain 8 data).bind _ = _
    rw [drain_eq (Nat.le_of_not_lt h)]
    rfl

theorem removeBytes_short (h : data.length < n) :
    removeBytes n data = .error (exception "invalid buffer size") :=
  congrFun (dif_pos h) data

theorem removeBytes_eq (h : ¬data.length < n) : removeBytes n data =
    .ok (⟨data.take n, length_take_of_le (Nat.le_of_not_lt h)⟩, data.drop n) :=
  congrFun (dif_neg h) data

variable (data : Bytes)

theorem describes_removeInt32 : Describes .undefined removeInt32 int32 False data :=
  describes_fixed (removeInt32_eq data)

theorem describes_removeInt64 : Describes .undefined removeInt64 int64 False data :=
  describes_fixed (removeInt64_eq data)

theorem describes_removeDouble : Describes .undefined removeDouble double False data :=
  (describes_removeInt64 data).map

theorem describes_removeByte : Describes .undefined removeByte byte False data where
  reads := by
    rintro bytes rest a rfl rfl
    rfl
  spelled := by
    intro a rest hr
    cases data with
    | nil => cases hr
    | cons b data =>
      obtain ⟨rfl, rfl⟩ := Prod.mk.inj (Except.ok.inj hr)
      exact ⟨[b], rfl, rfl⟩
  fails := by cases data <;> exact ⟨nofun, False.elim⟩

theorem describes_removeBytes (n : Nat) :
    Describes .undefined (removeBytes n) (fun bytes value => value.val = bytes) False data where
  reads := by
    rintro _ rest ⟨bytes, hbytes⟩ rfl rfl
    have hlen : ¬ (bytes ++ rest).length < n := by
      rw [length_append]
      omega
    rw [removeBytes_eq hlen]
    simp only [drop_left' hbytes, take_left' hbytes]
  spelled := by
    intro a rest hr
    by_cases hlen : data.length < n
    · rw [removeBytes_short hlen] at hr
      cases hr
    · rw [removeBytes_eq hlen] at hr
      obtain ⟨rfl, rfl⟩ := Prod.mk.inj (Except.ok.inj hr)
      exact ⟨data.take n, (take_append_drop n data).symm, rfl⟩
  fails := by
    by_cases hlen : data.length < n
    · rw [removeBytes_short hlen]
      exact ⟨nofun, False.elim⟩
    · rw [removeBytes_eq hlen]
      exact ⟨nofun, False.elim⟩

theorem removeCString_eq {value : Bytes} (h : 0 ∉ value) (rest : Bytes) :
    removeCString (value ++ 0 :: rest) =
      if 2 ^ 32 ≤ value.length + 1 then .error .undefined else .ok (value, rest) := by
  by_cases hsize : 2 ^ 32 ≤ value.length + 1
  · rw [if_pos hsize]
    have hnul : ¬ 0 ∉ value ++ 0 :: rest := by simp
    refine (congrFun (if_neg hnul) _).trans (congrFun (if_pos ?_) _)
    rwa [takeWhile_value h]
  · rw [if_neg hsize]
    have hread := removeCString_reads h (Nat.not_le.mp hsize) rest
    rwa [Reads, writeCString, append_assoc] at hread

theorem removeCString_fails (h : 0 ∉ data) :
    removeCString data = .error (exception "invalid CString") :=
  congrFun (if_pos h) data

theorem describes_removeCString :
    Describes .undefined removeCString cString (BadCString data) data where
  reads := by
    rintro bytes rest value rfl ⟨rfl, hvalue, hsize⟩
    exact removeCString_reads hvalue hsize rest
  spelled := by
    intro value rest hr
    by_cases hnul : (0 : UInt8) ∈ data
    · obtain ⟨value', rest', rfl, hvalue⟩ := eq_append_cons_of_mem hnul
      rw [removeCString_eq hvalue] at hr
      split at hr
      · cases hr
      · next hsize =>
        obtain ⟨rfl, rfl⟩ := Prod.mk.inj (Except.ok.inj hr)
        exact ⟨value' ++ [0], by simp, rfl, hvalue, Nat.not_le.mp hsize⟩
    · rw [removeCString_fails data hnul] at hr
      cases hr
  fails := by
    constructor
    · intro hr
      by_cases hnul : (0 : UInt8) ∈ data
      · obtain ⟨value, rest, rfl, hvalue⟩ := eq_append_cons_of_mem hnul
        rw [removeCString_eq hvalue] at hr
        split at hr
        · next hsize => exact ⟨value, rest, rfl, hvalue, hsize⟩
        · cases hr
      · rw [removeCString_fails data hnul] at hr
        cases hr
    · rintro ⟨value, rest, rfl, hvalue, hsize⟩
      rw [removeCString_eq hvalue, if_pos hsize]

theorem describes_take {α : Type} {bad : Prop} [Decidable bad] {a : α}
    (hbad : data.length < n → bad) :
    Describes .undefined
      (if bad then do
        throw .undefined
        drain n
        pure a
      else do
        drain n
        pure a : BufferReader α)
      (fun bytes b => ¬ bad ∧ bytes = data.take n ∧ b = a) bad data := by
  by_cases h : bad
  · rw [if_pos h]
    refine describes_throw_bind.congr ?_ ?_
    · intro bytes rest b _
      exact ⟨False.elim, fun hf => hf.1 h⟩
    · exact ⟨fun _ => h, fun _ => rfl⟩
  · have hdrain := drain_eq (Nat.le_of_not_lt fun hlt => h (hbad hlt))
    rw [if_neg h]
    refine (describes_ok (n := n) (a := a) ?_).congr ?_ ?_
    · simp only [bind, StateT.bind, hdrain, Except.bind]
      rfl
    · intro bytes rest b _
      exact ⟨fun hf => ⟨h, hf⟩, fun hf => hf.2⟩
    · exact ⟨False.elim, h⟩

theorem describes_removeString :
    Describes .undefined removeString string (BadString data) data := by
  apply (describes_removeInt32 data).bind_of_safe
  intro front rest length hdata hlength
  apply describes_get
  apply (describes_take rest fun hlt => .inr (.inl hlt)).congr
  · intro bytes tail value hrest
    constructor
    · rintro ⟨hgood, rfl, rfl⟩
      simp only [not_or, Int32.not_le, Nat.not_lt, not_not] at hgood
      exact ⟨hgood.1, length_take_of_le hgood.2.1, hgood.2.2, rfl⟩
    · rintro ⟨hpos, hsize, hnul, rfl⟩
      have htake : rest.take length.toInt.toNat = bytes := by
        rw [hrest, ← hsize, take_left]
      have hle := length_take_le' length.toInt.toNat rest
      rw [htake] at hle ⊢
      refine ⟨?_, rfl, rfl⟩
      rintro (hneg | hlt | hnot)
      · exact Int32.not_le.mpr hpos hneg
      · omega
      · exact hnot hnul
  · exact Iff.rfl

theorem describes_removeBinary :
    Describes .undefined removeBinary binary (BadBinary data) data := by
  apply (describes_removeInt32 data).bind_of_safe
  intro front rest length hdata hlength
  apply (describes_removeByte rest).bind_of_safe
  intro front rest subtype hdata hsubtype
  apply describes_get
  apply (describes_take rest fun hlt => .inr hlt).congr
  · intro bytes tail value hrest
    constructor
    · rintro ⟨hgood, rfl, rfl⟩
      simp only [not_or, Int32.not_lt, Nat.not_lt] at hgood
      exact ⟨hgood.1, length_take_of_le hgood.2, rfl⟩
    · rintro ⟨hpos, hsize, rfl⟩
      have htake : rest.take length.toInt.toNat = value := by
        rw [hrest, ← hsize, take_left]
      have hle := length_take_le' length.toInt.toNat rest
      rw [htake] at hle ⊢
      refine ⟨?_, rfl, rfl⟩
      rintro (hneg | hlt)
      · exact Int32.not_lt.mpr hpos hneg
      · omega
  · exact Iff.rfl

variable {value : Value} {document : Format Document} {type : FieldType}

theorem valueFormat_iff : valueFormat document type bytes value ↔
      valueFormat never type bytes value ∨
        ∃ wrap fields, type.nested = some wrap ∧ document bytes fields ∧ value = wrap fields := by
  cases type <;> simp [valueFormat, FieldType.nested, Format.map, never]

variable {bad : Bytes → Prop}

theorem badValue_iff : badValue bad type data ↔
    badValue (fun _ => False) type data ∨ ∃ wrap, type.nested = some wrap ∧ bad data := by
  cases type <;> simp [badValue, FieldType.nested]

variable {data}

theorem describes_removeValue {create : BufferReader Document}
    (h : Describes .undefined create document (bad data) data) (type : FieldType) :
    Describes .undefined (removeValue create type)
      (valueFormat document type) (badValue bad type data) data := by
  cases type with
  | double => exact (describes_removeDouble data).map
  | string => exact (describes_removeString data).map
  | document | array => exact h.map
  | binary => exact (describes_removeBinary data).map
  | objectId => exact (describes_removeBytes data 12).map
  | boolean => exact (describes_removeByte data).map
  | datetime => exact (describes_removeInt64 data).map
  | nullValue => exact describes_pure Value.nullValue
  | regex =>
    apply (describes_removeCString data).bind
    intro front rest pattern _ _
    exact (describes_removeCString rest).map
  | int32 => exact (describes_removeInt32 data).map
  | timestamp | int64 => exact (describes_removeInt64 data).map

/-- The elements of a document that announces `total` bytes, of which so many are read, and its
last byte. -/
def fieldsUpTo (total consumed : Nat) : Format (List Field) := fun bytes fields =>
  consumed + bytes.length = total ∧
    ∃ elements, bytes = elements ++ [0] ∧ SpellsFields elements fields

def fieldsAfter (total consumed : Nat) (elementType : UInt8) (key : Bytes) : Format (List Field) :=
  fun bytes fields => ∃ type, FieldType.ofByte elementType = some type ∧
    ((valueFormat SpellsDocument type).seq fun value front =>
      (fieldsUpTo total (consumed + (elementType :: (key ++ 0 :: front)).length)).map
        (Field.mk key value :: ·)) bytes fields

def BadAfter (total consumed : Nat) (elementType : UInt8) (key data : Bytes) : Prop :=
  ∃ type, FieldType.ofByte elementType = some type ∧ (badValue BadDocument type data ∨
    After (valueFormat SpellsDocument type) (fun _ front rest =>
      BadFields total (consumed + (elementType :: (key ++ 0 :: front)).length) rest) data)

variable {fields : List Field} {elementType : UInt8} {key : Bytes}

theorem spellsFields_cons {rest : Bytes} (helement : IsElement elementType key type)
    (hvalue : valueFormat SpellsDocument type bytes value) (hfields : SpellsFields rest fields) :
    SpellsFields (elementType :: (key ++ 0 :: (bytes ++ rest))) (.mk key value :: fields) := by
  rcases valueFormat_iff.mp hvalue with hscalar | ⟨wrap, inner, hnested, hinner, rfl⟩
  · exact .scalar helement hscalar hfields
  · obtain ⟨length, elements, rfl, hlength, htotal, helements⟩ := hinner
    exact .nested helement hnested hlength htotal helements hfields

theorem SpellsFields.inv (h : SpellsFields bytes fields) :
    (bytes = [] ∧ fields = []) ∨ ∃ elementType key front rest type value tail,
      bytes = elementType :: (key ++ 0 :: (front ++ rest)) ∧ fields = .mk key value :: tail ∧
      IsElement elementType key type ∧ valueFormat SpellsDocument type front value ∧
      SpellsFields rest tail := by
  cases h with
  | nil => exact .inl ⟨rfl, rfl⟩
  | scalar helement hscalar hrest =>
    exact .inr ⟨_, _, _, _, _, _, _, rfl, rfl, helement, valueFormat_iff.mpr (.inl hscalar), hrest⟩
  | nested helement hnested hlength htotal helements hrest =>
    refine .inr ⟨_, _, _, _, _, _, _, rfl, rfl, helement, ?_, hrest⟩
    exact valueFormat_iff.mpr
      (.inr ⟨_, _, hnested, ⟨_, _, rfl, hlength, htotal, helements⟩, rfl⟩)

variable {total consumed : Nat}

theorem fieldsUpTo_iff (h : consumed + 1 ≠ total) :
    (byte.seq fun elementType _ => cString.seq fun key _ =>
      fieldsAfter total consumed elementType key) bytes fields ↔
      fieldsUpTo total consumed bytes fields := by
  constructor
  · rintro ⟨_, _, elementType, rfl, rfl, _, _, key, rfl, ⟨rfl, hkey, hfits⟩, type, htype, front, _,
      value, rfl, hvalue, tail, ⟨htotal, elements, rfl, helements⟩, rfl⟩
    refine ⟨?_, elementType :: (key ++ 0 :: (front ++ elements)), ?_,
      spellsFields_cons ⟨htype, hkey, hfits⟩ hvalue helements⟩
    · rw [← htotal]
      simp only [length_append, length_cons, length_nil]
      omega
    · simp
  · rintro ⟨htotal, elements, rfl, helements⟩
    rcases helements.inv with ⟨rfl, -⟩ | ⟨elementType, key, front, rest, type, value, tail, rfl,
      rfl, helement, hvalue, htail⟩
    · exact absurd htotal h
    · refine ⟨[elementType], _, elementType, rfl, rfl, key ++ [0], front ++ (rest ++ [0]), key, ?_,
        ⟨rfl, helement.noNul, helement.fits⟩, type, helement.type, front, rest ++ [0], value, rfl,
        hvalue, tail, ⟨?_, rest, rfl, htail⟩, rfl⟩
      · simp
      · rw [← htotal]
        simp only [length_append, length_cons, length_nil]
        omega

theorem badFields_iff (h : consumed + 1 ≠ total) :
    After byte (fun elementType _ data => BadCString data ∨ After cString (fun key _ =>
      BadAfter total consumed elementType key) data) data ↔ BadFields total consumed data := by
  constructor
  · rintro ⟨_, _, elementType, rfl, rfl, hkey |
      ⟨_, rest, key, rfl, ⟨rfl, hkey, hfits⟩, type, htype, hbad⟩⟩
    · exact .key h hkey
    have hdata : [elementType] ++ (key ++ [0] ++ rest) = elementType :: (key ++ 0 :: rest) := by
      simp
    rw [hdata]
    rcases hbad with hbad | ⟨front, rest, value, rfl, hvalue, hbad⟩
    · rcases (badValue_iff rest).mp hbad with hscalar | ⟨wrap, hnested, hinner⟩
      · exact .scalar h ⟨htype, hkey, hfits⟩ hscalar
      · obtain ⟨length, rest, rfl, hlength, htotal, hinner⟩ := hinner
        exact .nested h ⟨htype, hkey, hfits⟩ hnested hlength htotal hinner
    · exact .skip h ⟨htype, hkey, hfits⟩ hvalue hbad
  · intro hbad
    have hafter {elementType : UInt8} {key rest : Bytes} {type : FieldType}
        (helement : IsElement elementType key type)
        (hbad : BadAfter total consumed elementType key rest) :
        After byte (fun elementType _ data => BadCString data ∨ After cString (fun key _ =>
          BadAfter total consumed elementType key) data) (elementType :: (key ++ 0 :: rest)) :=
      ⟨[elementType], key ++ 0 :: rest, elementType, rfl, rfl, .inr ⟨key ++ [0], rest, key,
        by rw [append_assoc, singleton_append],
        ⟨rfl, helement.noNul, helement.fits⟩, hbad⟩⟩
    cases hbad with
    | key _ hkey => exact ⟨[_], _, _, rfl, rfl, .inl hkey⟩
    | scalar _ helement hscalar =>
      exact hafter helement ⟨_, helement.type, .inl ((badValue_iff _).mpr (.inl hscalar))⟩
    | nested _ helement hnested hlength htotal hinner =>
      exact hafter helement ⟨_, helement.type,
        .inl ((badValue_iff _).mpr (.inr ⟨_, hnested, _, _, rfl, hlength, htotal, hinner⟩))⟩
    | skip _ helement hvalue hrest =>
      exact hafter helement ⟨_, helement.type, .inr ⟨_, _, _, rfl, hvalue, hrest⟩⟩

variable {original : Nat} {messageLength : UInt64}

theorem bytesRemaining_eq_iff {length left : Nat} (hread : consumed + length = original)
    (horiginal : original < 2 ^ 64) (hleft : left ≤ length) :
    bytesRemaining length original messageLength = UInt64.ofNat left ↔
      consumed + left = messageLength.toNat := by
  have hlength := messageLength.toNat_lt
  rw [← UInt64.toNat_inj, bytesRemaining, UInt64.toNat_sub, UInt64.toNat_sub]
  simp only [UInt64.toNat_ofNat']
  omega

theorem describes_last (h : consumed + 1 = total) :
    Describes .undefined
      (do
        let last ← removeByte
        if last ≠ 0 then throw (exception "invalid document")
        return [] : BufferReader (List Field))
      (fieldsUpTo total consumed) (BadFields total consumed data) data := by
  have hlast (last : UInt8) (rest : Bytes) : Describes .undefined
      (do
        if last ≠ 0 then throw (exception "invalid document")
        return [] : BufferReader (List Field))
      (fun bytes fields => last = 0 ∧ nothing [] bytes fields) False rest := by
    have hne : exception "invalid document" ≠ .undefined := nofun
    apply (describes_guard hne fun _ => describes_pure []).congr
    · intro bytes tail fields _
      rw [not_not]
    · exact iff_of_eq (and_false _)
  apply ((describes_removeByte data).bind_of_safe fun _ rest last _ _ => hlast last rest).congr
  · intro bytes rest fields _
    constructor
    · rintro ⟨_, _, last, rfl, rfl, rfl, rfl, rfl⟩
      exact ⟨h, [], rfl, .nil⟩
    · rintro ⟨hlength, elements, rfl, helements⟩
      obtain rfl : elements = [] := by
        rw [← length_eq_zero_iff]
        rw [length_append, length_singleton] at hlength
        omega
      cases helements
      exact ⟨[0], [], 0, rfl, rfl, rfl, rfl, rfl⟩
  · constructor
    · rintro ⟨_, _, _, _, _, hbad⟩
      exact hbad.elim
    · intro hbad
      cases hbad <;> contradiction

/-- What the readers of documents and of elements do with this fuel. -/
structure DescribesWith (fuel : Nat) : Prop where
  document : ∀ data : Bytes, data.length < fuel → data.length < 2 ^ 64 →
    Describes .undefined (fromBuffer fuel) SpellsDocument (BadDocument data) data
  fields : ∀ (data : Bytes) (consumed original : Nat) (messageLength : UInt64),
    data.length < fuel → consumed + data.length = original → original < 2 ^ 64 →
    Describes .undefined (removeFields fuel original messageLength)
      (fieldsUpTo messageLength.toNat consumed) (BadFields messageLength.toNat consumed data) data

variable {fuel : Nat}

theorem DescribesWith.element (h : DescribesWith fuel) (hfuel : data.length < fuel)
    (hread : consumed + (elementType :: (key ++ 0 :: data)).length = original)
    (horiginal : original < 2 ^ 64) :
    Describes .undefined
      (match FieldType.ofByte elementType with
        | none =>
          throw (.exception (ascii "invalid BSON element type: " ++ hexText elementType.toNat ++
            ascii " key: " ++ key))
        | some type => do
          let value ← removeValue (fromBuffer fuel) type
          let fields ← removeFields fuel original messageLength
          return .mk key value :: fields : BufferReader (List Field))
      (fieldsAfter messageLength.toNat consumed elementType key)
      (BadAfter messageLength.toNat consumed elementType key data) data := by
  simp only [length_cons, length_append] at hread
  unfold fieldsAfter BadAfter
  cases htype : FieldType.ofByte elementType with
  | none =>
    apply describes_throw.congr
    · intro bytes rest fields _
      exact ⟨False.elim, nofun⟩
    · exact ⟨nofun, nofun⟩
  | some type =>
    have hdocument := h.document data hfuel (by omega)
    apply ((describes_removeValue hdocument type).bind fun front rest value hdata _ =>
      (h.fields rest (consumed + (elementType :: (key ++ 0 :: front)).length) original
        messageLength ?_ ?_ horiginal).map).congr
    · intro bytes rest fields _
      exact ⟨fun hspelled => ⟨type, rfl, hspelled⟩, fun ⟨_, rfl, hspelled⟩ => hspelled⟩
    · exact ⟨fun hbad => ⟨type, rfl, hbad⟩, fun ⟨_, rfl, hbad⟩ => hbad⟩
    · rw [hdata, length_append] at hfuel
      omega
    · rw [hdata, length_append] at hread
      simp only [length_cons, length_append]
      omega

theorem describes_fields_nil {r : BufferReader (List Field)} (what : Bytes)
    (h : r [] = .error (.exception what)) :
    Describes .undefined r (fieldsUpTo total consumed) (BadFields total consumed []) [] where
  reads := by
    rintro _ rest fields hdata ⟨-, elements, rfl, -⟩
    simp at hdata
  spelled := by
    intro fields rest hr
    rw [h] at hr
    cases hr
  fails := by
    rw [h]
    exact ⟨nofun, nofun⟩

theorem DescribesWith.fields_succ (h : DescribesWith fuel) (hfuel : data.length < fuel + 1)
    (hread : consumed + data.length = original) (horiginal : original < 2 ^ 64) :
    Describes .undefined (removeFields (fuel + 1) original messageLength)
      (fieldsUpTo messageLength.toNat consumed) (BadFields messageLength.toNat consumed data)
      data := by
  rw [removeFields]
  apply describes_get
  cases data with
  | nil =>
    apply describes_fields_nil (ascii "invalid buffer size")
    split <;> rfl
  | cons b data =>
    have hone : bytesRemaining (b :: data).length original messageLength = 1 ↔
        consumed + 1 = messageLength.toNat :=
      bytesRemaining_eq_iff hread horiginal (Nat.le_add_left 1 data.length)
    apply describes_ite
    · intro hlast
      exact describes_last (hone.mp hlast)
    · intro hlast
      have hne := mt hone.mpr hlast
      apply ((describes_removeByte (b :: data)).bind_of_safe
        fun front rest elementType hdata hbyte =>
          (describes_removeCString rest).bind fun front' rest' key hdata' hkey =>
            h.element ?_ ?_ horiginal).congr
      · intro bytes rest fields _
        exact fieldsUpTo_iff hne
      · exact badFields_iff hne
      · rw [hdata, hdata', length_append, length_append, hbyte] at hfuel
        simp only [length_singleton] at hfuel
        omega
      · rw [← hread, hdata, hdata', hbyte, hkey.1]
        simp

theorem DescribesWith.body (h : DescribesWith fuel) (data : Bytes) (length : Int32)
    (hfuel : data.length < fuel) (hread : 4 + data.length = original)
    (horiginal : original < 2 ^ 64) :
    Describes .undefined
      (do
        if original < length.toInt64.toUInt64.toNat then
          throw (exception "invalid BSON message length")
        removeFields fuel original length.toInt64.toUInt64 : BufferReader Document)
      (fun bytes fields =>
        announced length ≤ original ∧ fieldsUpTo (announced length) 4 bytes fields)
      (announced length ≤ original ∧ BadFields (announced length) 4 data) data := by
  have hfields := h.fields data 4 original length.toInt64.toUInt64 hfuel hread horiginal
  have hne : exception "invalid BSON message length" ≠ .undefined := nofun
  apply (describes_guard hne fun _ => hfields).congr
  · intro bytes rest fields _
    rw [Nat.not_lt]
    rfl
  · rw [Nat.not_lt]
    rfl

theorem DescribesWith.document_succ (h : DescribesWith fuel) (hfuel : data.length < fuel + 1)
    (hlength : data.length < 2 ^ 64) :
    Describes .undefined (fromBuffer (fuel + 1)) SpellsDocument (BadDocument data) data := by
  rw [fromBuffer]
  apply describes_get
  have hbody (front rest : Bytes) (length : Int32) (hdata : data = front ++ rest)
      (hfront : int32 front length) :=
    h.body rest length
      (by rw [hdata, length_append, hfront.1] at hfuel; omega)
      (by rw [hdata, length_append, hfront.1]) hlength
  apply ((describes_removeInt32 data).bind_of_safe hbody).congr
  · intro bytes rest fields hdata
    constructor
    · rintro ⟨length, _, _, rfl, ⟨hfour, rfl⟩, hle, htotal, elements, rfl, helements⟩
      refine ⟨length, elements, rfl, hfour, ?_, helements⟩
      rw [length_append, hfour]
      exact htotal.symm
    · rintro ⟨length, elements, rfl, hfour, htotal, helements⟩
      refine ⟨length, _, _, rfl, ⟨hfour, rfl⟩, ?_, ?_, elements, rfl, helements⟩
      · rw [htotal, hdata]
        exact (prefix_append _ rest).length_le
      · rw [htotal, ← hfour]
        exact length_append.symm
  · constructor
    · rintro ⟨length, rest, _, hdata, ⟨hfour, rfl⟩, hle, hbad⟩
      exact ⟨length, rest, hdata, hfour, hle, hbad⟩
    · rintro ⟨length, rest, hdata, hfour, hle, hbad⟩
      exact ⟨length, rest, _, hdata, ⟨hfour, rfl⟩, hle, hbad⟩

theorem describesWith (fuel : Nat) : DescribesWith fuel := by
  induction fuel with
  | zero => exact ⟨nofun, nofun⟩
  | succ fuel ih =>
    exact ⟨fun _ => ih.document_succ, fun _ _ _ _ => ih.fields_succ⟩

theorem describes_create (hlength : data.length < 2 ^ 64) :
    Describes .undefined create SpellsDocument (BadDocument data) data :=
  describes_get ((describesWith (data.length + 1)).document data (Nat.lt_succ_self _) hlength)

end Meliproxy.Envoy.Bson
