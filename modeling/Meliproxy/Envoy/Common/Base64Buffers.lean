import Meliproxy.Envoy.Common.Base64

/-!
# Base64 over buffers, and bytes above 127

The encoder of `common/base64.cc` that walks over the slices of a buffer, and the indexes that the
decoder uses. `static_cast<uint32_t>` takes a negative `char` to the other end of the words.
-/

namespace Meliproxy.Envoy.Base64

open Lib List Option

def encodeSlice (length j : Nat) (nextC : UInt8) (ret : Bytes) : Bytes → Nat × UInt8 × Bytes
  | [] => (j, nextC, ret)
  | curChar :: slice =>
    if j < length then
      let (nextC, ret) := encodeBase curChar j nextC ret
      encodeSlice length (j + 1) nextC ret slice
    else (j, nextC, ret)

def encodeSlices (length j : Nat) (nextC : UInt8) (ret : Bytes) : List Bytes → Bytes
  | [] => encodeLast j nextC ret
  | slice :: slices =>
    let (j, nextC, ret) := encodeSlice length j nextC ret slice
    if j = length then encodeLast j nextC ret else encodeSlices length j nextC ret slices

def encodeBuffer (slices : List Bytes) (length : Nat) : Bytes := encodeSlices length 0 0 [] slices

theorem encodeLoop_slice {length j : Nat} (hj : j ≤ length) (nextC : UInt8)
    (ret slice rest : Bytes) : (encodeSlice length j nextC ret slice).1 ≤ length ∧
      encodeLoop j nextC ret ((slice ++ rest).take (length - j)) =
        encodeLoop (encodeSlice length j nextC ret slice).1
          (encodeSlice length j nextC ret slice).2.1 (encodeSlice length j nextC ret slice).2.2
          (rest.take (length - (encodeSlice length j nextC ret slice).1)) := by
  induction slice generalizing j nextC ret with
  | nil => exact ⟨hj, rfl⟩
  | cons curChar slice ih =>
    rw [encodeSlice]
    by_cases hlt : j < length
    · rw [if_pos hlt]
      have hleft : length - j = (length - (j + 1)) + 1 := by omega
      obtain ⟨hle, heq⟩ := ih hlt (encodeBase curChar j nextC ret).1
        (encodeBase curChar j nextC ret).2
      refine ⟨hle, ?_⟩
      rw [cons_append, hleft, take_succ_cons, encodeLoop]
      exact heq
    · rw [if_neg hlt]
      have hdone : length - j = 0 := by omega
      refine ⟨hj, ?_⟩
      rw [hdone, take_zero, take_zero]

theorem encodeSlices_eq {length j : Nat} (hj : j ≤ length) (nextC : UInt8) (ret : Bytes)
    (slices : List Bytes) : encodeSlices length j nextC ret slices =
      encodeLoop j nextC ret (slices.flatten.take (length - j)) := by
  induction slices generalizing j nextC ret with
  | nil => simp [encodeSlices, encodeLoop]
  | cons slice slices ih =>
    obtain ⟨hle, heq⟩ := encodeLoop_slice hj nextC ret slice slices.flatten
    rw [flatten_cons, heq, encodeSlices]
    dsimp only
    split
    · rename_i hdone
      rw [hdone, Nat.sub_self, take_zero, encodeLoop]
    · exact ih hle _ _

theorem encodeBuffer_eq (slices : List Bytes) (length : Nat) :
    encodeBuffer slices length = encode (slices.flatten.take length) :=
  encodeSlices_eq (Nat.zero_le length) 0 [] slices

def tableIndex (c : UInt8) : Nat := if c < 128 then c.toNat else 2 ^ 32 - 256 + c.toNat

theorem tableIndex_le_iff (c : UInt8) : tableIndex c ≤ 255 ↔ c < 128 := by
  have hc := c.toNat_lt
  rw [tableIndex]
  split
  · rename_i hsmall
    exact iff_of_true (by omega) hsmall
  · rename_i hlarge
    exact iff_of_false (by omega) hlarge

def loopIndexes : Bytes → List Nat
  | a :: b :: c :: d :: input =>
    tableIndex a :: tableIndex b ::
      match reverseLookup a, reverseLookup b with
      | some va, some vb =>
        if va = 64 ∨ vb = 64 then []
        else
          tableIndex c ::
            match reverseLookup c with
            | some vc =>
              if vc = 64 then []
              else
                tableIndex d ::
                  match reverseLookup d with
                  | some vd => if vd = 64 then [] else loopIndexes input
                  | none => []
            | none => []
      | _, _ => []
  | _ => []

def indexes (input : Bytes) : List Nat :=
  if input.length % 4 ≠ 0 ∨ input = [] then [] else loopIndexes input

/-- The first thing in the text that is no digit is a byte above 127. -/
inductive HighByteFirst : Bytes → Prop where
  | first {a b c d : UInt8} {rest : Bytes} (h : 128 ≤ a ∨ 128 ≤ b) :
      HighByteFirst (a :: b :: c :: d :: rest)
  | third {a b c d : UInt8} {rest : Bytes} (ha : a ∈ charTable) (hb : b ∈ charTable)
      (hc : 128 ≤ c) : HighByteFirst (a :: b :: c :: d :: rest)
  | fourth {a b c d : UInt8} {rest : Bytes} (ha : a ∈ charTable) (hb : b ∈ charTable)
      (hc : c ∈ charTable) (hd : 128 ≤ d) : HighByteFirst (a :: b :: c :: d :: rest)
  | later {a b c d : UInt8} {rest : Bytes} (ha : a ∈ charTable) (hb : b ∈ charTable)
      (hc : c ∈ charTable) (hd : d ∈ charTable) (h : HighByteFirst rest) :
      HighByteFirst (a :: b :: c :: d :: rest)

variable {c : UInt8}

theorem lookup_of_large (h : 128 ≤ c) : reverseLookup c = none :=
  if_neg (UInt8.not_lt.mpr h)

theorem large_of_lookup (h : reverseLookup c = none) : 128 ≤ c := by
  cases lookup_cases c with
  | outside hlarge _ => exact hlarge
  | invalid _ _ hl => cases h.symm.trans hl
  | digit v _ _ hl => cases h.symm.trans hl

theorem digit_lookup (h : c ∈ charTable) : ∃ v, v ≠ 64 ∧ reverseLookup c = some v := by
  obtain ⟨v, hv, rfl⟩ := exists_char_of_mem h
  exact ⟨v, ne_of_lt_64 hv, reverseLookup_char hv⟩

theorem digit_mem {c v : UInt8} (h : reverseLookup c = some v) (hne : v ≠ 64) : c ∈ charTable := by
  obtain ⟨hv, rfl⟩ := digit_of_lookup h hne
  exact char_mem hv

theorem decodeLoop_highByte {input : Bytes} (h : HighByteFirst input) (p k : Nat)
    (result : Bytes) : decodeLoop p k result input = none := by
  induction h generalizing k result with
  | @first a b c d rest h =>
    rw [decodeLoop]
    rcases h with ha | hb
    · rw [lookup_of_large ha]
      rfl
    · rw [lookup_of_large hb]
      cases reverseLookup a <;> rfl
  | @third a b c d rest ha hb hc =>
    obtain ⟨u, hu, hla⟩ := digit_lookup ha
    obtain ⟨v, hv, hlb⟩ := digit_lookup hb
    simp [decodeLoop, hla, hlb, hu, hv, lookup_of_large hc]
  | @fourth a b c d rest ha hb hc hd =>
    obtain ⟨u, hu, hla⟩ := digit_lookup ha
    obtain ⟨v, hv, hlb⟩ := digit_lookup hb
    obtain ⟨w, hw, hlc⟩ := digit_lookup hc
    simp [decodeLoop, hla, hlb, hlc, hu, hv, hw, lookup_of_large hd]
  | @later a b c d rest ha hb hc hd h ih =>
    obtain ⟨u, hu, hla⟩ := digit_lookup ha
    obtain ⟨v, hv, hlb⟩ := digit_lookup hb
    obtain ⟨w, hw, hlc⟩ := digit_lookup hc
    obtain ⟨x, hx, hld⟩ := digit_lookup hd
    simp [decodeLoop, hla, hlb, hlc, hld, hu, hv, hw, hx, ih]

theorem loopIndexes_highByte {input : Bytes} (h : HighByteFirst input) :
    ∃ index ∈ loopIndexes input, 255 < index := by
  have houtside {c : UInt8} (hc : 128 ≤ c) : 255 < tableIndex c :=
    Nat.not_le.mp ((not_congr (tableIndex_le_iff c)).mpr (UInt8.not_lt.mpr hc))
  induction h with
  | @first a b c d rest h =>
    rw [loopIndexes]
    rcases h with ha | hb
    · exact ⟨_, mem_cons_self, houtside ha⟩
    · exact ⟨_, mem_cons_of_mem _ mem_cons_self, houtside hb⟩
  | @third a b c d rest ha hb hc =>
    obtain ⟨u, hu, hla⟩ := digit_lookup ha
    obtain ⟨v, hv, hlb⟩ := digit_lookup hb
    refine ⟨_, ?_, houtside hc⟩
    simp [loopIndexes, hla, hlb, hu, hv]
  | @fourth a b c d rest ha hb hc hd =>
    obtain ⟨u, hu, hla⟩ := digit_lookup ha
    obtain ⟨v, hv, hlb⟩ := digit_lookup hb
    obtain ⟨w, hw, hlc⟩ := digit_lookup hc
    refine ⟨_, ?_, houtside hd⟩
    simp [loopIndexes, hla, hlb, hlc, hu, hv, hw]
  | @later a b c d rest ha hb hc hd h ih =>
    obtain ⟨u, hu, hla⟩ := digit_lookup ha
    obtain ⟨v, hv, hlb⟩ := digit_lookup hb
    obtain ⟨w, hw, hlc⟩ := digit_lookup hc
    obtain ⟨x, hx, hld⟩ := digit_lookup hd
    obtain ⟨index, hmem, hindex⟩ := ih
    refine ⟨index, ?_, hindex⟩
    simp [loopIndexes, hla, hlb, hlc, hld, hu, hv, hw, hx, hmem]

theorem highByteFirst_of_index {input : Bytes} {index : Nat} (hmem : index ∈ loopIndexes input)
    (hindex : 255 < index) : HighByteFirst input := by
  have hlarge {c : UInt8} (hc : index = tableIndex c) : 128 ≤ c := by
    apply UInt8.not_lt.mp
    rw [← tableIndex_le_iff, ← hc]
    exact Nat.not_le.mpr hindex
  match input with
  | [] | [_] | [_, _] | [_, _, _] => cases hmem
  | a :: b :: c :: d :: rest =>
    rw [loopIndexes, mem_cons, mem_cons] at hmem
    rcases hmem with ha | hb | hmem
    · exact .first (.inl (hlarge ha))
    · exact .first (.inr (hlarge hb))
    · split at hmem
      · rename_i u v hla hlb
        split at hmem
        · cases hmem
        · rename_i hdigits
          rw [not_or] at hdigits
          have ha := digit_mem hla hdigits.1
          have hb := digit_mem hlb hdigits.2
          rcases mem_cons.mp hmem with hc | hmem
          · exact .third ha hb (hlarge hc)
          · split at hmem
            · rename_i w hlc
              split at hmem
              · cases hmem
              · rename_i hw
                have hc := digit_mem hlc hw
                rcases mem_cons.mp hmem with hd | hmem
                · exact .fourth ha hb hc (hlarge hd)
                · split at hmem
                  · rename_i x hld
                    split at hmem
                    · cases hmem
                    · rename_i hx
                      exact .later ha hb hc (digit_mem hld hx) (highByteFirst_of_index hmem hindex)
                  · cases hmem
            · cases hmem
      · cases hmem

theorem highByteFirst_of_decodeLoop {p k : Nat} {result input : Bytes}
    (h : decodeLoop p k result input = none) : HighByteFirst input := by
  match input with
  | [] | [_] | [_, _] | [_, _, _] => cases h
  | a :: b :: c :: d :: rest =>
    rw [decodeLoop] at h
    cases hla : reverseLookup a with
    | none => exact .first (.inl (large_of_lookup hla))
    | some u =>
      cases hlb : reverseLookup b with
      | none => exact .first (.inr (large_of_lookup hlb))
      | some v =>
        rw [hla, hlb, bind_eq_bind, bind_some, bind_some] at h
        split at h
        · cases h
        · rename_i hdigits
          rw [not_or] at hdigits
          have ha := digit_mem hla hdigits.1
          have hb := digit_mem hlb hdigits.2
          cases hlc : reverseLookup c with
          | none => exact .third ha hb (large_of_lookup hlc)
          | some w =>
            rw [hlc, bind_some] at h
            split at h
            · split at h
              · cases h
              · split at h <;> cases h
            · rename_i hw
              have hc := digit_mem hlc hw
              cases hld : reverseLookup d with
              | none => exact .fourth ha hb hc (large_of_lookup hld)
              | some x =>
                rw [hld, bind_some] at h
                split at h
                · split at h
                  · cases h
                  · split at h <;> cases h
                · rename_i hx
                  exact .later ha hb hc (digit_mem hld hx) (highByteFirst_of_decodeLoop h)

variable (input : Bytes)

/-- The text that the decoder starts to read has a byte above 127 first of all that is no digit. -/
def ReadsBeyond : Prop := 4 ∣ input.length ∧ HighByteFirst input

theorem decode_eq_none_iff : decode input = none ↔ ReadsBeyond input := by
  rw [decode, ReadsBeyond, Nat.dvd_iff_mod_eq_zero]
  constructor
  · intro h
    split at h
    · cases h
    · rename_i hread
      rw [not_or, not_not] at hread
      exact ⟨hread.1, highByteFirst_of_decodeLoop h⟩
  · rintro ⟨hlength, hhigh⟩
    have hne : input ≠ [] := by
      rintro rfl
      cases hhigh
    rw [if_neg (by simp [hlength, hne])]
    exact decodeLoop_highByte hhigh _ _ _

theorem indexes_le_iff :
    (∀ index ∈ indexes input, index ≤ 255) ↔ ¬ ReadsBeyond input := by
  rw [indexes, ReadsBeyond, Nat.dvd_iff_mod_eq_zero]
  by_cases hlength : input.length % 4 = 0
  · by_cases hne : input = []
    · subst hne
      simpa using (nofun : ¬ HighByteFirst [])
    · rw [if_neg (by simp [hlength, hne])]
      constructor
      · rintro h ⟨-, hhigh⟩
        obtain ⟨index, hmem, hindex⟩ := loopIndexes_highByte hhigh
        exact absurd (h index hmem) (Nat.not_le.mpr hindex)
      · intro h index hmem
        apply Nat.le_of_not_lt
        intro hindex
        exact h ⟨hlength, highByteFirst_of_index hmem hindex⟩
  · rw [if_pos (.inl hlength)]
    simp [hlength]

theorem char_lt (h : c ∈ charTable) : c < 128 := by
  obtain ⟨v, hv, rfl⟩ := exists_char_of_mem h
  exact small_of_lookup (reverseLookup_char hv)

theorem encode_lt {bytes : Bytes} (h : c ∈ encode bytes) : c < 128 := by
  have hpad : (61 : UInt8) < 128 := by decide
  rw [encode_eq] at h
  induction bytes using base64.induct with
  | case1 => cases h
  | case2 a =>
    simp only [base64, mem_cons, not_mem_nil, or_false] at h
    rcases h with rfl | rfl | rfl | rfl
    · exact char_lt (char_mem (sextet₁_lt a))
    · exact char_lt (char_mem (sextet₂_lt a 0))
    · exact hpad
    · exact hpad
  | case3 a b =>
    simp only [base64, mem_cons, not_mem_nil, or_false] at h
    rcases h with rfl | rfl | rfl | rfl
    · exact char_lt (char_mem (sextet₁_lt a))
    · exact char_lt (char_mem (sextet₂_lt a b))
    · exact char_lt (char_mem (sextet₃_lt b 0))
    · exact hpad
  | case4 a b c' rest ih =>
    simp only [base64, mem_cons] at h
    rcases h with rfl | rfl | rfl | rfl | h
    · exact char_lt (char_mem (sextet₁_lt a))
    · exact char_lt (char_mem (sextet₂_lt a b))
    · exact char_lt (char_mem (sextet₃_lt b c'))
    · exact char_lt (char_mem (sextet₄_lt c'))
    · exact ih h

/-- A text is decoded to what it is the encoding of, and rejected if it is none. -/
structure Inverse : Prop where
  accepted : ∀ out, decode input = some out → out ≠ [] → encode out = input
  rejected : (∀ bytes, encode bytes ≠ input) → decode input = some []

theorem inverse_iff : Inverse input ↔ ¬ ReadsBeyond input := by
  rw [← decode_eq_none_iff]
  constructor
  · intro h hnone
    have hnot (bytes : Bytes) : encode bytes ≠ input := by
      rintro rfl
      rw [decode_encoded] at hnone
      cases hnone
    rw [h.rejected hnot] at hnone
    cases hnone
  · intro h
    obtain ⟨out, hout⟩ := ne_none_iff_exists'.mp h
    refine ⟨fun out hout hne => (encode_of_decode hout hne).symm, fun hnot => ?_⟩
    by_cases hempty : out = []
    · rw [hout, hempty]
    · exact absurd (encode_of_decode hout hempty).symm (hnot out)

/-- Encoding and decoding are inverse, in one piece or from the slices of a buffer, for the texts
that are read within the table. -/
theorem base64_inverse (bytes : Bytes) (slices : List Bytes) (length : Nat) (input : Bytes) :
    decode (encode bytes) = some bytes ∧
      encodeBuffer slices length = encode (slices.flatten.take length) ∧
      (Inverse input ↔ ¬ ReadsBeyond input) :=
  ⟨decode_encoded bytes, encodeBuffer_eq slices length, inverse_iff input⟩

/-- A text that begins with a byte above 127 is not rejected. -/
theorem not_inverse_highByte : ¬ Inverse [128, 65, 65, 65] :=
  fun h => (inverse_iff _).mp h ⟨by decide, .first (.inl (by decide))⟩

/-- The table is indexed within its bounds, and a text with a byte above 127 is rejected. -/
structure IndexesSafely (input : Bytes) : Prop where
  bounded : ∀ index ∈ indexes input, index ≤ 255
  rejected : (∃ c ∈ input, 128 ≤ c) → decode input = some []

theorem indexesSafely_iff (input : Bytes) : IndexesSafely input ↔ ¬ ReadsBeyond input := by
  constructor
  · intro h
    exact (indexes_le_iff input).mp h.bounded
  · intro h
    refine ⟨(indexes_le_iff input).mpr h, ?_⟩
    rintro ⟨c, hmem, hlarge⟩
    apply ((inverse_iff input).mpr h).rejected
    rintro bytes rfl
    exact absurd (encode_lt hmem) (UInt8.not_lt.mpr hlarge)

theorem not_indexesSafely_highByte : ¬ IndexesSafely [65, 65, 65, 255] := by
  intro h
  exact absurd (h.bounded (tableIndex 255) (by decide +kernel)) (by decide)

end Meliproxy.Envoy.Base64
