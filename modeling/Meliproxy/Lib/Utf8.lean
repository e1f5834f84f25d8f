import Meliproxy.Lib.Text
import Mathlib

/-!
# Lossy decoding of UTF-8

`decode` reads any bytes as a text, as `Buffer.toString` does: bytes that do not go on as
UTF-8 become a replacement character, one for each maximal beginning of a character.
`encode` writes a text. A byte below 128 is a character of its own wherever it stands, so
decoding commutes with cutting at such a byte.
-/

namespace Lib.Utf8

open List

/-- A character of which `needed` bytes are missing, the next of them between the bounds. -/
structure Pending where
  codePoint : Nat
  needed : Nat
  lower : Nat
  upper : Nat

def replacement : Char := Char.ofNat 0xFFFD

def first (b : Nat) : List Char × Option Pending :=
  if b < 0x80 then ([Char.ofNat b], none)
  else if 0xC2 ≤ b ∧ b < 0xE0 then ([], some ⟨b - 0xC0, 1, 0x80, 0xBF⟩)
  else if 0xE0 ≤ b ∧ b < 0xF0 then
    ([], some ⟨b - 0xE0, 2, if b = 0xE0 then 0xA0 else 0x80, if b = 0xED then 0x9F else 0xBF⟩)
  else if 0xF0 ≤ b ∧ b < 0xF5 then
    ([], some ⟨b - 0xF0, 3, if b = 0xF0 then 0x90 else 0x80, if b = 0xF4 then 0x8F else 0xBF⟩)
  else ([replacement], none)

def Pending.next (p : Pending) (b : Nat) : List Char × Option Pending :=
  if p.lower ≤ b ∧ b ≤ p.upper then
    if p.needed = 1 then ([Char.ofNat (p.codePoint * 64 + (b - 0x80))], none)
    else ([], some ⟨p.codePoint * 64 + (b - 0x80), p.needed - 1, 0x80, 0xBF⟩)
  else (replacement :: (first b).1, (first b).2)

def step : Option Pending → Nat → List Char × Option Pending
  | none, b => first b
  | some p, b => p.next b

def decodeFrom : Option Pending → Bytes → List Char
  | none, [] => []
  | some _, [] => [replacement]
  | pending, b :: bs => (step pending b.toNat).1 ++ decodeFrom (step pending b.toNat).2 bs

def decode (bs : Bytes) : List Char := decodeFrom none bs

def encode (s : List Char) : Bytes := s.flatMap String.utf8EncodeChar

/-- What holds of every pending character: its bytes are above 127, and so is its code point. -/
structure Pending.Wide (p : Pending) : Prop where
  lower : 0x80 ≤ p.lower
  needed : 1 ≤ p.needed ∧ p.needed ≤ 3
  codePoint : 128 ≤ (p.codePoint * 64 + (p.lower - 0x80)) * 64 ^ (p.needed - 1)

def Settled (pending : Option Pending) : Prop := ∀ p ∈ pending, p.Wide

theorem settled_none : Settled none := by
  intro p hp
  cases hp

theorem settled_some {p : Pending} (h : p.Wide) : Settled (some p) := by
  intro q hq
  rw [← Option.some.inj hq]
  exact h

theorem first_settled (b : Nat) : Settled (first b).2 := by
  unfold first
  split
  · exact settled_none
  split
  · rename_i h
    refine settled_some ?_
    exact ⟨Nat.le_refl _, by simp, by simp; omega⟩
  split
  · rename_i h
    refine settled_some ?_
    refine ⟨?_, by simp, ?_⟩ <;> dsimp only <;> split <;> omega
  split
  · rename_i h
    refine settled_some ?_
    refine ⟨?_, by simp, ?_⟩ <;> dsimp only <;> split <;> omega
  · exact settled_none

theorem Pending.Wide.next_settled {p : Pending} (hp : p.Wide) (b : Nat) : Settled (p.next b).2 := by
  obtain ⟨hlower, ⟨hmin, hmax⟩, hcode⟩ := hp
  unfold Pending.next
  split
  · rename_i hb
    split
    · exact settled_none
    · rename_i hne
      refine settled_some ?_
      refine ⟨Nat.le_refl _, by dsimp only; omega, ?_⟩
      obtain hneeded | hneeded : p.needed = 2 ∨ p.needed = 3 := by omega
      · simp only [hneeded] at hcode ⊢
        omega
      · simp only [hneeded] at hcode ⊢
        omega
  · exact first_settled b

variable {pending : Option Pending}

theorem step_settled (hp : Settled pending) (b : Nat) :
    Settled (step pending b).2 := by
  cases pending with
  | none => exact first_settled b
  | some p => exact (hp p rfl).next_settled b

theorem decodeFrom_cons (pending : Option Pending) (b : UInt8) (bs : Bytes) :
    decodeFrom pending (b :: bs) =
      (step pending b.toNat).1 ++ decodeFrom (step pending b.toNat).2 bs := by
  cases pending <;> rfl

variable {b : UInt8}

theorem step_ascii (hp : Settled pending) (hb : b < 0x80) :
    step pending b.toNat = (decodeFrom pending [] ++ [Char.ofNat b.toNat], none) := by
  have hlt : b.toNat < 128 := hb
  cases pending with
  | none => simp only [step, first, if_pos hlt, decodeFrom, nil_append]
  | some p =>
    have hout : ¬ (p.lower ≤ b.toNat ∧ b.toNat ≤ p.upper) := by
      have := (hp p rfl).lower
      omega
    simp only [step, Pending.next, if_neg hout, first, if_pos hlt, decodeFrom, cons_append,
      nil_append]

theorem decodeFrom_append_cons (hp : Settled pending) (xs : Bytes)
    (hb : b < 0x80) (ys : Bytes) : decodeFrom pending (xs ++ b :: ys) =
      decodeFrom pending xs ++ Char.ofNat b.toNat :: decode ys := by
  induction xs generalizing pending with
  | nil => rw [nil_append, decodeFrom_cons, step_ascii hp hb, append_assoc]; rfl
  | cons x xs ih =>
    rw [cons_append, decodeFrom_cons, decodeFrom_cons, ih (step_settled hp x.toNat),
      append_assoc]

theorem decode_append_cons (xs : Bytes) (hb : b < 0x80) (ys : Bytes) :
    decode (xs ++ b :: ys) = decode xs ++ Char.ofNat b.toNat :: decode ys :=
  decodeFrom_append_cons settled_none xs hb ys

theorem decode_cons (hb : b < 0x80) (bs : Bytes) :
    decode (b :: bs) = Char.ofNat b.toNat :: decode bs :=
  decode_append_cons [] hb bs

theorem toNat_ofNat_of_lt {n : Nat} (h : n < 0xD800) : (Char.ofNat n).toNat = n := by
  have hv : n.isValidChar := Or.inl h
  rw [Char.ofNat, dif_pos hv]
  rfl

theorem toNat_ofNat (n : Nat) : (Char.ofNat n).toNat = n ∨ (Char.ofNat n).toNat = 0 := by
  unfold Char.ofNat
  split
  · exact Or.inl rfl
  · exact Or.inr rfl

theorem mem_first {b : Nat} {c : Char} (hc : c ∈ (first b).1) (hlt : c.toNat < 128) :
    c.toNat = b := by
  have hrep : ∀ c ∈ [replacement], ¬ c.toNat < 128 := by
    intro c hc
    rw [mem_singleton.mp hc]
    decide
  unfold first at hc
  split at hc
  · rename_i hb
    rw [mem_singleton.mp hc, toNat_ofNat_of_lt (Nat.lt_trans hb (by decide))]
  split at hc
  · cases hc
  split at hc
  · cases hc
  split at hc
  · cases hc
  · exact absurd hlt (hrep c hc)

theorem Pending.Wide.mem_next {p : Pending} (hp : p.Wide) {b : Nat} {c : Char}
    (hc : c ∈ (p.next b).1) (hpos : 0 < c.toNat) (hlt : c.toNat < 128) : c.toNat = b := by
  obtain ⟨hlower, -, hcode⟩ := hp
  unfold Pending.next at hc
  split at hc
  · rename_i hb
    split at hc
    · rename_i hneeded
      rw [hneeded] at hcode
      have hc := mem_singleton.mp hc
      obtain h | h := toNat_ofNat (p.codePoint * 64 + (b - 0x80)) <;> rw [← hc] at h <;> omega
    · cases hc
  · rcases mem_cons.mp hc with rfl | hc
    · exact absurd hlt (by decide)
    · exact mem_first hc hlt

variable {bs : Bytes}

theorem mem_decodeFrom (hp : Settled pending) {c : Char}
    (hc : c ∈ decodeFrom pending bs) (hpos : 0 < c.toNat) (hlt : c.toNat < 128) :
    ∃ b ∈ bs, b.toNat = c.toNat := by
  induction bs generalizing pending with
  | nil =>
    cases pending with
    | none => cases hc
    | some p =>
      rw [mem_singleton.mp hc] at hlt
      exact absurd hlt (by decide)
  | cons b bs ih =>
    rw [decodeFrom_cons] at hc
    rcases mem_append.mp hc with hc | hc
    · refine ⟨b, mem_cons_self, ?_⟩
      cases pending with
      | none => exact (mem_first hc hlt).symm
      | some p => exact ((hp p rfl).mem_next hc hpos hlt).symm
    · obtain ⟨b', hb', h⟩ := ih (step_settled hp b.toNat) hc
      exact ⟨b', mem_cons_of_mem b hb', h⟩

theorem mem_of_mem_decode (hpos : 0 < b) (hlt : b < 0x80)
    (h : Char.ofNat b.toNat ∈ decode bs) : b ∈ bs := by
  have hlt : b.toNat < 128 := hlt
  have hpos : 0 < b.toNat := hpos
  have hb : (Char.ofNat b.toNat).toNat = b.toNat := toNat_ofNat_of_lt (Nat.lt_trans hlt (by decide))
  obtain ⟨b', hb', heq⟩ := mem_decodeFrom settled_none h (hb.symm ▸ hpos) (hb.symm ▸ hlt)
  rwa [UInt8.toNat_inj.mp (heq.trans hb)] at hb'

theorem mem_decode_iff (hpos : 0 < b) (hlt : b < 0x80) :
    Char.ofNat b.toNat ∈ decode bs ↔ b ∈ bs := by
  refine ⟨mem_of_mem_decode hpos hlt, fun h => ?_⟩
  obtain ⟨xs, ys, rfl⟩ := append_of_mem h
  rw [decode_append_cons xs hlt ys]
  exact mem_append_right _ mem_cons_self

theorem encode_cons (c : Char) (s : List Char) :
    encode (c :: s) = String.utf8EncodeChar c ++ encode s := flatMap_cons

theorem utf8EncodeChar_ascii (hb : b < 0x80) :
    String.utf8EncodeChar (Char.ofNat b.toNat) = [b] := by
  have hlt : b.toNat < 128 := hb
  have hval : (Char.ofNat b.toNat).val.toNat = b.toNat :=
    toNat_ofNat_of_lt (Nat.lt_trans hlt (by decide))
  simp only [String.utf8EncodeChar, hval, if_pos (Nat.le_of_lt_succ hlt), UInt8.ofNat_toNat]

theorem decodeFrom_ofNat (pending : Option Pending) {k : Nat} (hk : k < 256) (bs : Bytes) :
    decodeFrom pending (UInt8.ofNat k :: bs) =
      (step pending k).1 ++ decodeFrom (step pending k).2 bs := by
  have hto : (UInt8.ofNat k).toNat = k := UInt8.toNat_ofNat_of_lt hk
  rw [decodeFrom_cons, hto]

theorem decodeFrom_last {codePoint lower upper k : Nat} (hk : k < 64) (hlo : lower ≤ k + 0x80)
    (hup : k + 0x80 ≤ upper) (bs : Bytes) :
    decodeFrom (some ⟨codePoint, 1, lower, upper⟩) (UInt8.ofNat (k + 0x80) :: bs) =
      Char.ofNat (codePoint * 64 + k) :: decode bs := by
  rw [decodeFrom_ofNat _ (by omega), step, Pending.next, if_pos ⟨hlo, hup⟩, if_pos rfl,
    Nat.add_sub_cancel]
  rfl

theorem decodeFrom_next {codePoint needed lower upper k : Nat} (hk : k < 64) (hlo : lower ≤ k + 0x80)
    (hup : k + 0x80 ≤ upper) (bs : Bytes) :
    decodeFrom (some ⟨codePoint, needed + 2, lower, upper⟩) (UInt8.ofNat (k + 0x80) :: bs) =
      decodeFrom (some ⟨codePoint * 64 + k, needed + 1, 0x80, 0xBF⟩) bs := by
  rw [decodeFrom_ofNat _ (by omega), step, Pending.next, if_pos ⟨hlo, hup⟩,
    if_neg (show needed + 2 ≠ 1 by omega), Nat.add_sub_cancel]
  rfl

theorem decode_two {k : Nat} (hmin : 2 ≤ k) (hmax : k < 32) (bs : Bytes) :
    decode (UInt8.ofNat (k + 0xC0) :: bs) = decodeFrom (some ⟨k, 1, 0x80, 0xBF⟩) bs := by
  rw [decode, decodeFrom_ofNat _ (by omega), step, first, if_neg (by omega), if_pos (by omega),
    Nat.add_sub_cancel]
  rfl

theorem decode_three {k : Nat} (hmax : k < 16) (bs : Bytes) :
    decode (UInt8.ofNat (k + 0xE0) :: bs) = decodeFrom
      (some ⟨k, 2, if k = 0 then 0xA0 else 0x80, if k = 13 then 0x9F else 0xBF⟩) bs := by
  have hE0 : (k + 0xE0 = 0xE0) = (k = 0) := propext ⟨fun h => by omega, fun h => by omega⟩
  have hED : (k + 0xE0 = 0xED) = (k = 13) := propext ⟨fun h => by omega, fun h => by omega⟩
  rw [decode, decodeFrom_ofNat _ (by omega), step, first, if_neg (by omega), if_neg (by omega),
    if_pos (by omega), Nat.add_sub_cancel]
  simp only [hE0, hED, nil_append]

theorem decode_four {k : Nat} (hmax : k < 5) (bs : Bytes) :
    decode (UInt8.ofNat (k + 0xF0) :: bs) = decodeFrom
      (some ⟨k, 3, if k = 0 then 0x90 else 0x80, if k = 4 then 0x8F else 0xBF⟩) bs := by
  have hF0 : (k + 0xF0 = 0xF0) = (k = 0) := propext ⟨fun h => by omega, fun h => by omega⟩
  have hF4 : (k + 0xF0 = 0xF4) = (k = 4) := propext ⟨fun h => by omega, fun h => by omega⟩
  rw [decode, decodeFrom_ofNat _ (by omega), step, first, if_neg (by omega), if_neg (by omega),
    if_neg (by omega), if_pos (by omega), Nat.add_sub_cancel]
  simp only [hF0, hF4, nil_append]

theorem decode_encodeChar (c : Char) (bs : Bytes) :
    decode (String.utf8EncodeChar c ++ bs) = c :: decode bs := by
  have hc : Char.ofNat c.val.toNat = c := Char.ofNat_toNat c
  have hvalid : c.val.toNat < 0xD800 ∨ 0xDFFF < c.val.toNat ∧ c.val.toNat < 0x110000 := c.valid
  generalize hn : c.val.toNat = n at hc hvalid
  unfold String.utf8EncodeChar
  simp only [hn]
  split
  · rename_i h1
    rw [singleton_append, decode, decodeFrom_ofNat _ (by omega), step, first,
      if_pos (by omega), hc]
    rfl
  split
  · rename_i h1 h2
    have hpoint : n / 64 % 32 * 64 + n % 64 = n := by omega
    simp only [cons_append, nil_append]
    rw [decode_two (by omega) (by omega), decodeFrom_last (by omega) (by omega) (by omega), hpoint, hc]
  split
  · rename_i h1 h2 h3
    have hpoint : (n / 4096 % 16 * 64 + n / 64 % 64) * 64 + n % 64 = n := by omega
    simp only [cons_append, nil_append]
    rw [decode_three (by omega), decodeFrom_next (by omega) (by split <;> omega) (by split <;> omega),
      decodeFrom_last (by omega) (by omega) (by omega), hpoint, hc]
  · rename_i h1 h2 h3
    have hpoint : ((n / 262144 % 8 * 64 + n / 4096 % 64) * 64 + n / 64 % 64) * 64 + n % 64 = n := by
      omega
    simp only [cons_append, nil_append]
    rw [decode_four (by omega), decodeFrom_next (by omega) (by split <;> omega) (by split <;> omega),
      decodeFrom_next (by omega) (by omega) (by omega),
      decodeFrom_last (by omega) (by omega) (by omega), hpoint, hc]

theorem decode_encode_text (s : List Char) : decode (encode s) = s := by
  induction s with
  | nil => rfl
  | cons c s ih => rw [encode_cons, decode_encodeChar, ih]

theorem mem_encode {s : List Char} (hb : b < 0x80) :
    b ∈ encode s ↔ Char.ofNat b.toNat ∈ s := by
  constructor
  · intro h
    obtain ⟨xs, ys, hsplit⟩ := append_of_mem h
    rw [← decode_encode_text s, hsplit, decode_append_cons xs hb ys]
    exact mem_append_right _ mem_cons_self
  · intro h
    refine mem_flatMap.mpr ⟨_, h, ?_⟩
    rw [utf8EncodeChar_ascii hb]
    exact mem_singleton_self b

theorem encode_ascii (h : ∀ b ∈ bs, b < 0x80) :
    encode (bs.map fun b => Char.ofNat b.toNat) = bs := by
  induction bs with
  | nil => rfl
  | cons b bs ih =>
    rw [map_cons, encode_cons, utf8EncodeChar_ascii (h b mem_cons_self),
      ih fun b' hb' => h b' (mem_cons_of_mem b hb')]
    rfl

def Valid (bs : Bytes) : Prop := ∃ s, encode s = bs

theorem decode_ascii (h : ∀ b ∈ bs, b < 0x80) :
    decode bs = bs.map fun b => Char.ofNat b.toNat := by
  rw [← decode_encode_text (bs.map fun b => Char.ofNat b.toNat), encode_ascii h]

theorem valid_ascii (h : ∀ b ∈ bs, b < 0x80) : Valid bs := ⟨_, encode_ascii h⟩

theorem Valid.encode_decode (h : Valid bs) : encode (decode bs) = bs := by
  obtain ⟨s, rfl⟩ := h
  rw [decode_encode_text]

end Lib.Utf8
