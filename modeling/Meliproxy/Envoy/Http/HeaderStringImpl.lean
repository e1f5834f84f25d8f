import Meliproxy.Envoy.Http.HeaderMapOps
import Meliproxy.Envoy.Redis.Codec
import Meliproxy.Lib.Block
import Meliproxy.Lib.Runs

/-!
# Header strings in memory

`HeaderString` of `header_map_impl.cc` as it lies in memory: its text is in the inline buffer, in
a block of the heap, or a string of someone else's, and its sizes are 32 bit numbers. `Refines`
compares it with the strings of the header map. Each operation keeps that, as long as it is
`Regular`: no size wraps, and a string of the heap is not cleared unless it begins with a NUL.
-/

namespace Meliproxy.Envoy.Http

open Lib List Option Block

/-- The operations on a header string. The caller of `buffer` writes over the text. -/
inductive StringOp where
  | append (data : Bytes) (size : data.length < 4294967296)
  | clear
  | setCopy (data : Bytes) (size : data.length < 4294967296)
  | setInteger (value : UInt64)
  | setReference (refValue : Bytes)
  | buffer (offset : Nat) (data : Bytes)

namespace HeaderString

variable (s : HeaderString)

/-- What a move leaves behind: a reference, or an empty inline string. -/
def moved : HeaderString := if s.type = .reference then s else new

def overwrite (offset : Nat) (data : Bytes) : HeaderString :=
  ⟨s.type, s.bytes.take offset ++ data ++ s.bytes.drop (offset + data.length)⟩

def apply : StringOp → HeaderString
  | .append data _ => s.append data
  | .clear => s.clear
  | .setCopy data _ => s.setCopy data
  | .setInteger value => s.setInteger value
  | .setReference refValue => .setReference refValue
  | .buffer offset data => s.overwrite offset data

end HeaderString

def uint32 (n : Nat) : Nat := n % 4294967296

theorem uint32_of_lt {n : Nat} (h : n < 4294967296) : uint32 n = n := Nat.mod_eq_of_lt h

/-- What `buffer_` points at. The capacity of a block of the heap is `dynamic_capacity_`. -/
inductive StringBuffer where
  | inline (inlineBuffer : Block)
  | reference (ref : Bytes)
  | dynamic (dynamic : Block)

namespace StringBuffer

def type : StringBuffer → Storage
  | .inline _ => .inline
  | .reference _ => .reference
  | .dynamic _ => .dynamic

def block : StringBuffer → Option Block
  | .inline b => some b
  | .reference _ => none
  | .dynamic b => some b

def cStr : StringBuffer → Nat → Bytes
  | .inline b, n => b.read 0 n
  | .reference ref, n => (ref ++ [0]).take n
  | .dynamic b, n => b.read 0 n

end StringBuffer

/-- `wrapped` notes that a size that was computed did not fit into 32 bits. -/
structure HeaderStringImpl where
  buffer : StringBuffer
  stringLength : Nat
  wrapped : Bool

namespace HeaderStringImpl

open HeaderString (inlineCapacity)

variable (s : HeaderStringImpl)

def computes (size : Nat) : HeaderStringImpl :=
  { s with wrapped := s.wrapped || decide (4294967296 ≤ size) }

/-- The constructor. `fresh` is what happens to be in memory that is not written yet. -/
def create (fresh : Nat → UInt8) : HeaderStringImpl where
  buffer := .inline ((Block.malloc fresh inlineCapacity).memcpy 0 [0])
  stringLength := 0
  wrapped := false

def ofReference (refValue : Bytes) (wrapped : Bool) : HeaderStringImpl :=
  HeaderStringImpl.computes ⟨.reference refValue, uint32 refValue.length, wrapped⟩ refValue.length

def setReference (refValue : Bytes) : HeaderStringImpl :=
  ofReference refValue s.wrapped

variable (store : Block → StringBuffer)

def appendTo (b : Block) (data : Bytes) : HeaderStringImpl :=
  let stringLength := uint32 (s.stringLength + data.length)
  HeaderStringImpl.computes
    ⟨store ((b.memcpy s.stringLength data).memcpy stringLength [0]), stringLength, s.wrapped⟩
    (s.stringLength + data.length)

/-- The inline case. The capacity of the heap block is a 64 bit number, of which `RELEASE_ASSERT`
demands that it fits into 32 bits. -/
def appendInline (b : Block) (data : Bytes) (fresh : Nat → UInt8) : Option HeaderStringImpl :=
  let s := s.computes (data.length + 1 + s.stringLength)
  if uint32 (data.length + 1 + s.stringLength) ≤ inlineCapacity then
    some (s.appendTo .inline b data)
  else
    let newCapacity := (s.stringLength + data.length) * 2
    if newCapacity ≤ 4294967295 then
      let dynamic := (Block.malloc fresh newCapacity).memcpy 0 (b.read 0 s.stringLength)
      some (s.appendTo .dynamic dynamic data)
    else none

def appendDynamic (b : Block) (data : Bytes) (fresh : Nat → UInt8) : HeaderStringImpl :=
  let s := s.computes (data.length + 1 + s.stringLength)
  if b.capacity < uint32 (data.length + 1 + s.stringLength) then
    let dynamicCapacity := uint32 ((s.stringLength + data.length) * 2)
    let s := s.computes ((s.stringLength + data.length) * 2)
    s.appendTo .dynamic (b.realloc fresh dynamicCapacity) data
  else s.appendTo .dynamic b data

def append (data : Bytes) (fresh : Nat → UInt8) : Option HeaderStringImpl :=
  match s.buffer with
  | .reference _ =>
    HeaderStringImpl.appendInline { s with stringLength := 0 } (.malloc fresh inlineCapacity) data
      fresh
  | .inline b => s.appendInline b data fresh
  | .dynamic b => some (s.appendDynamic b data fresh)

def clear : HeaderStringImpl :=
  match s.buffer with
  | .reference _ => s
  | .inline b => { s with buffer := .inline (b.memcpy 0 [0]), stringLength := 0 }
  | .dynamic _ => { s with stringLength := 0 }

def copyTo (b : Block) (data : Bytes) : HeaderStringImpl :=
  { s with buffer := store ((b.memcpy 0 data).memcpy data.length [0]), stringLength := data.length }

def setCopyInline (b : Block) (data : Bytes) (fresh : Nat → UInt8) : HeaderStringImpl :=
  let s := s.computes (data.length + 1)
  if uint32 (data.length + 1) ≤ inlineCapacity then s.copyTo .inline b data
  else
    let dynamicCapacity := uint32 (data.length * 2)
    (s.computes (data.length * 2)).copyTo .dynamic (.malloc fresh dynamicCapacity) data

def setCopyDynamic (b : Block) (data : Bytes) (fresh : Nat → UInt8) : HeaderStringImpl :=
  let s := s.computes (data.length + 1)
  if b.capacity < uint32 (data.length + 1) then
    let dynamicCapacity := uint32 (data.length * 2)
    (s.computes (data.length * 2)).copyTo .dynamic (.malloc fresh dynamicCapacity) data
  else s.copyTo .dynamic b data

def setCopy (data : Bytes) (fresh : Nat → UInt8) : HeaderStringImpl :=
  match s.buffer with
  | .reference _ => s.setCopyInline (.malloc fresh inlineCapacity) data fresh
  | .inline b => s.setCopyInline b data fresh
  | .dynamic b => s.setCopyDynamic b data fresh

/-- The call of `itoa`, which ends the text with a NUL byte. -/
def itoaTo (b : Block) (value : UInt64) : HeaderStringImpl :=
  { s with
    buffer := store (b.memcpy 0 (Redis.itoa value ++ [0]))
    stringLength := (Redis.itoa value).length }

def setInteger (value : UInt64) (fresh : Nat → UInt8) : HeaderStringImpl :=
  match s.buffer with
  | .reference _ => s.itoaTo .inline (.malloc fresh inlineCapacity) value
  | .inline b => s.itoaTo .inline b value
  | .dynamic b => s.itoaTo .dynamic b value

/-- The caller of `buffer()` writes over the text. A reference has no buffer of its own. -/
def overwrite (offset : Nat) (data : Bytes) : Option HeaderStringImpl :=
  if offset + data.length ≤ s.stringLength then
    match s.buffer with
    | .reference _ => none
    | .inline b => some { s with buffer := .inline (b.memcpy offset data) }
    | .dynamic b => some { s with buffer := .dynamic (b.memcpy offset data) }
  else none

/-- The move constructor: the new string, and what becomes of the old one. -/
def moveConstruct (fresh : Nat → UInt8) : HeaderStringImpl × HeaderStringImpl :=
  match s.buffer with
  | .reference _ => (s, s)
  | .dynamic _ =>
    (s, HeaderStringImpl.clear { s with buffer := .inline (.malloc fresh inlineCapacity) })
  | .inline b =>
    let size := uint32 (s.stringLength + 1)
    let inlineBuffer := (Block.malloc fresh inlineCapacity).memcpy 0 (b.read 0 size)
    (HeaderStringImpl.computes { s with buffer := .inline inlineBuffer } (s.stringLength + 1),
      { s with buffer := .inline (b.memcpy 0 [0]), stringLength := 0 })

def apply (fresh : Nat → UInt8) : StringOp → Option HeaderStringImpl
  | .append data _ => s.append data fresh
  | .clear => some s.clear
  | .setCopy data _ => some (s.setCopy data fresh)
  | .setInteger value => some (s.setInteger value fresh)
  | .setReference refValue => some (s.setReference refValue)
  | .buffer offset data => s.overwrite offset data

end HeaderStringImpl

/-!
## What header strings stand for

A block `Holds` a text if the text is at its beginning, with a NUL byte behind it and all of that
inside of the block. A string of the source refines one of the header map if its block holds the
text, or if it refers to the text. The operations keep that while they are `Regular`, and so do
runs in which strings are created and moved as well.
-/

open HeaderString (inlineCapacity)

/-- The text is at the beginning of the block, which is large enough for `itoa` and not larger
than a `uint32_t` can tell. -/
structure Begins (b : Block) (text : Bytes) : Prop where
  content : b.read 0 text.length = text
  inside : b.overrun = false
  room : inlineCapacity ≤ b.capacity
  bound : b.capacity < 4294967296

structure Holds (b : Block) (text : Bytes) : Prop extends Begins b text where
  nul : b.read text.length 1 = [0]
  below : text.length < b.capacity

variable {b : Block} {text data : Bytes} {fresh : Nat → UInt8} {capacity offset : Nat}

theorem begins_malloc (hroom : inlineCapacity ≤ capacity) (hbound : capacity < 4294967296) :
    Begins (.malloc fresh capacity) [] := ⟨rfl, rfl, hroom, hbound⟩

section

variable (h : Begins b text)
include h

theorem Begins.nil : Begins b [] := ⟨rfl, h.inside, h.room, h.bound⟩

theorem Begins.memcpy (hfits : data.length ≤ b.capacity) : Begins (b.memcpy 0 data) data where
  content := read_memcpy
  inside := overrun_memcpy_iff.mpr ⟨h.inside, by rwa [Nat.zero_add]⟩
  room := h.room
  bound := h.bound

theorem Begins.append (hfits : text.length + data.length < b.capacity) :
    Holds ((b.memcpy text.length data).memcpy (text.length + data.length) [0]) (text ++ data) where
  content := by
    rw [length_append, read_memcpy_of_le (Nat.le_of_eq (Nat.zero_add _)),
      read_memcpy_append (Nat.zero_add _).symm, h.content]
  inside := by
    apply overrun_memcpy_iff.mpr
    refine ⟨overrun_memcpy_iff.mpr ⟨h.inside, Nat.le_of_lt hfits⟩, ?_⟩
    exact hfits
  room := h.room
  bound := h.bound
  nul := by
    rw [length_append]
    exact read_memcpy
  below := by
    rw [length_append]
    exact hfits

theorem Begins.copy (hfits : data.length < b.capacity) :
    Holds ((b.memcpy 0 data).memcpy data.length [0]) data := by
  have happend : Holds _ ([] ++ data) := h.nil.append (by rwa [length_nil, Nat.zero_add])
  rwa [length_nil, Nat.zero_add, nil_append] at happend

theorem Begins.write (hfits : data.length < b.capacity) :
    Holds (b.memcpy 0 (data ++ [0])) data := by
  have hread : (b.memcpy 0 (data ++ [0])).read 0 (data.length + 1) = data ++ [0] := by
    have hall : (b.memcpy 0 (data ++ [0])).read 0 (data ++ [0]).length = data ++ [0] :=
      read_memcpy
    rwa [length_append] at hall
  rw [read_add] at hread
  obtain ⟨hcontent, hnul⟩ := append_inj hread length_read
  rw [Nat.zero_add] at hnul
  refine ⟨⟨hcontent, overrun_memcpy_iff.mpr ⟨h.inside, ?_⟩, h.room, h.bound⟩, hnul, hfits⟩
  rw [length_append, length_singleton]
  omega

theorem Begins.itoa (value : UInt64) :
    Holds (b.memcpy 0 (decimal value.toNat ++ [0])) (decimal value.toNat) := by
  have hlen := Redis.length_itoa_le value
  have hroom := h.room
  rw [inlineCapacity] at hroom
  rw [← Redis.reverse_itoaLoop]
  exact h.write (show (Redis.itoa value).length < b.capacity by omega)

theorem Begins.clear : Holds (b.memcpy 0 [0]) [] := by
  have hpos : 0 < inlineCapacity := by decide
  have hwrite : Holds (b.memcpy 0 ([] ++ [0])) [] := h.write (Nat.lt_of_lt_of_le hpos h.room)
  exact hwrite

theorem Begins.realloc (hlen : text.length ≤ b.capacity)
    (hlen' : text.length ≤ capacity) (hroom : inlineCapacity ≤ capacity)
    (hbound : capacity < 4294967296) : Begins (b.realloc fresh capacity) text where
  content := by
    rw [read_realloc (by omega) (by omega), h.content]
  inside := h.inside
  room := hroom
  bound := hbound

end

theorem Holds.text_nul (h : Holds b text) : b.read 0 (text.length + 1) = text ++ [0] := by
  rw [read_add, h.content, Nat.zero_add, h.nul]

theorem length_overwrite (hfits : offset + data.length ≤ text.length) :
    (text.take offset ++ data ++ text.drop (offset + data.length)).length = text.length := by
  rw [length_append, length_append, length_take, length_drop]
  omega

theorem Holds.overwrite (h : Holds b text) (hfits : offset + data.length ≤ text.length) :
    Holds (b.memcpy offset data)
      (text.take offset ++ data ++ text.drop (offset + data.length)) := by
  have hbelow := h.below
  have hlen := length_overwrite hfits
  obtain ⟨rest, hrest⟩ : ∃ rest, text.length = offset + data.length + rest :=
    ⟨text.length - (offset + data.length), by omega⟩
  have hparts : b.read 0 offset ++ b.read offset data.length ++ b.read (offset + data.length) rest =
      text := by
    have htext := h.content
    rw [hrest, read_add, read_add, Nat.zero_add, Nat.zero_add] at htext
    exact htext
  have htake : text.take offset = b.read 0 offset := by
    rw [← hparts, append_assoc, take_left' length_read]
  have hdrop : text.drop (offset + data.length) = b.read (offset + data.length) rest := by
    rw [← hparts, drop_left']
    rw [length_append, length_read, length_read]
  refine ⟨⟨?_, ?_, h.room, h.bound⟩, ?_, ?_⟩
  · rw [hlen, hrest, read_add, read_add, Nat.zero_add, Nat.zero_add,
      read_memcpy_of_le (by omega), read_memcpy,
      read_memcpy_of_ge (Nat.le_refl _), htake, hdrop]
  · exact overrun_memcpy_iff.mpr ⟨h.inside, by omega⟩
  · rw [hlen, read_memcpy_of_ge hfits, h.nul]
  · rw [hlen]
    exact hbelow

/-- `size()` is the length of the text, which is at `c_str()` with a NUL byte behind it, below the
capacity of a block that nothing was written behind, and no size has wrapped. -/
structure HeaderStringImpl.Refines (s : HeaderStringImpl) (a : HeaderString) : Prop where
  type : s.buffer.type = a.type
  size : s.stringLength = a.bytes.length
  content : s.buffer.cStr (s.stringLength + 1) = a.bytes ++ [0]
  owned : ∀ b, s.buffer.block = some b → Holds b a.bytes
  sizeofInline : ∀ b, s.buffer = .inline b → b.capacity = inlineCapacity
  unwrapped : s.wrapped = false

/-- No size of the operation wraps. A string of the heap that is cleared begins with a NUL. -/
def HeaderStringImpl.Regular (s : HeaderStringImpl) (op : StringOp) : Prop :=
  match op, s.buffer with
  | .append data _, .reference _ => data.length + 1 < 4294967296
  | .append data _, .inline _ => data.length + 1 + s.stringLength < 4294967296
  | .append data _, .dynamic b =>
    data.length + 1 + s.stringLength ≤ b.capacity ∨ (s.stringLength + data.length) * 2 < 4294967296
  | .clear, .dynamic b => b.byte 0 = 0
  | .setCopy data _, .dynamic b => data.length + 1 ≤ b.capacity ∨ data.length * 2 < 4294967296
  | .setCopy data _, _ => data.length + 1 ≤ inlineCapacity ∨ data.length * 2 < 4294967296
  | .setReference refValue, _ => refValue.length < 4294967296
  | _, _ => True

theorem Holds.refines_inline (h : Holds b text) (hsizeof : b.capacity = inlineCapacity) :
    HeaderStringImpl.Refines ⟨.inline b, text.length, false⟩ ⟨.inline, text⟩ where
  type := rfl
  size := rfl
  content := h.text_nul
  owned := by
    rintro _ ⟨⟩
    exact h
  sizeofInline := by
    rintro _ ⟨⟩
    exact hsizeof
  unwrapped := rfl

theorem Holds.refines_dynamic (h : Holds b text) :
    HeaderStringImpl.Refines ⟨.dynamic b, text.length, false⟩ ⟨.dynamic, text⟩ where
  type := rfl
  size := rfl
  content := h.text_nul
  owned := by
    rintro _ ⟨⟩
    exact h
  sizeofInline := by
    rintro _ ⟨⟩
  unwrapped := rfl

namespace HeaderStringImpl

variable {s s' : HeaderStringImpl} {a : HeaderString} {n : Nat}

theorem computes_of_lt (h : n < 4294967296) : s.computes n = s := by
  rw [computes, decide_eq_false (Nat.not_le.mpr h), Bool.or_false]

theorem Refines.cases (h : s.Refines a) :
    (∃ b text, s = ⟨.inline b, text.length, false⟩ ∧ a = ⟨.inline, text⟩ ∧ Holds b text ∧
        b.capacity = inlineCapacity) ∨
      (∃ ref, s.buffer = .reference ref ∧ s.wrapped = false ∧ a.type = .reference) ∨
      ∃ b text, s = ⟨.dynamic b, text.length, false⟩ ∧ a = ⟨.dynamic, text⟩ ∧ Holds b text := by
  obtain ⟨buffer, stringLength, wrapped⟩ := s
  obtain ⟨type, text⟩ := a
  obtain ⟨htype, rfl, -, howned, hsizeof, rfl⟩ := h
  obtain rfl : buffer.type = type := htype
  cases buffer with
  | inline b => exact .inl ⟨b, text, rfl, rfl, howned b rfl, hsizeof b rfl⟩
  | reference ref => exact .inr (.inl ⟨ref, rfl, rfl, rfl⟩)
  | dynamic b => exact .inr (.inr ⟨b, text, rfl, rfl, howned b rfl⟩)

theorem refines_create : (create fresh).Refines .new :=
  (begins_malloc (Nat.le_refl _) (by decide)).clear.refines_inline rfl

theorem refines_ofReference (h : text.length < 4294967296) :
    (ofReference text false).Refines (.setReference text) := by
  rw [ofReference, computes_of_lt h, uint32_of_lt h]
  refine ⟨rfl, rfl, ?_, ?_, ?_, rfl⟩
  · apply take_of_length_le
    rw [length_append, length_singleton]
  · rintro _ ⟨⟩
  · rintro _ ⟨⟩

variable {buffer : StringBuffer}

theorem computes_mk (h : n < 4294967296) {len : Nat} :
    computes ⟨buffer, len, false⟩ n = ⟨buffer, len, false⟩ := computes_of_lt h

theorem appendTo_eq {store : Block → StringBuffer} (h : n + data.length < 4294967296) :
    appendTo ⟨buffer, n, false⟩ store b data =
      ⟨store ((b.memcpy n data).memcpy (n + data.length) [0]), n + data.length, false⟩ := by
  rw [appendTo, computes_mk h, uint32_of_lt h]

theorem appendTo_inline (h : Begins b text) (hsizeof : b.capacity = inlineCapacity)
    (hfits : text.length + data.length < b.capacity) :
    (appendTo ⟨buffer, text.length, false⟩ .inline b data).Refines ⟨.inline, text ++ data⟩ := by
  have hholds := h.append hfits
  rw [appendTo_eq (Nat.lt_trans hfits h.bound), ← length_append]
  rw [← length_append] at hholds
  exact hholds.refines_inline hsizeof

theorem appendTo_dynamic (h : Begins b text) (hfits : text.length + data.length < b.capacity) :
    (appendTo ⟨buffer, text.length, false⟩ .dynamic b data).Refines ⟨.dynamic, text ++ data⟩ := by
  have hholds := h.append hfits
  rw [appendTo_eq (Nat.lt_trans hfits h.bound), ← length_append]
  rw [← length_append] at hholds
  exact hholds.refines_dynamic

theorem append_inline : HeaderString.append ⟨.inline, text⟩ data =
    if data.length + 1 + text.length ≤ inlineCapacity then ⟨.inline, text ++ data⟩
    else ⟨.dynamic, text ++ data⟩ := by
  simp [HeaderString.append]

theorem append_dynamic : HeaderString.append ⟨.dynamic, text⟩ data = ⟨.dynamic, text ++ data⟩ := by
  simp [HeaderString.append]

theorem append_reference (h : a.type = .reference) :
    a.append data = HeaderString.append ⟨.inline, []⟩ data := by
  rw [HeaderString.append, if_pos h]
  rfl

theorem appendInline_refines (h : Begins b text) (hsizeof : b.capacity = inlineCapacity)
    (hlen : data.length + 1 + text.length < 4294967296)
    (happend : appendInline ⟨buffer, text.length, false⟩ b data fresh = some s') :
    s'.Refines (HeaderString.append ⟨.inline, text⟩ data) := by
  have hroom := h.room
  rw [appendInline, computes_mk hlen, uint32_of_lt hlen] at happend
  rw [append_inline]
  by_cases hfits : data.length + 1 + text.length ≤ inlineCapacity
  · cases (if_pos hfits).symm.trans happend
    rw [if_pos hfits]
    exact appendTo_inline h hsizeof (by omega)
  · rw [if_neg hfits] at happend
    obtain ⟨hcapacity, rfl⟩ := ite_some_none_eq_some.mp happend
    rw [inlineCapacity] at hfits
    change (text.length + data.length) * 2 ≤ 4294967295 at hcapacity
    have hcap : inlineCapacity ≤ (text.length + data.length) * 2 := by
      rw [inlineCapacity]
      omega
    have hnew : Begins ((Block.malloc fresh ((text.length + data.length) * 2)).memcpy 0
        (b.read 0 text.length)) text := by
      rw [h.content]
      exact (begins_malloc hcap (by omega)).memcpy (by rw [capacity_malloc]; omega)
    rw [if_neg (by rw [inlineCapacity]; omega)]
    apply appendTo_dynamic hnew
    rw [capacity_memcpy, capacity_malloc]
    exact (show text.length + data.length < (text.length + data.length) * 2 by omega)

theorem appendDynamic_refines (h : Holds b text)
    (hlen : data.length + 1 + text.length ≤ b.capacity ∨
      (text.length + data.length) * 2 < 4294967296) :
    (appendDynamic ⟨buffer, text.length, false⟩ b data fresh).Refines
      (HeaderString.append ⟨.dynamic, text⟩ data) := by
  have hroom := h.room
  have hbound := h.bound
  have hbelow := h.below
  have hsize : data.length + 1 + text.length < 4294967296 := by omega
  rw [appendDynamic, computes_mk hsize, uint32_of_lt hsize, append_dynamic]
  by_cases hfull : b.capacity < data.length + 1 + text.length
  · have hcapacity : (text.length + data.length) * 2 < 4294967296 := by omega
    rw [inlineCapacity] at hroom
    simp only [if_pos hfull, computes_mk hcapacity, uint32_of_lt hcapacity]
    apply appendTo_dynamic
    · exact h.realloc (Nat.le_of_lt hbelow) (by omega) (by rw [inlineCapacity]; omega) hcapacity
    · rw [capacity_realloc]
      omega
  · simp only [if_neg hfull]
    exact appendTo_dynamic h.toBegins (by omega)

variable {hdata : data.length < 4294967296}

theorem append_refines (h : s.Refines a) (hregular : s.Regular (.append data hdata))
    (happend : s.append data fresh = some s') : s'.Refines (a.append data) := by
  rcases h.cases with ⟨b, text, rfl, rfl, hb, hsizeof⟩ | ⟨ref, hbuffer, hwrapped, htype⟩ |
    ⟨b, text, rfl, rfl, hb⟩
  · exact appendInline_refines hb.toBegins hsizeof hregular happend
  · simp only [Regular, append, hbuffer, hwrapped] at hregular happend
    rw [append_reference htype]
    exact appendInline_refines (begins_malloc (Nat.le_refl _) (by decide)) rfl hregular happend
  · cases happend
    exact appendDynamic_refines hb hregular

theorem clear_inline (h : Begins b text) (hsizeof : b.capacity = inlineCapacity) :
    (clear ⟨.inline b, n, false⟩).Refines .new := h.clear.refines_inline hsizeof

theorem clear_refines (h : s.Refines a) (hregular : s.Regular .clear) :
    s.clear.Refines a.clear := by
  rcases h.cases with ⟨b, text, rfl, rfl, hb, hsizeof⟩ | ⟨ref, hbuffer, -, htype⟩ |
    ⟨b, text, rfl, rfl, hb⟩
  · exact clear_inline hb.toBegins hsizeof
  · rw [clear, hbuffer, HeaderString.clear, if_pos htype]
    exact h
  · have hread : b.read 0 1 = [0] := by
      rw [read_one]
      exact congrArg (fun c => [c]) hregular
    have hholds : Holds b [] := ⟨hb.nil, hread, Nat.lt_of_le_of_lt (Nat.zero_le _) hb.below⟩
    exact hholds.refines_dynamic

theorem copyTo_inline (h : Begins b text) (hsizeof : b.capacity = inlineCapacity)
    (hfits : data.length < b.capacity) :
    (copyTo ⟨buffer, n, false⟩ .inline b data).Refines ⟨.inline, data⟩ :=
  (h.copy hfits).refines_inline hsizeof

theorem copyTo_dynamic (h : Begins b text) (hfits : data.length < b.capacity) :
    (copyTo ⟨buffer, n, false⟩ .dynamic b data).Refines ⟨.dynamic, data⟩ :=
  (h.copy hfits).refines_dynamic

theorem copyTo_malloc (hlong : inlineCapacity < data.length + 1)
    (hcapacity : data.length * 2 < 4294967296) :
    (copyTo ⟨buffer, n, false⟩ .dynamic (.malloc fresh (data.length * 2)) data).Refines
      ⟨.dynamic, data⟩ := by
  rw [inlineCapacity] at hlong
  apply copyTo_dynamic (begins_malloc (by rw [inlineCapacity]; omega) hcapacity)
  rw [capacity_malloc]
  omega

theorem setCopy_inline (h : a.type ≠ .dynamic) : a.setCopy data =
    if data.length + 1 ≤ inlineCapacity then ⟨.inline, data⟩ else ⟨.dynamic, data⟩ := by
  rw [HeaderString.setCopy]
  exact if_congr (and_iff_right h) rfl rfl

theorem setCopy_dynamic (h : a.type = .dynamic) : a.setCopy data = ⟨.dynamic, data⟩ :=
  if_neg fun hinline => hinline.1 h

theorem setCopyInline_refines (h : Begins b text) (hsizeof : b.capacity = inlineCapacity)
    (hinline : a.type ≠ .dynamic)
    (hlen : data.length + 1 ≤ inlineCapacity ∨ data.length * 2 < 4294967296) :
    (setCopyInline ⟨buffer, n, false⟩ b data fresh).Refines (a.setCopy data) := by
  have hbound := h.bound
  have hsize : data.length + 1 < 4294967296 := by omega
  rw [setCopyInline, computes_mk hsize, uint32_of_lt hsize, setCopy_inline hinline]
  by_cases hfits : data.length + 1 ≤ inlineCapacity
  · simp only [if_pos hfits]
    exact copyTo_inline h hsizeof (by omega)
  · have hcapacity : data.length * 2 < 4294967296 := by omega
    simp only [if_neg hfits, computes_mk hcapacity, uint32_of_lt hcapacity]
    exact copyTo_malloc (by omega) hcapacity

theorem setCopyDynamic_refines (h : Begins b text)
    (hlen : data.length + 1 ≤ b.capacity ∨ data.length * 2 < 4294967296) :
    (setCopyDynamic ⟨buffer, n, false⟩ b data fresh).Refines ⟨.dynamic, data⟩ := by
  have hroom := h.room
  have hbound := h.bound
  have hsize : data.length + 1 < 4294967296 := by omega
  rw [setCopyDynamic, computes_mk hsize, uint32_of_lt hsize]
  by_cases hfull : b.capacity < data.length + 1
  · have hcapacity : data.length * 2 < 4294967296 := by omega
    simp only [if_pos hfull, computes_mk hcapacity, uint32_of_lt hcapacity]
    exact copyTo_malloc (by omega) hcapacity
  · simp only [if_neg hfull]
    exact copyTo_dynamic h (by omega)

theorem setCopy_refines (h : s.Refines a) (hregular : s.Regular (.setCopy data hdata)) :
    (s.setCopy data fresh).Refines (a.setCopy data) := by
  rcases h.cases with ⟨b, text, rfl, rfl, hb, hsizeof⟩ | ⟨ref, hbuffer, hwrapped, htype⟩ |
    ⟨b, text, rfl, rfl, hb⟩
  · exact setCopyInline_refines hb.toBegins hsizeof (by exact Storage.noConfusion) hregular
  · obtain ⟨buffer, n, wrapped⟩ := s
    obtain rfl : buffer = .reference ref := hbuffer
    obtain rfl : wrapped = false := hwrapped
    have hinline : a.type ≠ .dynamic := by
      rw [htype]
      exact Storage.noConfusion
    exact setCopyInline_refines (begins_malloc (Nat.le_refl _) (by decide)) rfl hinline hregular
  · rw [setCopy_dynamic rfl]
    exact setCopyDynamic_refines hb.toBegins hregular

theorem itoaTo_inline (h : Begins b text) (hsizeof : b.capacity = inlineCapacity) (value : UInt64) :
    (itoaTo ⟨buffer, n, false⟩ .inline b value).Refines ⟨.inline, decimal value.toNat⟩ := by
  rw [itoaTo, Redis.itoa, Redis.reverse_itoaLoop]
  exact (h.itoa value).refines_inline hsizeof

theorem itoaTo_dynamic (h : Begins b text) (value : UInt64) :
    (itoaTo ⟨buffer, n, false⟩ .dynamic b value).Refines ⟨.dynamic, decimal value.toNat⟩ := by
  rw [itoaTo, Redis.itoa, Redis.reverse_itoaLoop]
  exact (h.itoa value).refines_dynamic

theorem setInteger_refines (h : s.Refines a) (value : UInt64) :
    (s.setInteger value fresh).Refines (a.setInteger value) := by
  rcases h.cases with ⟨b, text, rfl, rfl, hb, hsizeof⟩ | ⟨ref, hbuffer, hwrapped, htype⟩ |
    ⟨b, text, rfl, rfl, hb⟩
  · exact itoaTo_inline hb.toBegins hsizeof value
  · obtain ⟨buffer, n, wrapped⟩ := s
    obtain rfl : buffer = .reference ref := hbuffer
    obtain rfl : wrapped = false := hwrapped
    rw [HeaderString.setInteger, if_pos htype]
    exact itoaTo_inline (begins_malloc (Nat.le_refl _) (by decide)) rfl value
  · exact itoaTo_dynamic hb.toBegins value

theorem overwrite_refines (h : s.Refines a) (hoverwrite : s.overwrite offset data = some s') :
    s'.Refines (a.overwrite offset data) := by
  obtain ⟨hfits, hoverwrite⟩ := ite_none_right_eq_some.mp hoverwrite
  rcases h.cases with ⟨b, text, rfl, rfl, hb, hsizeof⟩ | ⟨ref, hbuffer, -, -⟩ |
    ⟨b, text, rfl, rfl, hb⟩
  · cases hoverwrite
    have hrefines := (hb.overwrite hfits).refines_inline hsizeof
    rw [length_overwrite hfits] at hrefines
    exact hrefines
  · rw [hbuffer] at hoverwrite
    cases hoverwrite
  · cases hoverwrite
    have hrefines := (hb.overwrite hfits).refines_dynamic
    rw [length_overwrite hfits] at hrefines
    exact hrefines

/-- What is moved takes its text along. What is left is a reference, or empty and inline. -/
theorem moveConstruct_refines (h : s.Refines a) :
    (s.moveConstruct fresh).1.Refines a ∧ (s.moveConstruct fresh).2.Refines a.moved := by
  rcases h.cases with ⟨b, text, rfl, rfl, hb, hsizeof⟩ | ⟨ref, hbuffer, -, htype⟩ |
    ⟨b, text, rfl, rfl, hb⟩
  · have hbelow := hb.below
    have hbound := hb.bound
    have hsize : text.length + 1 < 4294967296 := by omega
    have hnew : Holds ((Block.malloc fresh inlineCapacity).memcpy 0 (text ++ [0])) text := by
      apply (begins_malloc (Nat.le_refl _) (by decide)).write
      rw [capacity_malloc, ← hsizeof]
      exact hbelow
    refine ⟨?_, hb.clear.refines_inline hsizeof⟩
    rw [moveConstruct]
    simp only [uint32_of_lt hsize, computes_mk hsize, hb.text_nul]
    exact hnew.refines_inline rfl
  · rw [moveConstruct, hbuffer, HeaderString.moved, if_pos htype]
    exact ⟨h, h⟩
  · exact ⟨h, clear_inline (begins_malloc (Nat.le_refl _) (by decide)) rfl⟩

theorem apply_refines (h : s.Refines a) {op : StringOp} (hregular : s.Regular op)
    (happly : s.apply fresh op = some s') : s'.Refines (a.apply op) := by
  cases op with
  | append data size => exact append_refines h hregular happly
  | clear =>
    cases happly
    exact clear_refines h hregular
  | setCopy data size =>
    cases happly
    exact setCopy_refines h hregular
  | setInteger value =>
    cases happly
    exact setInteger_refines h value
  | setReference refValue =>
    cases happly
    rw [setReference, h.unwrapped]
    exact refines_ofReference hregular
  | buffer offset data => exact overwrite_refines h happly

end HeaderStringImpl

/-!
## Runs of header strings

Strings are created, moved and changed in any order. A string that is moved stays where it is,
and the new one comes after all others.
-/

/-- `fresh` is what is in the memory that the event gets. -/
inductive StringEvent where
  | create (fresh : Nat → UInt8)
  | createReference (refValue : Bytes)
  | moveConstruct (i : Nat) (fresh : Nat → UInt8)
  | call (i : Nat) (op : StringOp) (fresh : Nat → UInt8)

def HeaderString.react (strings : List HeaderString) : StringEvent → List HeaderString
  | .create _ => strings ++ [.new]
  | .createReference refValue => strings ++ [.setReference refValue]
  | .moveConstruct i _ =>
    match strings[i]? with
    | none => strings
    | some s => strings.set i s.moved ++ [s]
  | .call i op _ =>
    match strings[i]? with
    | none => strings
    | some s => strings.set i (s.apply op)

namespace HeaderStringImpl

variable (strings : List HeaderStringImpl)

/-- There is no next state where there is no such string, or the process is aborted. -/
def step : StringEvent → Option (List HeaderStringImpl)
  | .create fresh => some (strings ++ [.create fresh])
  | .createReference refValue => some (strings ++ [.ofReference refValue false])
  | .moveConstruct i fresh =>
    strings[i]?.map fun s => strings.set i (s.moveConstruct fresh).2 ++ [(s.moveConstruct fresh).1]
  | .call i op fresh => strings[i]?.bind fun s => (s.apply fresh op).map fun s => strings.set i s

def RegularEvent : StringEvent → Prop
  | .create _ => True
  | .createReference refValue => refValue.length < 4294967296
  | .moveConstruct _ _ => True
  | .call i op _ => ∀ s ∈ strings[i]?, s.Regular op

variable {strings : List HeaderStringImpl} {abstract : List HeaderString}

theorem step_refines {strings' : List HeaderStringImpl} {event : StringEvent}
    (h : List.Forall₂ Refines strings abstract) (hregular : RegularEvent strings event)
    (hstep : step strings event = some strings') :
    List.Forall₂ Refines strings' (HeaderString.react abstract event) := by
  cases event with
  | create fresh =>
    cases hstep
    exact related_concat h refines_create
  | createReference refValue =>
    cases hstep
    exact related_concat h (refines_ofReference hregular)
  | moveConstruct i fresh =>
    obtain ⟨s, hs, rfl⟩ := map_eq_some_iff.mp hstep
    obtain ⟨a, ha, hrefines⟩ := related_getElem? h hs
    rw [HeaderString.react, ha]
    exact related_concat (related_set h (moveConstruct_refines hrefines).2 i)
      (moveConstruct_refines hrefines).1
  | call i op fresh =>
    obtain ⟨s, hs, happly⟩ := bind_eq_some_iff.mp hstep
    obtain ⟨s', hs', rfl⟩ := map_eq_some_iff.mp happly
    obtain ⟨a, ha, hrefines⟩ := related_getElem? h hs
    rw [HeaderString.react, ha]
    exact related_set h (apply_refines hrefines (hregular s hs) hs') i

theorem contents_eq (h : List.Forall₂ Refines strings abstract) :
    strings.map (fun s => s.buffer.cStr (s.stringLength + 1)) =
      abstract.map (fun a => a.bytes ++ [0]) := by
  induction h with
  | nil => rfl
  | cons h _ ih => rw [map_cons, map_cons, ih, h.content]

/-- After any run of regular events the strings are what the header map takes them for. -/
theorem run_refines {events : List StringEvent} {strings : List HeaderStringImpl}
    (hregular : AllMeet step RegularEvent [] events) (hrun : run step [] events = some strings) :
    List.Forall₂ Refines strings (events.foldl HeaderString.react []) :=
  run_simulates HeaderString.react (fun _ _ _ _ h hregular hstep => step_refines h hregular hstep)
    hregular .nil hrun

instance (s : HeaderStringImpl) (op : StringOp) : Decidable (s.Regular op) := by
  unfold Regular
  split <;> infer_instance

instance (strings : List HeaderStringImpl) (event : StringEvent) :
    Decidable (RegularEvent strings event) := by
  cases event <;> unfold RegularEvent <;> infer_instance

def longText : Bytes := List.replicate 128 97

theorem length_longText : longText.length < 4294967296 := by
  rw [longText, length_replicate]
  decide

def sampleEvents : List StringEvent :=
  [.create fun _ => 85, .call 0 (.setCopy longText length_longText) fun _ => 85,
    .call 0 (.append (ascii "bc") (by decide)) fun _ => 85, .moveConstruct 0 fun _ => 85,
    .call 0 (.setInteger 7) fun _ => 85, .call 1 (.buffer 1 (ascii "x")) fun _ => 85]

theorem sample_runs : (run step [] sampleEvents).isSome = true := by decide +kernel

theorem run_refines_sample : List.Forall₂ Refines ((run step [] sampleEvents).get sample_runs)
      (sampleEvents.foldl HeaderString.react []) :=
  run_refines (by decide +kernel) (some_get sample_runs).symm

def clearedEvents : List StringEvent :=
  [.create fun _ => 85, .call 0 (.setCopy longText length_longText) fun _ => 85,
    .call 0 .clear fun _ => 85]

theorem cleared_runs : (run step [] clearedEvents).isSome = true := by decide +kernel

theorem cleared_notTerminated : ∃ strings, run step [] clearedEvents = some strings ∧
      ¬ List.Forall₂ Refines strings (clearedEvents.foldl HeaderString.react []) := by
  refine ⟨_, (some_get cleared_runs).symm, ?_⟩
  intro hrefines
  have htext : ((run step [] clearedEvents).get cleared_runs).map
      (fun s => s.buffer.cStr (s.stringLength + 1)) = [[97]] := by decide +kernel
  have habstract : (clearedEvents.foldl HeaderString.react []).map (fun a => a.bytes ++ [0]) =
      [[0]] := by decide +kernel
  have hsame := contents_eq hrefines
  rw [htext, habstract] at hsame
  exact absurd hsame (by decide)

end HeaderStringImpl

end Meliproxy.Envoy.Http
