import Meliproxy.Lib.Wire
import Mathlib.Data.List.DropRight

/-!
# HTTP/1.1 messages

A reader of the part of a message behind its start line, as the standard has it: field lines up
to an empty line, then a body in chunks if the transfer coding says so, else a body of the content
length. The rules below say what it makes of what a writer writes.
-/

namespace Lib.HttpMessage

open List

inductive ReadError where
  | incomplete
  | invalid
  deriving DecidableEq

abbrev Field := Bytes × Bytes

structure Message where
  fields : List Field
  body : Bytes
  deriving DecidableEq

def crlf : Bytes := [13, 10]

def splitLine : Bytes → Option (Bytes × Bytes)
  | [] => none
  | c :: rest =>
    if c = 13 ∧ rest.head? = some 10 then some ([], rest.tail)
    else (splitLine rest).map fun split => (c :: split.1, split.2)

def readLine : Reader ReadError Bytes := fun bytes =>
  match splitLine bytes with
  | none => .error .incomplete
  | some split => .ok split

def readBytes (n : Nat) : Reader ReadError Bytes := fun bytes =>
  if bytes.length < n then .error .incomplete else .ok (bytes.take n, bytes.drop n)

theorem reads_line {line : Bytes} (h : 13 ∉ line) (rest : Bytes) :
    Reads readLine (line ++ crlf) line rest := by
  have hsplit : splitLine (line ++ crlf ++ rest) = some (line, rest) := by
    induction line with
    | nil => simp [splitLine, crlf]
    | cons c line ih =>
      obtain ⟨hc, hline⟩ : (13 : UInt8) ≠ c ∧ 13 ∉ line := by
        simpa using h
      rw [cons_append, cons_append, splitLine, if_neg fun hcr => hc hcr.1.symm, ih hline]
      rfl
  rw [Reads, readLine, hsplit]

theorem reads_emptyLine (rest : Bytes) : Reads readLine crlf [] rest :=
  reads_line not_mem_nil rest

theorem reads_bytes (bytes rest : Bytes) : Reads (readBytes bytes.length) bytes bytes rest := by
  rw [Reads, readBytes, if_neg (by simp), take_left, drop_left]

def isToken (c : UInt8) : Bool :=
  (48 ≤ c && c ≤ 57) || (65 ≤ c && c ≤ 90) || (97 ≤ c && c ≤ 122) ||
    (ascii "!#$%&'*+-.^_|~").contains c || c = 96

def isBlank (c : UInt8) : Bool := c = 32 || c = 9

def trim (value : Bytes) : Bytes := (value.dropWhile isBlank).rdropWhile isBlank

def isFieldName (name : Bytes) : Bool := name ≠ [] && name.all isToken

def readField (line : Bytes) : Except ReadError Field :=
  let name := line.takeWhile (· ≠ 58)
  match line.drop name.length with
  | [] => .error .invalid
  | _ :: value => if isFieldName name then .ok (name, trim value) else .error .invalid

def readFieldLines : Nat → Reader ReadError (List Field)
  | 0 => throw .incomplete
  | fuel + 1 => do
    let line ← readLine
    if line = [] then return []
    else
      let field ← readField line
      let fields ← readFieldLines fuel
      return field :: fields

def readFields : Reader ReadError (List Field) := do
  let bytes ← get
  readFieldLines bytes.length

variable (field : Field)

def writeField : Bytes := field.1 ++ ascii ": " ++ field.2 ++ crlf

def trimmed : Field := (field.1, trim field.2)

/-- The field can stand on a line of its own. -/
structure Writable : Prop where
  name : isFieldName field.1 = true
  value : 13 ∉ field.2

section Fields

variable {field : Field} {fields : List Field}

theorem notMem_name {key : Bytes} (h : isFieldName key = true) {c : UInt8} (hc : isToken c = false) :
    c ∉ key := by
  intro hmem
  rw [isFieldName, Bool.and_eq_true, all_eq_true] at h
  rw [h.2 c hmem] at hc
  cases hc

theorem readField_write (h : Writable field) :
    readField (field.1 ++ ascii ": " ++ field.2) = .ok (trimmed field) := by
  have hname : (field.1 ++ ascii ": " ++ field.2).takeWhile (· ≠ 58) = field.1 := by
    rw [append_assoc, takeWhile_append_of_pos]
    · simp [ascii]
    · intro c hc
      have : c ≠ 58 := fun heq => notMem_name h.name (by decide) (heq ▸ hc)
      simpa using this
  have hvalue : (field.1 ++ ascii ": " ++ field.2).drop field.1.length = 58 :: 32 :: field.2 := by
    rw [append_assoc, drop_left]
    rfl
  simp only [readField, hname, hvalue, h.name, if_true]
  rfl

theorem reads_field_line (h : Writable field) (rest : Bytes) :
    Reads readLine (writeField field) (field.1 ++ ascii ": " ++ field.2) rest := by
  apply reads_line
  simp only [mem_append, not_or]
  exact ⟨⟨notMem_name h.name (by decide), by decide⟩, h.value⟩

theorem reads_fieldLines (h : ∀ field ∈ fields, Writable field) {fuel : Nat}
    (hfuel : fields.length < fuel) (rest : Bytes) :
    Reads (readFieldLines fuel) (fields.flatMap writeField ++ crlf) (fields.map trimmed) rest := by
  induction fields generalizing fuel with
  | nil =>
    obtain ⟨fuel, rfl⟩ := Nat.exists_eq_add_of_lt hfuel
    exact (reads_emptyLine ([] ++ rest)).bind (by rw [if_pos rfl]; exact reads_pure [] rest)
  | cons field fields ih =>
    obtain ⟨fuel, rfl⟩ : ∃ n, fuel = n + 1 := ⟨fuel - 1, by simp at hfuel; omega⟩
    have hfield := h field mem_cons_self
    rw [flatMap_cons, append_assoc]
    apply (reads_field_line hfield _).bind
    have hne : field.1 ++ ascii ": " ++ field.2 ≠ [] := by
      simp [ascii]
    rw [if_neg hne, readField_write hfield]
    have hrest := ih (fun g hg => h g (mem_cons_of_mem field hg))
      (show fields.length < fuel by simpa using hfuel)
    exact hrest.map

theorem length_le_flatMap (fields : List Field) : fields.length ≤ (fields.flatMap writeField).length := by
  induction fields with
  | nil => exact Nat.zero_le _
  | cons field fields ih =>
    simp only [flatMap_cons, length_append, length_cons, writeField, crlf, length_nil]
    omega

theorem reads_fields (h : ∀ field ∈ fields, Writable field) (rest : Bytes) :
    Reads readFields (fields.flatMap writeField ++ crlf) (fields.map trimmed) rest := by
  apply reads_get
  apply reads_fieldLines h
  have := length_le_flatMap fields
  simp only [length_append, crlf, length_cons, length_nil]
  omega

end Fields

def hexDigit (n : Nat) : UInt8 := if n < 10 then (48 + n).toUInt8 else (87 + n).toUInt8

def hex (n : Nat) : Bytes := if n < 16 then [hexDigit n] else hex (n / 16) ++ [hexDigit (n % 16)]

def hexValue (c : UInt8) : Option Nat :=
  if 48 ≤ c ∧ c ≤ 57 then some (c.toNat - 48)
  else if 97 ≤ c ∧ c ≤ 102 then some (c.toNat - 87)
  else if 65 ≤ c ∧ c ≤ 70 then some (c.toNat - 55)
  else none

def readHex (digits : Bytes) : Option Nat :=
  if digits = [] then none
  else digits.foldlM (fun n c => (hexValue c).map fun value => 16 * n + value) 0

theorem hexValue_hexDigit : ∀ n < 16, hexValue (hexDigit n) = some n := by
  decide

variable (n : Nat)

theorem hex_ne_nil : hex n ≠ [] := by
  rw [hex]
  split <;> simp

theorem foldlM_hex :
    (hex n).foldlM (fun n c => (hexValue c).map fun value => 16 * n + value) 0 = some n := by
  induction n using Nat.strongRecOn with
  | ind n ih =>
    rw [hex]
    split
    · rename_i hlt
      simp [hexValue_hexDigit n hlt]
    · rename_i hge
      have hmod := hexValue_hexDigit (n % 16) (Nat.mod_lt n (by decide))
      rw [foldlM_append, ih (n / 16) (by omega)]
      simp [hmod, Nat.div_add_mod]

theorem readHex_hex : readHex (hex n) = some n := by
  rw [readHex, if_neg (hex_ne_nil n), foldlM_hex]

theorem notMem_hex : 13 ∉ hex n ∧ 59 ∉ hex n := by
  have hdigit : ∀ n < 16, hexDigit n ≠ 13 ∧ hexDigit n ≠ 59 := by decide
  induction n using Nat.strongRecOn with
  | ind n ih =>
    rw [hex]
    split
    · rename_i hlt
      simpa [eq_comm] using hdigit n hlt
    · rename_i hge
      have hlast := hdigit (n % 16) (Nat.mod_lt n (by decide))
      have hfront := ih (n / 16) (by omega)
      simp only [mem_append, mem_singleton, not_or]
      exact ⟨⟨hfront.1, hlast.1.symm⟩, hfront.2, hlast.2.symm⟩

/-- Chunks up to one of size zero, with the trailer fields behind it. A semicolon begins an
extension of a chunk. -/
def readChunks : Nat → Reader ReadError Bytes
  | 0 => throw .incomplete
  | fuel + 1 => do
    let line ← readLine
    match readHex (line.takeWhile (· ≠ 59)) with
    | none => throw .invalid
    | some 0 =>
      let _ ← readFields
      return []
    | some (size + 1) =>
      let data ← readBytes (size + 1)
      let line ← readLine
      if line ≠ [] then throw .invalid
      else
        let body ← readChunks fuel
        return data ++ body

def writeChunk (data : Bytes) : Bytes := hex data.length ++ crlf ++ data ++ crlf

theorem reads_sizeLine (rest : Bytes) : Reads readLine (hex n ++ crlf) (hex n) rest :=
  reads_line (notMem_hex n).1 rest

theorem takeWhile_hex : (hex n).takeWhile (· ≠ 59) = hex n := by
  apply takeWhile_eq_self_iff.mpr
  intro c hc
  have : c ≠ 59 := fun heq => (notMem_hex n).2 (heq ▸ hc)
  simpa using this

theorem reads_chunks {chunks : List Bytes} (h : ∀ data ∈ chunks, data ≠ []) {fuel : Nat}
    (hfuel : chunks.length < fuel) (rest : Bytes) :
    Reads (readChunks fuel) (chunks.flatMap writeChunk ++ (hex 0 ++ crlf ++ crlf)) chunks.flatten
      rest := by
  induction chunks generalizing fuel with
  | nil =>
    obtain ⟨fuel, rfl⟩ : ∃ n, fuel = n + 1 := ⟨fuel - 1, by simp at hfuel; omega⟩
    apply (reads_sizeLine 0 _).bind
    rw [takeWhile_hex, readHex_hex]
    have hfields : Reads readFields crlf [] rest := reads_fields (forall_mem_nil _) rest
    exact hfields.map
  | cons data chunks ih =>
    obtain ⟨fuel, rfl⟩ : ∃ n, fuel = n + 1 := ⟨fuel - 1, by simp at hfuel; omega⟩
    obtain ⟨size, hsize⟩ : ∃ n, data.length = n + 1 :=
      ⟨data.length - 1, by have := length_pos_of_ne_nil (h data mem_cons_self); omega⟩
    rw [flatMap_cons, writeChunk, append_assoc, append_assoc, append_assoc]
    apply (reads_sizeLine data.length _).bind
    rw [takeWhile_hex, readHex_hex, hsize]
    have hdata := reads_bytes data
    rw [hsize] at hdata
    apply (hdata _).bind
    apply (reads_emptyLine _).bind
    rw [if_neg (by simp)]
    exact (ih (fun d hd => h d (mem_cons_of_mem data hd)) (by simpa using hfuel)).map

theorem length_le_chunks (chunks : List Bytes) :
    chunks.length ≤ (chunks.flatMap writeChunk).length := by
  induction chunks with
  | nil => exact Nat.zero_le _
  | cons data chunks ih =>
    simp only [flatMap_cons, length_append, length_cons, writeChunk, crlf, length_nil]
    omega

def lower (c : UInt8) : UInt8 := if 65 ≤ c ∧ c ≤ 90 then c + 32 else c

/-- Names of fields and of codings are the same in upper and in lower case. -/
def sameName (a b : Bytes) : Bool := a.map lower = b.map lower

def valuesOf (fields : List Field) (name : Bytes) : List Bytes :=
  (fields.filter fun field => sameName field.1 name).map Prod.snd

def isDigit (c : UInt8) : Bool := 48 ≤ c && c ≤ 57

def readLength (value : Bytes) : Option Nat :=
  if value ≠ [] ∧ value.all isDigit then some (readDecimal value 0) else none

/-- What says where the body ends. -/
inductive Framing where
  | length (n : Nat)
  | chunked

/-- The transfer coding goes before the content length, and all content lengths agree. -/
def framing (fields : List Field) : Except ReadError Framing :=
  match valuesOf fields (ascii "transfer-encoding"), valuesOf fields (ascii "content-length") with
  | [], [] => .ok (.length 0)
  | [], value :: values =>
    match readLength value with
    | none => .error .invalid
    | some n => if values.all fun v => readLength v = some n then .ok (.length n) else .error .invalid
  | [coding], _ => if sameName coding (ascii "chunked") then .ok .chunked else .error .invalid
  | _, _ => .error .invalid

def readBody : Framing → Reader ReadError Bytes
  | .length n => readBytes n
  | .chunked => do
    let bytes ← get
    readChunks bytes.length

def readMessage : Reader ReadError Message := do
  let fields ← readFields
  let how ← framing fields
  let body ← readBody how
  return ⟨fields, body⟩

section Message

variable {fields : List Field}

theorem reads_message (h : ∀ field ∈ fields, Writable field) {how : Framing}
    (hframing : framing (fields.map trimmed) = .ok how) {bytes body rest : Bytes}
    (hbody : Reads (readBody how) bytes body rest) :
    Reads readMessage (fields.flatMap writeField ++ crlf ++ bytes) ⟨fields.map trimmed, body⟩ rest := by
  apply (reads_fields h _).bind
  rw [hframing]
  exact hbody.map

theorem reads_length (body rest : Bytes) : Reads (readBody (.length body.length)) body body rest :=
  reads_bytes body rest

theorem reads_chunked {chunks : List Bytes} (h : ∀ data ∈ chunks, data ≠ []) (rest : Bytes) :
    Reads (readBody .chunked) (chunks.flatMap writeChunk ++ (hex 0 ++ crlf ++ crlf)) chunks.flatten
      rest := by
  apply reads_get
  apply reads_chunks h
  have := length_le_chunks chunks
  simp only [length_append, crlf, length_cons, length_nil]
  omega

theorem framing_chunked (h : valuesOf fields (ascii "transfer-encoding") = [ascii "chunked"]) :
    framing fields = .ok .chunked := by
  rw [framing, h]
  rfl

theorem framing_length {n : Nat} (hcoding : valuesOf fields (ascii "transfer-encoding") = [])
    (hsome : valuesOf fields (ascii "content-length") ≠ [])
    (hall : ∀ value ∈ valuesOf fields (ascii "content-length"), readLength value = some n) :
    framing fields = .ok (.length n) := by
  rw [framing, hcoding]
  cases hvalues : valuesOf fields (ascii "content-length") with
  | nil => exact absurd hvalues hsome
  | cons value values =>
    rw [hvalues] at hall
    have hrest : values.all (fun v => readLength v = some n) = true := by
      rw [all_eq_true]
      intro v hv
      simpa using hall v (mem_cons_of_mem value hv)
    simp [hall value mem_cons_self, hrest]

end Message

end Lib.HttpMessage
