import Meliproxy.Envoy.Http.Http1Output
import Mathlib.Data.Nat.Log

/-!
# The encoder stays inside of its reservations

A header line and a status line are written into space that was reserved for all of them. The
request line is written into space that was reserved for its path and 4096 bytes more, whatever
the length of its method: it is inside if and only if it fits into what the buffer has handed
out. What was written outside once is not forgotten.
-/

namespace Meliproxy.Envoy.Http.Http1.OutputBuffer

open Lib List HttpMessage Option Block

variable {evbuffer : Evbuffer} {o o' : OutputBuffer} {mem : Block} {current size n : Nat}
  {data key value : Bytes} {headers : HeaderMap} {endStream : Bool}

variable (o)

def pending : Bytes :=
  match o.reserved with
  | none => []
  | some (mem, current) => mem.read 0 current

/-- Nothing was written outside of a reservation, and what was written is what was sent, what is
in the buffer and what is not committed yet. -/
structure Inside : Prop where
  overran : o.overran = false
  reserved : ∀ mem current, o.reserved = some (mem, current) →
    mem.overrun = false ∧ current ≤ mem.capacity
  account : o.sent ++ o.output ++ o.pending = o.written

/-- Between two messages all that was written has been sent. -/
structure Idle : Prop where
  overran : o.overran = false
  reserved : o.reserved = none
  output : o.output = []
  account : o.sent = o.written

/-- There is room for `n` bytes in the reservation. -/
def Room (n : Nat) : Prop :=
  ∃ mem current, o.reserved = some (mem, current) ∧ current + n ≤ mem.capacity

variable {o}

theorem Room.mono {m : Nat} (h : o.Room n) (hle : m ≤ n) : o.Room m := by
  obtain ⟨mem, current, hreserved, hroom⟩ := h
  exact ⟨mem, current, hreserved, by omega⟩

theorem Idle.inside (h : o.Idle) : o.Inside where
  overran := h.overran
  reserved := by
    intro mem current hreserved
    rw [h.reserved] at hreserved
    cases hreserved
  account := by
    rw [h.account, h.output, pending, h.reserved, append_nil, append_nil]

theorem commit_of_none (h : o.reserved = none) : o.commit = o := by
  rw [commit, h]

theorem commit_of_some (h : o.reserved = some (mem, current)) : o.commit = { o with
      reserved := none
      output := o.output ++ mem.read 0 current
      overran := o.overran || mem.overrun } := by
  rw [commit, h]

theorem Inside.commit (h : o.Inside) :
    o.commit.Inside ∧ o.commit.reserved = none ∧ o.commit.written = o.written := by
  cases hreserved : o.reserved with
  | none =>
    rw [commit_of_none hreserved]
    exact ⟨h, hreserved, rfl⟩
  | some reserved =>
    obtain ⟨mem, current⟩ := reserved
    have haccount := h.account
    rw [pending, hreserved] at haccount
    rw [commit_of_some hreserved]
    refine ⟨⟨?_, ?_, ?_⟩, rfl, rfl⟩
    · simp [h.overran, (h.reserved mem current hreserved).1]
    · rintro _ _ ⟨⟩
    · simp only [pending, append_nil, ← append_assoc]
      exact haccount

theorem Inside.flushOutput (h : o.Inside) : o.flushOutput.Idle := by
  obtain ⟨hinside, hnone, -⟩ := h.commit
  have haccount := hinside.account
  have hsent : o.commit.sent = o.sent := by
    unfold OutputBuffer.commit
    split <;> rfl
  rw [pending, hnone, append_nil, hsent] at haccount
  exact ⟨hinside.overran, hnone, rfl, haccount⟩

theorem Inside.reserveNew (h : o.Inside) (evbuffer : Evbuffer) (size : Nat) :
    (o.reserveNew evbuffer size).Inside ∧ (o.reserveNew evbuffer size).Room size := by
  obtain ⟨hinside, hnone, -⟩ := h.commit
  have haccount := hinside.account
  rw [pending, hnone, append_nil] at haccount
  have henough := evbuffer.enough o.reserveCalls (max 4096 size)
  refine ⟨⟨hinside.overran, ?_, ?_⟩, ?_⟩
  · intro mem current hreserved
    obtain ⟨rfl, rfl⟩ := Prod.mk.inj (Option.some.inj hreserved)
    exact ⟨evbuffer.unwritten _ _, Nat.zero_le _⟩
  · exact (append_nil _).trans haccount
  · exact ⟨_, _, rfl, by omega⟩

theorem Inside.reserveBuffer (h : o.Inside) (evbuffer : Evbuffer) (size : Nat) :
    (o.reserveBuffer evbuffer size).Inside ∧ (o.reserveBuffer evbuffer size).Room size := by
  cases hreserved : o.reserved with
  | none =>
    rw [OutputBuffer.reserveBuffer, hreserved]
    exact h.reserveNew evbuffer size
  | some reserved =>
    obtain ⟨mem, current⟩ := reserved
    have hcurrent := (h.reserved mem current hreserved).2
    rw [OutputBuffer.reserveBuffer, hreserved]
    simp only [bufferRemainingSize, if_pos hcurrent]
    by_cases hroom : size ≤ mem.capacity - current
    · rw [if_pos hroom]
      exact ⟨h, mem, current, hreserved, by omega⟩
    · rw [if_neg hroom]
      exact h.reserveNew evbuffer size

theorem copyToBuffer_of_some (h : o.reserved = some (mem, current)) : o.copyToBuffer data = { o with
      reserved := some (mem.memcpy current data, current + data.length)
      written := o.written ++ data } := by
  rw [copyToBuffer, h]

theorem reserved_copyToBuffer (h : o.reserved = some (mem, current)) (data : Bytes) :
    (o.copyToBuffer data).reserved = some (mem.memcpy current data, current + data.length) := by
  rw [copyToBuffer_of_some h]

theorem Inside.memcpy (h : o.Inside) (data : Bytes)
    (hreserved : o.reserved = some (mem, current)) (tail : Bytes)
    (hfits : current + (data.length + tail.length) ≤ mem.capacity) :
    Inside { o with
      reserved := some (mem.memcpy current (data ++ tail), current + data.length)
      written := o.written ++ data } := by
  have haccount := h.account
  rw [pending, hreserved] at haccount
  refine ⟨h.overran, ?_, ?_⟩
  · rintro _ _ ⟨⟩
    rw [capacity_memcpy]
    exact ⟨overrun_memcpy_iff.mpr ⟨(h.reserved mem current hreserved).1, by
      rw [length_append]
      omega⟩, by omega⟩
  · have hread : (mem.memcpy current (data ++ tail)).read 0 (current + (data ++ tail).length) =
        mem.read 0 current ++ (data ++ tail) := read_memcpy_append (Nat.zero_add current).symm
    rw [length_append, ← Nat.add_assoc, read_add, ← append_assoc] at hread
    simp only [pending]
    rw [(append_inj' hread length_read).1, ← append_assoc, haccount]

theorem Inside.copyToBuffer (h : o.Inside) (data : Bytes) (n : Nat)
    (hroom : o.Room (data.length + n)) :
    (o.copyToBuffer data).Inside ∧ (o.copyToBuffer data).Room n := by
  obtain ⟨mem, current, hreserved, hfits⟩ := hroom
  have hinside := h.memcpy data hreserved [] (by rw [length_nil]; omega)
  rw [append_nil] at hinside
  rw [copyToBuffer_of_some hreserved]
  exact ⟨hinside, _, _, rfl, by rw [capacity_memcpy]; omega⟩

theorem Inside.addCharToBuffer (h : o.Inside) (c : UInt8) (n : Nat) (hroom : o.Room (n + 1)) :
    (o.addCharToBuffer c).Inside ∧ (o.addCharToBuffer c).Room n :=
  h.copyToBuffer [c] n (hroom.mono (by rw [length_singleton]; omega))

theorem Inside.addIntToBuffer {i : UInt64} (h : o.Inside) (hroom : o.Room (21 + n))
    (hadd : o.addIntToBuffer i = some o') : o'.Inside ∧ o'.Room n := by
  obtain ⟨mem, current, hreserved, hfits⟩ := hroom
  have hlen := Redis.length_itoa_le i
  simp only [OutputBuffer.addIntToBuffer, hreserved] at hadd
  obtain ⟨-, hadd⟩ := ite_none_left_eq_some.mp hadd
  cases hadd
  exact ⟨h.memcpy _ hreserved [0] (by rw [length_singleton]; omega), _, _, rfl, by
    rw [capacity_memcpy]
    omega⟩

theorem Inside.encodeHeader (h : o.Inside) (hsize : key.length + value.length + 4 < 4294967296) :
    (o.encodeHeader evbuffer key value).Inside := by
  obtain ⟨h₀, hroom⟩ := h.reserveBuffer evbuffer (key.length + value.length + 4)
  obtain ⟨h₁, hroom⟩ := h₀.copyToBuffer key (value.length + 4) (hroom.mono (by omega))
  obtain ⟨h₂, hroom⟩ := h₁.addCharToBuffer 58 (value.length + 3) hroom
  obtain ⟨h₃, hroom⟩ := h₂.addCharToBuffer 32 (value.length + 2) hroom
  obtain ⟨h₄, hroom⟩ := h₃.copyToBuffer value 2 hroom
  obtain ⟨h₅, hroom⟩ := h₄.addCharToBuffer 13 1 hroom
  obtain ⟨h₆, -⟩ := h₅.addCharToBuffer 10 0 hroom
  rw [OutputBuffer.encodeHeader, uint32_of_lt hsize]
  exact h₆

theorem length_keyToUse_le (key : Bytes) :
    (StreamEncoderImpl.keyToUse key).length ≤ key.length + 4 := by
  unfold StreamEncoderImpl.keyToUse
  split
  · exact Nat.le_add_left 4 _
  · exact Nat.le_add_right _ 4

theorem length_le_byteSize {e : HeaderEntry} (he : e ∈ headers.headers) :
    e.key.bytes.length + e.value.bytes.length ≤ headers.byteSize := by
  obtain ⟨before, after, hsplit⟩ := append_of_mem he
  rw [HeaderMap.byteSize, hsplit, map_append, sum_append, map_cons, sum_cons]
  omega

theorem length_value_le {header : InlineHeader} {s : HeaderString}
    (h : headers.value header = some s) : s.bytes.length ≤ headers.byteSize := by
  obtain ⟨e, he, rfl⟩ := map_eq_some_iff.mp h
  obtain ⟨id, -, hfind⟩ := bind_eq_some_iff.mp he
  have hle := length_le_byteSize (mem_of_find?_eq_some hfind)
  omega

variable {entry : HeaderString × HeaderString}

theorem Inside.encodeEntry (h : o.Inside)
    (hsize : entry.1.bytes.length + entry.2.bytes.length + 4096 < 4294967296) :
    (o.encodeEntry evbuffer entry).Inside := by
  have hkey := length_keyToUse_le entry.1.bytes
  unfold OutputBuffer.encodeEntry
  by_cases hpseudo : (StreamEncoderImpl.keyToUse entry.1.bytes).head? = some 58
  · rw [if_pos hpseudo]
    exact h
  · rw [if_neg hpseudo]
    exact h.encodeHeader (by omega)

variable {entries : List (HeaderString × HeaderString)}

theorem Inside.foldl_encodeEntry (h : o.Inside)
    (hsize : ∀ entry ∈ entries, entry.1.bytes.length + entry.2.bytes.length + 4096 < 4294967296) :
    (entries.foldl (fun o entry => o.encodeEntry evbuffer entry) o).Inside := by
  induction entries generalizing o with
  | nil => exact h
  | cons entry entries ih =>
    exact ih (h.encodeEntry (hsize entry mem_cons_self))
      fun e he => hsize e (mem_cons_of_mem entry he)

theorem Inside.encodeHeaders (h : o.Inside) (hsize : headers.byteSize + 4096 < 4294967296) :
    (o.encodeHeaders evbuffer headers endStream).Idle := by
  have hentries : (headers.iterate
      (fun entry o => (o.encodeEntry evbuffer entry, .continue)) o).Inside := by
    rw [HeaderMap.iterate, HeaderMap.iterateFrom_continue]
    apply h.foldl_encodeEntry
    intro entry hentry
    obtain ⟨e, he, rfl⟩ := List.mem_map.mp hentry
    exact Nat.lt_of_le_of_lt (Nat.add_le_add_right (length_le_byteSize he) 4096) hsize
  rw [OutputBuffer.encodeHeaders]
  have hend : ∀ {o : OutputBuffer}, o.Inside →
      (((o.reserveBuffer evbuffer 2).addCharToBuffer 13).addCharToBuffer 10).Inside := by
    intro o ho
    obtain ⟨h₁, hroom⟩ := ho.reserveBuffer evbuffer 2
    obtain ⟨h₂, hroom⟩ := h₁.addCharToBuffer 13 1 hroom
    exact (h₂.addCharToBuffer 10 0 hroom).1
  by_cases hlen : (headers.value .contentLength).isSome = true
  · simp only [if_pos hlen]
    cases endStream with
    | true | false => exact (hend hentries).flushOutput
  · simp only [if_neg hlen]
    cases endStream with
    | true | false => exact (hend (hentries.encodeHeader (by decide))).flushOutput

theorem length_toString_le (code : Nat) : (CodeUtility.toString code).length ≤ 31 := by
  have hall : ∀ entry ∈ CodeUtility.strings, entry.2.length ≤ 31 := by decide +kernel
  rw [CodeUtility.toString]
  cases hfind : CodeUtility.strings.find? fun entry => entry.1 = uint32 code with
  | none => decide
  | some entry => exact hall entry (mem_of_find?_eq_some hfind)

theorem Idle.encodeResponseHeaders {errno : Bool} (h : o.Idle)
    (hsize : headers.byteSize + 4096 < 4294967296)
    (hencode : o.encodeResponseHeaders evbuffer errno headers endStream = some o') : o'.Idle := by
  obtain ⟨status, -, hencode⟩ := bind_eq_some_iff.mp hencode
  obtain ⟨numericStatus, -, hencode⟩ := bind_eq_some_iff.mp hencode
  obtain ⟨o₂, hadd, hencode⟩ := bind_eq_some_iff.mp hencode
  cases hencode
  have hstring := length_toString_le numericStatus
  obtain ⟨h₀, hroom⟩ := h.inside.reserveBuffer evbuffer 4096
  obtain ⟨h₁, hroom⟩ := h₀.copyToBuffer (ascii "HTTP/1.1 ") 4087 hroom
  obtain ⟨h₂, hroom⟩ := h₁.addIntToBuffer (n := 100) (hroom.mono (by omega)) hadd
  obtain ⟨h₃, hroom⟩ := h₂.addCharToBuffer 32 99 hroom
  obtain ⟨h₄, hroom⟩ := h₃.copyToBuffer (CodeUtility.toString numericStatus) 2
    (hroom.mono (by omega))
  obtain ⟨h₅, hroom⟩ := h₄.addCharToBuffer 13 1 hroom
  obtain ⟨h₆, -⟩ := h₅.addCharToBuffer 10 0 hroom
  exact h₆.encodeHeaders hsize

/-- Something was written outside of a reservation, perhaps of the one that is open. -/
def Outside (o : OutputBuffer) : Prop :=
  o.overran = true ∨ ∃ mem current, o.reserved = some (mem, current) ∧ mem.overrun = true

section

variable (h : o.Outside)
include h

theorem Outside.commit : o.commit.overran = true := by
  cases hreserved : o.reserved with
  | none =>
    rw [commit_of_none hreserved]
    rcases h with h | ⟨mem, current, hmem, -⟩
    · exact h
    · rw [hreserved] at hmem
      cases hmem
  | some reserved =>
    obtain ⟨mem, current⟩ := reserved
    rw [commit_of_some hreserved]
    rcases h with h | ⟨mem', current', hmem, hover⟩
    · simp [h]
    · rw [hreserved] at hmem
      obtain ⟨rfl, rfl⟩ := Prod.mk.inj (Option.some.inj hmem)
      simp [hover]

theorem Outside.reserveBuffer : (o.reserveBuffer evbuffer size).Outside := by
  unfold OutputBuffer.reserveBuffer
  split
  · exact .inl h.commit
  · split
    · exact h
    · exact .inl h.commit

theorem Outside.copyToBuffer : (o.copyToBuffer data).Outside := by
  cases hreserved : o.reserved with
  | none =>
    rw [OutputBuffer.copyToBuffer, hreserved]
    exact .inl rfl
  | some reserved =>
    obtain ⟨mem, current⟩ := reserved
    rw [copyToBuffer_of_some hreserved]
    rcases h with h | ⟨mem', current', hmem, hover⟩
    · exact .inl h
    · rw [hreserved] at hmem
      obtain ⟨rfl, rfl⟩ := Prod.mk.inj (Option.some.inj hmem)
      refine .inr ⟨_, _, rfl, ?_⟩
      rw [Block.memcpy, hover, Bool.true_or]

theorem Outside.encodeHeader : (o.encodeHeader evbuffer key value).Outside :=
  h.reserveBuffer.copyToBuffer.copyToBuffer.copyToBuffer.copyToBuffer.copyToBuffer.copyToBuffer

theorem Outside.encodeEntry : (o.encodeEntry evbuffer entry).Outside := by
  unfold OutputBuffer.encodeEntry
  by_cases hpseudo : (StreamEncoderImpl.keyToUse entry.1.bytes).head? = some 58
  · rw [if_pos hpseudo]
    exact h
  · rw [if_neg hpseudo]
    exact h.encodeHeader

theorem Outside.foldl_encodeEntry :
    (entries.foldl (fun o entry => o.encodeEntry evbuffer entry) o).Outside := by
  induction entries generalizing o with
  | nil => exact h
  | cons entry entries ih => exact ih h.encodeEntry

theorem Outside.flushOutput : o.flushOutput.overran = true := h.commit

end

theorem Outside.endEncode {chunkEncoding : Bool} (h : o.Outside) :
    (o.endEncode chunkEncoding).overran = true := by
  cases chunkEncoding with
  | true => exact Outside.flushOutput (o := o.add _) h
  | false => exact h.flushOutput

theorem Outside.encodeHeaders (h : o.Outside) :
    (o.encodeHeaders evbuffer headers endStream).overran = true := by
  have hentries : (headers.iterate
      (fun entry o => (o.encodeEntry evbuffer entry, .continue)) o).Outside := by
    rw [HeaderMap.iterate, HeaderMap.iterateFrom_continue]
    exact h.foldl_encodeEntry
  rw [OutputBuffer.encodeHeaders]
  by_cases hlen : (headers.value .contentLength).isSome = true
  · simp only [if_pos hlen]
    cases endStream with
    | true => exact hentries.reserveBuffer.copyToBuffer.copyToBuffer.endEncode
    | false => exact hentries.reserveBuffer.copyToBuffer.copyToBuffer.flushOutput
  · simp only [if_neg hlen]
    cases endStream with
    | true => exact hentries.encodeHeader.reserveBuffer.copyToBuffer.copyToBuffer.endEncode
    | false => exact hentries.encodeHeader.reserveBuffer.copyToBuffer.copyToBuffer.flushOutput

theorem outside_of_past (h : o.reserved = some (mem, current)) (data : Bytes)
    (hpast : mem.capacity < current + data.length) : (o.copyToBuffer data).Outside := by
  rw [copyToBuffer_of_some h]
  refine .inr ⟨_, _, rfl, ?_⟩
  rw [Block.memcpy, decide_eq_true hpast, Bool.or_true]

/-- The method, the path and what is between and behind them fit into the space that the buffer
hands out for the path and 4096 bytes. -/
def RequestLineFits (evbuffer : Evbuffer) (o : OutputBuffer) (headers : HeaderMap) : Prop :=
  ∀ method path, headers.value .method = some method → headers.value .path = some path →
    method.bytes.length + path.bytes.length + 12 ≤
      (evbuffer.reserve o.reserveCalls (path.bytes.length + 4096)).capacity

theorem Idle.reserveBuffer (h : o.Idle) (evbuffer : Evbuffer) (size : Nat)
    (hsize : size + 4096 < 4294967296) :
    (o.reserveBuffer evbuffer (max 4096 (uint32 (size + 4096)))).reserved =
      some (evbuffer.reserve o.reserveCalls (size + 4096), 0) := by
  have hmax : max 4096 (max 4096 (uint32 (size + 4096))) = size + 4096 := by
    rw [uint32_of_lt hsize]
    omega
  rw [OutputBuffer.reserveBuffer, h.reserved]
  exact congrArg (fun n => some (evbuffer.reserve o.reserveCalls n, 0)) hmax

theorem Idle.encodeRequestHeaders (h : o.Idle) (hsize : headers.byteSize + 4096 < 4294967296)
    (hencode : o.encodeRequestHeaders evbuffer headers endStream = some o')
    (hfits : RequestLineFits evbuffer o headers) : o'.Idle := by
  obtain ⟨method, hmethod, hencode⟩ := bind_eq_some_iff.mp hencode
  obtain ⟨path, hpath, hencode⟩ := bind_eq_some_iff.mp hencode
  cases hencode
  have hline := hfits method path hmethod hpath
  have hlength := length_value_le hpath
  have hreserved := h.reserveBuffer evbuffer path.bytes.length (by omega)
  obtain ⟨h₀, -⟩ := h.inside.reserveBuffer evbuffer
    (max 4096 (uint32 (path.bytes.length + 4096)))
  obtain ⟨h₁, hroom⟩ := h₀.copyToBuffer method.bytes (path.bytes.length + 12)
    ⟨_, _, hreserved, by omega⟩
  obtain ⟨h₂, hroom⟩ := h₁.addCharToBuffer 32 (path.bytes.length + 11) hroom
  obtain ⟨h₃, hroom⟩ := h₂.copyToBuffer path.bytes 11 hroom
  obtain ⟨h₄, -⟩ := h₃.copyToBuffer requestPostfix 0 hroom
  exact h₄.encodeHeaders hsize

/-- Where the request line does not fit, the last of it is written outside at the latest. -/
theorem Idle.encodeRequestHeaders_outside {method path : HeaderString} (h : o.Idle)
    (hsize : headers.byteSize + 4096 < 4294967296)
    (hmethod : headers.value .method = some method) (hpath : headers.value .path = some path)
    (hlong : (evbuffer.reserve o.reserveCalls (path.bytes.length + 4096)).capacity <
      method.bytes.length + path.bytes.length + 12)
    (hencode : o.encodeRequestHeaders evbuffer headers endStream = some o') :
    o'.overran = true := by
  have hlength := length_value_le hpath
  have hreserved := h.reserveBuffer evbuffer path.bytes.length (by omega)
  simp only [OutputBuffer.encodeRequestHeaders, hmethod, hpath, bind_eq_bind, bind_some] at hencode
  cases hencode
  have h₁ := reserved_copyToBuffer hreserved method.bytes
  have h₂ := reserved_copyToBuffer h₁ [32]
  have h₃ := reserved_copyToBuffer h₂ path.bytes
  have hpostfix : requestPostfix.length = 11 := by decide
  have hpast := outside_of_past h₃ requestPostfix (by
    simp only [capacity_memcpy, hpostfix, length_singleton]
    omega)
  exact hpast.encodeHeaders

/-- Between two messages, a request is written inside of its reservations, and all that was
written is sent, if and only if its first line fits. A response always is. -/
theorem encodeHeaders_inside_iff (evbuffer : Evbuffer) {o : OutputBuffer} (hidle : o.Idle)
    {headers : HeaderMap} (hsize : headers.byteSize + 4096 < 4294967296) (errno endStream : Bool) :
    (∀ o', o.encodeRequestHeaders evbuffer headers endStream = some o' →
      (o'.Idle ↔ RequestLineFits evbuffer o headers)) ∧
    ∀ o', o.encodeResponseHeaders evbuffer errno headers endStream = some o' → o'.Idle := by
  refine ⟨?_, fun o' hencode => hidle.encodeResponseHeaders hsize hencode⟩
  intro o' hencode
  refine ⟨?_, hidle.encodeRequestHeaders hsize hencode⟩
  intro hinside method path hmethod hpath
  by_contra hlong
  have houtside := hidle.encodeRequestHeaders_outside hsize hmethod hpath (by omega) hencode
  rw [hinside.overran] at houtside
  cases houtside

/-! ## What is written

The encoder of the messages, without reservations, writes the same bytes. -/

def Writes (base : Bytes) (o : OutputBuffer) (s : Option StreamEncoderImpl) : Prop :=
  ∀ t, s = some t → o.written = base ++ t.output

variable {base : Bytes} {s : Option StreamEncoderImpl} {t t' : StreamEncoderImpl}

theorem written_commit : o.commit.written = o.written := by
  unfold OutputBuffer.commit
  split <;> rfl

theorem written_reserveBuffer : (o.reserveBuffer evbuffer size).written = o.written := by
  unfold OutputBuffer.reserveBuffer
  split
  · exact written_commit
  · split
    · rfl
    · exact written_commit

theorem written_copyToBuffer : (o.copyToBuffer data).written = o.written ++ data := by
  unfold OutputBuffer.copyToBuffer
  split <;> rfl

theorem written_addCharToBuffer (c : UInt8) :
    (o.addCharToBuffer c).written = o.written ++ [c] := written_copyToBuffer

theorem written_flushOutput : o.flushOutput.written = o.written := written_commit

theorem written_encodeHeader : (o.encodeHeader evbuffer key value).written =
    o.written ++ (key ++ ascii ": " ++ value ++ crlf) := by
  simp only [OutputBuffer.encodeHeader, written_addCharToBuffer, written_copyToBuffer,
    written_reserveBuffer, append_assoc]
  rfl

theorem Writes.encodeHeader (h : Writes base o (some t))
    (hencode : t.encodeHeader key value = some t') :
    Writes base (o.encodeHeader evbuffer key value) (some t') := by
  rintro _ ⟨⟩
  obtain ⟨-, hencode⟩ := ite_none_left_eq_some.mp hencode
  cases hencode
  rw [written_encodeHeader, h t rfl, append_assoc]
  rfl

theorem Writes.encodeEntry (h : Writes base o s) :
    Writes base (o.encodeEntry evbuffer entry) (StreamEncoderImpl.encodeEntry entry s) := by
  unfold OutputBuffer.encodeEntry StreamEncoderImpl.encodeEntry
  by_cases hpseudo : (StreamEncoderImpl.keyToUse entry.1.bytes).head? = some 58
  · simp only [if_pos hpseudo]
    exact h
  · simp only [if_neg hpseudo]
    intro t' ht'
    obtain ⟨t, rfl, hencode⟩ := bind_eq_some_iff.mp ht'
    exact h.encodeHeader hencode t' rfl

theorem Writes.foldl_encodeEntry (h : Writes base o s) :
    Writes base (entries.foldl (fun o entry => o.encodeEntry evbuffer entry) o)
      (entries.foldl (fun s entry => StreamEncoderImpl.encodeEntry entry s) s) := by
  induction entries generalizing o s with
  | nil => exact h
  | cons entry entries ih => exact ih h.encodeEntry

theorem Writes.end (h : Writes base o (some t)) :
    (((o.reserveBuffer evbuffer 2).addCharToBuffer 13).addCharToBuffer 10).written =
      base ++ (t.write crlf).output := by
  rw [written_addCharToBuffer, written_addCharToBuffer, written_reserveBuffer, h t rfl,
    append_assoc, append_assoc]
  exact congrArg (base ++ ·) rfl

theorem Writes.encodeHeaders (h : Writes base o (some t))
    (hencode : t.encodeHeaders headers endStream = some t') :
    (o.encodeHeaders evbuffer headers endStream).written = base ++ t'.output := by
  obtain ⟨t₁, hiterate, hencode⟩ := bind_eq_some_iff.mp hencode
  have hentries : Writes base
      (headers.iterate (fun entry o => (o.encodeEntry evbuffer entry, .continue)) o)
      (some t₁) := by
    rw [← hiterate, HeaderMap.iterate, HeaderMap.iterate, HeaderMap.iterateFrom_continue,
      HeaderMap.iterateFrom_continue]
    exact h.foldl_encodeEntry
  rw [OutputBuffer.encodeHeaders]
  obtain ⟨-, hencode⟩ := ite_none_left_eq_some.mp hencode
  by_cases hlen : (headers.value .contentLength).isSome = true
  · simp only [if_pos hlen] at hencode ⊢
    cases hencode
    cases endStream with
    | true | false => exact written_flushOutput.trans hentries.end
  · simp only [if_neg hlen] at hencode ⊢
    cases endStream with
    | true =>
      rw [if_pos rfl] at hencode
      obtain ⟨t₂, hframe, hencode⟩ := bind_eq_some_iff.mp hencode
      obtain ⟨t₃, hheader, rfl⟩ := map_eq_some_iff.mp hframe
      cases hencode
      exact written_flushOutput.trans (hentries.encodeHeader hheader).end
    | false =>
      rw [if_neg Bool.false_ne_true] at hencode
      obtain ⟨t₂, hframe, hencode⟩ := bind_eq_some_iff.mp hencode
      obtain ⟨t₃, hheader, rfl⟩ := map_eq_some_iff.mp hframe
      cases hencode
      exact written_flushOutput.trans (hentries.encodeHeader hheader).end

/-- A request that fits is sent as the encoder writes it. -/
theorem Idle.request_sent {r r' : RequestStreamEncoderImpl} (h : o.Idle)
    (hsize : headers.byteSize + 4096 < 4294967296) (hfits : RequestLineFits evbuffer o headers)
    (hbase : o.sent = base ++ r.stream.output)
    (hencode : r.encodeHeaders headers endStream = some r') :
    ∃ o', o.encodeRequestHeaders evbuffer headers endStream = some o' ∧ o'.Idle ∧
      o'.sent = base ++ r'.stream.output := by
  obtain ⟨method, hmethod, hencode⟩ := bind_eq_some_iff.mp hencode
  obtain ⟨path, hpath, hencode⟩ := bind_eq_some_iff.mp hencode
  obtain ⟨stream, hstream, hencode⟩ := bind_eq_some_iff.mp hencode
  cases hencode
  obtain ⟨o', ho'⟩ : ∃ o', o.encodeRequestHeaders evbuffer headers endStream = some o' := by
    rw [OutputBuffer.encodeRequestHeaders, hmethod, hpath]
    exact ⟨_, rfl⟩
  have hidle := h.encodeRequestHeaders hsize ho' hfits
  refine ⟨o', ho', hidle, hidle.account.trans ?_⟩
  rw [OutputBuffer.encodeRequestHeaders, hmethod, hpath] at ho'
  cases ho'
  apply Writes.encodeHeaders _ hstream
  rintro _ ⟨⟩
  rw [written_copyToBuffer, written_copyToBuffer, written_addCharToBuffer, written_copyToBuffer,
    written_reserveBuffer, ← h.account, hbase]
  simp only [StreamEncoderImpl.write, append_assoc]
  rfl

/-- The chunks of libevent: a power of two for the space and the 48 bytes of the chunk itself. -/
def libevent : Evbuffer where
  reserve _ size := .malloc (fun _ => 0) (2 ^ Nat.clog 2 (size + 48) - 48)
  enough := by
    intro _ size
    have hle := Nat.le_pow_clog (by decide : 1 < 2) (size + 48)
    rw [capacity_malloc]
    omega
  unwritten _ _ := rfl

def idle : OutputBuffer := ⟨none, 0, [], [], false, []⟩

theorem idle_idle : idle.Idle := ⟨rfl, rfl, rfl, rfl⟩

variable (method : Bytes)

def requestHeaders : HeaderMap :=
  (HeaderMap.new.insertInline .method fun _ => .setReference method).insertInline .path
    fun _ => .setReference (ascii "/")

theorem byteSize_requestHeaders :
    (requestHeaders method).byteSize = 7 + method.length + 6 := rfl

theorem method_requestHeaders :
    (requestHeaders method).value .method = some ⟨.reference, method⟩ := rfl

theorem path_requestHeaders :
    (requestHeaders method).value .path = some ⟨.reference, ascii "/"⟩ := rfl

theorem encodeHeaders_inside_iff_sample :
    (∀ o', idle.encodeRequestHeaders libevent (requestHeaders (ascii "GET")) true = some o' →
      (o'.Idle ↔ RequestLineFits libevent idle (requestHeaders (ascii "GET")))) ∧
    ∀ o', idle.encodeResponseHeaders libevent false (requestHeaders (ascii "GET")) true = some o' →
      o'.Idle := encodeHeaders_inside_iff libevent idle_idle (by decide) false true

theorem request_sent_get :
    ∃ r o, RequestStreamEncoderImpl.create.encodeHeaders (requestHeaders (ascii "GET")) true = some r ∧
      idle.encodeRequestHeaders libevent (requestHeaders (ascii "GET")) true = some o ∧ o.Idle ∧
      o.sent = [] ++ r.stream.output := by
  have hfits : RequestLineFits libevent idle (requestHeaders (ascii "GET")) := by
    rintro _ _ ⟨⟩ ⟨⟩
    exact le_trans (by decide : 3 + 1 + 12 ≤ 1 + 4096) (libevent.enough _ _)
  exact ⟨_, (idle_idle.request_sent (by decide) hfits rfl rfl).imp fun _ h => ⟨rfl, h⟩⟩

/-- For a path of one byte 4097 bytes are asked for, and 8144 handed out. -/
theorem capacity_libevent : (libevent.reserve 0 4097).capacity ≤ 8144 := by
  have hclog : Nat.clog 2 (4097 + 48) ≤ 13 := Nat.clog_le_of_le_pow (by decide)
  have hcapacity : 2 ^ Nat.clog 2 (4097 + 48) ≤ 2 ^ 13 := Nat.pow_le_pow_right (by decide) hclog
  rw [libevent, capacity_malloc]
  omega

theorem method_outside {method : Bytes} (hlong : 8132 ≤ method.length)
    (hsize : method.length < 65536) :
    ∃ o', idle.encodeRequestHeaders libevent (requestHeaders method) true = some o' ∧
      ¬ o'.Idle := by
  have hcapacity := capacity_libevent
  have hbytes := byteSize_requestHeaders method
  obtain ⟨o', ho'⟩ : ∃ o',
      idle.encodeRequestHeaders libevent (requestHeaders method) true = some o' := by
    rw [OutputBuffer.encodeRequestHeaders, method_requestHeaders, path_requestHeaders]
    exact ⟨_, rfl⟩
  have hpast : (libevent.reserve 0 ((ascii "/").length + 4096)).capacity <
      method.length + (ascii "/").length + 12 := by
    have hslash : (ascii "/").length = 1 := rfl
    rw [hslash]
    exact Nat.lt_of_le_of_lt hcapacity (by omega)
  have hoverran := idle_idle.encodeRequestHeaders_outside (by omega) (method_requestHeaders method)
    (path_requestHeaders method) hpast ho'
  refine ⟨o', ho', fun hidle => ?_⟩
  rw [hidle.overran] at hoverran
  cases hoverran

theorem longMethod_outside :
    ∃ o', idle.encodeRequestHeaders libevent (requestHeaders (List.replicate 16384 65)) true =
      some o' ∧ ¬ o'.Idle := by
  apply method_outside
  · rw [length_replicate]
    decide
  · rw [length_replicate]
    decide

end Meliproxy.Envoy.Http.Http1.OutputBuffer
