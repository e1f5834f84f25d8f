import Meliproxy.Lib.Text
import Mathlib.Data.Nat.Bitwise

/-!
# Frames of gRPC

`newFrame` and `decode` of `grpc/codec.cc`. A buffer is the list of its slices. The decoder copies
as much of a payload as the slice has, and it keeps what it has read of a frame from call to call.
`feed` is the same machine for one byte at a time, which does not know about slices.
-/

namespace Meliproxy.Envoy.Grpc.Codec

open Lib List Option

def GRPC_FH_COMPRESSED : UInt8 := 1

/-- `data` is a pointer. -/
structure Frame where
  flags : UInt8
  length : UInt32
  data : Option Bytes

def newFrame (flags : UInt8) (length : UInt64) : Bytes :=
  [flags, (length >>> 24).toUInt8, (length >>> 16).toUInt8, (length >>> 8).toUInt8, length.toUInt8]

inductive DecoderState where
  | fhFlag
  | fhLen0
  | fhLen1
  | fhLen2
  | fhLen3
  | data

structure Decoder where
  state : DecoderState
  frame : Frame

def start : Decoder := ⟨.fhFlag, ⟨0, 0, none⟩⟩

/-- What was returned, and the frames that were put out so far. -/
structure Decoded where
  ok : Bool
  decoder : Decoder
  output : List Frame

/-- The loop over a slice, one turn for each byte at most. There is no result where a null pointer
would be used. A frame that is moved leaves a null pointer behind. -/
def decodeSlice : Nat → Decoder → Bytes → List Frame → Option Decoded
  | _, d, [], output => some ⟨true, d, output⟩
  | 0, _, _ :: _, _ => none
  | fuel + 1, d, c :: mem, output =>
    match d.state with
    | .fhFlag =>
      if c &&& ~~~GRPC_FH_COMPRESSED ≠ 0 then some ⟨false, d, output⟩
      else decodeSlice fuel ⟨.fhLen0, { d.frame with flags := c }⟩ mem output
    | .fhLen0 =>
      decodeSlice fuel ⟨.fhLen1, { d.frame with length := c.toUInt32 <<< 24 }⟩ mem output
    | .fhLen1 =>
      decodeSlice fuel ⟨.fhLen2, { d.frame with length := d.frame.length ||| c.toUInt32 <<< 16 }⟩
        mem output
    | .fhLen2 =>
      decodeSlice fuel ⟨.fhLen3, { d.frame with length := d.frame.length ||| c.toUInt32 <<< 8 }⟩
        mem output
    | .fhLen3 =>
      let frame := { d.frame with length := d.frame.length ||| c.toUInt32 }
      if frame.length = 0 then
        decodeSlice fuel ⟨.fhFlag, { frame with data := none }⟩ mem (output ++ [frame])
      else decodeSlice fuel ⟨.data, { frame with data := some [] }⟩ mem output
    | .data =>
      match d.frame.data with
      | none => none
      | some data =>
        let remainInBuffer := (c :: mem).length
        let remainInFrame := d.frame.length.toNat - data.length
        let count := if remainInBuffer ≤ remainInFrame then remainInBuffer else remainInFrame
        let data := data ++ (c :: mem).take count
        let frame := { d.frame with data := some data }
        if frame.length.toNat = data.length then
          decodeSlice fuel ⟨.fhFlag, ⟨0, 0, none⟩⟩ ((c :: mem).drop count) (output ++ [frame])
        else decodeSlice fuel ⟨.data, frame⟩ ((c :: mem).drop count) output

def decodeSlices (d : Decoder) (output : List Frame) : List Bytes → Option Decoded
  | [] => some ⟨true, d, output⟩
  | slice :: slices =>
    (decodeSlice slice.length d slice output).bind fun r =>
      if r.ok then decodeSlices r.decoder r.output slices else some r

def decode (d : Decoder) (input : List Bytes) (output : List Frame) :
    Option (Decoded × List Bytes) :=
  (decodeSlices d output input).map fun r => (r, if r.ok then [] else input)

/-- Calls of `decode` up to the first one that fails, with what each of them leaves. -/
def decodeCalls (d : Decoder) (output : List Frame) :
    List (List Bytes) → Option (Decoded × List (List Bytes))
  | [] => some (⟨true, d, output⟩, [])
  | input :: inputs =>
    (decode d input output).bind fun (r, left) =>
      if r.ok then (decodeCalls r.decoder r.output inputs).map fun (r, rest) => (r, left :: rest)
      else some (r, [left])

def feedByte (d : Decoder) (c : UInt8) : Option (Decoder × List Frame) :=
  match d.state with
  | .fhFlag =>
    if c &&& ~~~GRPC_FH_COMPRESSED ≠ 0 then none
    else some (⟨.fhLen0, { d.frame with flags := c }⟩, [])
  | .fhLen0 => some (⟨.fhLen1, { d.frame with length := c.toUInt32 <<< 24 }⟩, [])
  | .fhLen1 =>
    some (⟨.fhLen2, { d.frame with length := d.frame.length ||| c.toUInt32 <<< 16 }⟩, [])
  | .fhLen2 =>
    some (⟨.fhLen3, { d.frame with length := d.frame.length ||| c.toUInt32 <<< 8 }⟩, [])
  | .fhLen3 =>
    let frame := { d.frame with length := d.frame.length ||| c.toUInt32 }
    if frame.length = 0 then some (⟨.fhFlag, { frame with data := none }⟩, [frame])
    else some (⟨.data, { frame with data := some [] }⟩, [])
  | .data =>
    let data := d.frame.data.getD [] ++ [c]
    let frame := { d.frame with data := some data }
    if frame.length.toNat = data.length then some (⟨.fhFlag, ⟨0, 0, none⟩⟩, [frame])
    else some (⟨.data, frame⟩, [])

def feed (d : Decoder) (output : List Frame) : Bytes → Decoded
  | [] => ⟨true, d, output⟩
  | c :: mem =>
    match feedByte d c with
    | none => ⟨false, d, output⟩
    | some (d, frames) => feed d (output ++ frames) mem

/-- There is a buffer in the state `data` only, and it is not full. -/
def Valid (d : Decoder) : Prop :=
  match d.state with
  | .data => ∃ data, d.frame.data = some data ∧ data.length < d.frame.length.toNat
  | _ => d.frame.data = none

variable {d : Decoder}

theorem Valid.data_eq (h : Valid d) (hstate : d.state ≠ .data) : d.frame.data = none := by
  unfold Valid at h
  split at h
  · rename_i hdata
    exact absurd hdata hstate
  · exact h

theorem feedByte_valid {d' : Decoder} {c : UInt8} {frames : List Frame} (h : Valid d)
    (hfeed : feedByte d c = some (d', frames)) : Valid d' := by
  obtain ⟨state, frame⟩ := d
  cases state with
  | fhFlag =>
    simp only [feedByte] at hfeed
    split at hfeed
    · cases hfeed
    · cases hfeed
      exact h
  | fhLen0 | fhLen1 | fhLen2 => cases hfeed; exact h
  | fhLen3 =>
    simp only [feedByte] at hfeed
    split at hfeed
    · cases hfeed
      rfl
    · rename_i hlength
      cases hfeed
      refine ⟨[], rfl, Nat.pos_of_ne_zero fun hzero => hlength ?_⟩
      exact UInt32.toNat_inj.mp hzero
  | data =>
    obtain ⟨data, hdata, hlt⟩ := h
    simp only [feedByte] at hfeed
    split at hfeed
    · cases hfeed
      rfl
    · rename_i hlength
      cases hfeed
      refine ⟨_, rfl, ?_⟩
      simp only at hdata hlt hlength ⊢
      rw [hdata, getD_some, length_append, length_singleton] at hlength ⊢
      omega

theorem feed_valid (h : Valid d) (output : List Frame) (mem : Bytes) :
    Valid (feed d output mem).decoder := by
  induction mem generalizing d output with
  | nil => exact h
  | cons c mem ih =>
    rw [feed]
    split
    · exact h
    · rename_i hfeed
      exact ih (feedByte_valid h hfeed) _

theorem feed_append (d : Decoder) (output : List Frame) (mem rest : Bytes) :
    feed d output (mem ++ rest) = if (feed d output mem).ok then
        feed (feed d output mem).decoder (feed d output mem).output rest
      else feed d output mem := by
  induction mem generalizing d output with
  | nil => rfl
  | cons c mem ih =>
    rw [cons_append, feed, feed]
    cases hfeed : feedByte d c with
    | none => rfl
    | some fed => exact ih fed.1 _

theorem feed_data (frame : Frame) (data mem : Bytes) (output : List Frame)
    (hlt : data.length < frame.length.toNat) (hle : data.length + mem.length ≤ frame.length.toNat) :
    feed ⟨.data, { frame with data := some data }⟩ output mem =
      if frame.length.toNat = (data ++ mem).length then
        ⟨true, ⟨.fhFlag, ⟨0, 0, none⟩⟩, output ++ [{ frame with data := some (data ++ mem) }]⟩
      else ⟨true, ⟨.data, { frame with data := some (data ++ mem) }⟩, output⟩ := by
  induction mem generalizing data with
  | nil =>
    rw [append_nil, if_neg (by omega)]
    rfl
  | cons c mem ih =>
    rw [length_cons] at hle
    have happend : data ++ c :: mem = data ++ [c] ++ mem := by simp
    rw [feed, feedByte]
    simp only [getD_some]
    by_cases hfull : frame.length.toNat = (data ++ [c]).length
    · have hnil : mem = [] := by
        rw [length_append, length_singleton] at hfull
        exact length_eq_zero_iff.mp (by omega)
      rw [hnil, if_pos hfull, if_pos hfull]
      rfl
    · have hnext : (data ++ [c]).length < frame.length.toNat := by
        rw [length_append, length_singleton] at hfull ⊢
        omega
      rw [if_neg hfull]
      simp only [append_nil]
      rw [ih (data ++ [c]) hnext (by simp only [length_append, length_singleton]; omega),
        happend]

/-- The loop over a slice does what the bytes do one by one. -/
theorem decodeSlice_eq_feed {fuel : Nat} {mem : Bytes} (h : Valid d) (hfuel : mem.length ≤ fuel)
    (output : List Frame) : decodeSlice fuel d mem output = some (feed d output mem) := by
  induction fuel generalizing d mem output with
  | zero =>
    rw [length_eq_zero_iff.mp (Nat.le_zero.mp hfuel)]
    rfl
  | succ fuel ih =>
    cases mem with
    | nil => rfl
    | cons c mem =>
      rw [length_cons] at hfuel
      have hmem : mem.length ≤ fuel := by omega
      have hdata (hne : d.state ≠ .data) : d.frame.data = none := h.data_eq hne
      cases hstate : d.state with
      | data =>
        clear hdata
        obtain ⟨state, frame⟩ := d
        cases hstate
        obtain ⟨data, hdata, hlt⟩ := h
        simp only at hdata hlt
        rw [decodeSlice]
        simp only [hdata]
        generalize hcount : (if (c :: mem).length ≤ frame.length.toNat - data.length then
          (c :: mem).length else frame.length.toNat - data.length) = count
        have hbounds : 0 < count ∧ count ≤ (c :: mem).length ∧
            data.length + count ≤ frame.length.toNat := by
          rw [length_cons] at hcount ⊢
          split at hcount <;> omega
        have htake : ((c :: mem).take count).length = count := length_take_of_le hbounds.2.1
        have hdrop : ((c :: mem).drop count).length ≤ fuel := by
          rw [length_drop, length_cons]
          omega
        have hframe : frame = { frame with data := some data } := by rw [← hdata]
        have hfeed := feed_data frame data ((c :: mem).take count) output hlt (by omega)
        rw [← hframe] at hfeed
        conv_rhs => rw [← take_append_drop count (c :: mem), feed_append, hfeed]
        by_cases hfull : frame.length.toNat = (data ++ (c :: mem).take count).length
        · rw [if_pos hfull, if_pos hfull, ih (d := ⟨.fhFlag, ⟨0, 0, none⟩⟩) rfl hdrop]
          rfl
        · rw [if_neg hfull, if_neg hfull, ih _ hdrop]
          · rfl
          · refine ⟨_, rfl, ?_⟩
            rw [length_append, htake] at hfull ⊢
            simp only
            omega
      | fhFlag =>
        rw [decodeSlice, feed, feedByte]
        simp only [hstate]
        by_cases hflag : c &&& ~~~GRPC_FH_COMPRESSED ≠ 0
        · rw [if_pos hflag, if_pos hflag]
        · rw [if_neg hflag, if_neg hflag]
          simp only [append_nil]
          refine ih ?_ hmem output
          exact hdata (by rw [hstate]; exact nofun)
      | fhLen3 =>
        rw [decodeSlice, feed, feedByte]
        simp only [hstate]
        by_cases hzero : d.frame.length ||| c.toUInt32 = 0
        · rw [if_pos hzero, if_pos hzero]
          refine ih (d := ⟨.fhFlag, _⟩) ?_ hmem _
          rfl
        · rw [if_neg hzero, if_neg hzero]
          simp only [append_nil]
          refine ih (d := ⟨.data, _⟩) ⟨[], rfl, ?_⟩ hmem output
          exact Nat.pos_of_ne_zero fun heq => hzero (UInt32.toNat_inj.mp heq)
      | _ =>
        rw [decodeSlice, feed, feedByte]
        simp only [hstate, append_nil]
        refine ih ?_ hmem output
        exact hdata (by rw [hstate]; exact nofun)

theorem decodeSlices_eq_feed (h : Valid d) (output : List Frame) (slices : List Bytes) :
    decodeSlices d output slices = some (feed d output slices.flatten) := by
  induction slices generalizing d output with
  | nil => rfl
  | cons slice slices ih =>
    rw [decodeSlices, decodeSlice_eq_feed h (Nat.le_refl _), bind_some, flatten_cons, feed_append]
    split
    · exact ih (feed_valid h _ _) _
    · rfl

theorem decode_eq_feed (h : Valid d) (output : List Frame) (input : List Bytes) :
    decode d input output = some (feed d output input.flatten,
      if (feed d output input.flatten).ok then [] else input) := by
  rw [decode, decodeSlices_eq_feed h, map_some]

theorem decodeCalls_of_ok (h : Valid d) (output : List Frame) (inputs : List (List Bytes))
    (hok : (feed d output inputs.flatten.flatten).ok = true) : decodeCalls d output inputs =
      some (feed d output inputs.flatten.flatten, inputs.map fun _ => []) := by
  induction inputs generalizing d output with
  | nil => rfl
  | cons input inputs ih =>
    rw [flatten_cons, flatten_append, feed_append] at hok ⊢
    rw [decodeCalls, decode_eq_feed h, bind_some]
    by_cases hfirst : (feed d output input.flatten).ok = true
    · rw [if_pos hfirst] at hok ⊢
      simp only [if_pos hfirst]
      rw [ih (feed_valid h _ _) _ hok]
      rfl
    · rw [if_neg hfirst] at hok
      exact absurd hok hfirst

theorem decodeCalls_of_not_ok (h : Valid d) (output : List Frame) (inputs : List (List Bytes))
    (hfail : (feed d output inputs.flatten.flatten).ok = false) :
    ∃ before input after, inputs = before ++ input :: after ∧
      (feed d output before.flatten.flatten).ok = true ∧
      (feed d output (before ++ [input]).flatten.flatten).ok = false ∧ decodeCalls d output inputs =
        some (feed d output inputs.flatten.flatten, before.map (fun _ => []) ++ [input]) := by
  induction inputs generalizing d output with
  | nil => cases hfail
  | cons input inputs ih =>
    have hflat : (input :: inputs).flatten.flatten = input.flatten ++ inputs.flatten.flatten := by
      rw [flatten_cons, flatten_append]
    by_cases hfirst : (feed d output input.flatten).ok = true
    · have hrest := hfail
      rw [hflat, feed_append, if_pos hfirst] at hrest
      obtain ⟨before, last, after, rfl, hbefore, hlast, hcalls⟩ :=
        ih (feed_valid h output input.flatten) _ hrest
      refine ⟨input :: before, last, after, rfl, ?_, ?_, ?_⟩
      · rw [flatten_cons, flatten_append, feed_append, if_pos hfirst, hbefore]
      · rw [cons_append, flatten_cons, flatten_append, feed_append, if_pos hfirst, hlast]
      · rw [decodeCalls, decode_eq_feed h, bind_some]
        simp only [if_pos hfirst]
        rw [hcalls, hflat, feed_append, if_pos hfirst]
        rfl
    · have hfirst' := Bool.eq_false_iff.mpr hfirst
      refine ⟨[], input, inputs, rfl, rfl, ?_, ?_⟩
      · rw [nil_append, flatten_cons, flatten_nil, append_nil, hfirst']
      · rw [decodeCalls, decode_eq_feed h, bind_some]
        simp only [if_neg hfirst]
        rw [hflat, feed_append, if_neg hfirst]
        rfl

/-- What the encoder is given. -/
structure Message where
  flags : UInt8
  payload : Bytes
  flags_le : flags ≤ 1
  payload_lt : payload.length < 2 ^ 32

def Message.encode (message : Message) : Bytes :=
  newFrame message.flags (UInt64.ofNat message.payload.length) ++ message.payload

def Message.frame (message : Message) : Frame :=
  ⟨message.flags, UInt32.ofNat message.payload.length,
    if message.payload = [] then none else some message.payload⟩

def Idle (d : Decoder) : Prop := d.state = .fhFlag ∧ d.frame.data = none

theorem Idle.valid (h : Idle d) : Valid d := by
  rw [Valid, h.1]
  exact h.2

theorem flag_iff (c : UInt8) : c &&& ~~~GRPC_FH_COMPRESSED ≠ 0 ↔ ¬ c ≤ 1 := by
  have hall : ∀ n : Fin 256,
      UInt8.ofFin n &&& ~~~GRPC_FH_COMPRESSED ≠ 0 ↔ ¬ UInt8.ofFin n ≤ 1 := by
    decide +kernel
  exact hall c.toFin

theorem length_bytes (length : UInt64) :
    (length >>> 24).toUInt8.toUInt32 <<< 24 ||| (length >>> 16).toUInt8.toUInt32 <<< 16 |||
      (length >>> 8).toUInt8.toUInt32 <<< 8 ||| length.toUInt8.toUInt32 = length.toUInt32 := by
  apply UInt32.toNat_inj.mp
  simp only [UInt32.toNat_or, UInt32.toNat_shiftLeft, UInt8.toNat_toUInt32, UInt64.toNat_toUInt8,
    UInt64.toNat_shiftRight, UInt64.toNat_toUInt32]
  change (((length.toNat >>> 24 % 2 ^ 8) <<< 24 % 2 ^ 32 |||
      (length.toNat >>> 16 % 2 ^ 8) <<< 16 % 2 ^ 32) |||
      (length.toNat >>> 8 % 2 ^ 8) <<< 8 % 2 ^ 32) ||| length.toNat % 2 ^ 8 =
    length.toNat % 2 ^ 32
  apply Nat.eq_of_testBit_eq
  intro i
  simp only [Nat.testBit_or, Nat.testBit_mod_two_pow, Nat.testBit_shiftLeft, Nat.testBit_shiftRight]
  grind

theorem feed_newFrame (h : Idle d) (output : List Frame) {flags : UInt8} (hflags : flags ≤ 1)
    (length : UInt64) (rest : Bytes) : feed d output (newFrame flags length ++ rest) =
      if length.toUInt32 = 0 then
        feed ⟨.fhFlag, ⟨flags, 0, none⟩⟩ (output ++ [⟨flags, 0, none⟩]) rest
      else feed ⟨.data, ⟨flags, length.toUInt32, some []⟩⟩ output rest := by
  obtain ⟨state, frame⟩ := d
  obtain ⟨rfl, hdata⟩ := h
  simp only at hdata
  have hflag : ¬ (flags &&& ~~~GRPC_FH_COMPRESSED ≠ 0) := fun hne => (flag_iff flags).mp hne hflags
  simp only [newFrame, cons_append, nil_append, feed, feedByte, if_neg hflag,
    append_nil, length_bytes, hdata]
  by_cases hzero : length.toUInt32 = 0
  · simp only [hzero, if_pos]
  · simp [if_neg hzero]

theorem feed_message (h : Idle d) (output : List Frame) (message : Message) : ∃ d', Idle d' ∧
      feed d output message.encode = ⟨true, d', output ++ [message.frame]⟩ := by
  have hlength : (UInt64.ofNat message.payload.length).toUInt32 =
      UInt32.ofNat message.payload.length := by
    apply UInt32.toNat_inj.mp
    simp only [UInt64.toNat_toUInt32, UInt64.toNat_ofNat', UInt32.toNat_ofNat']
    omega
  have hsize : (UInt32.ofNat message.payload.length).toNat = message.payload.length := by
    rw [UInt32.toNat_ofNat', Nat.mod_eq_of_lt message.payload_lt]
  rw [Message.encode, feed_newFrame h output message.flags_le, hlength, Message.frame]
  by_cases hnil : message.payload = []
  · refine ⟨⟨.fhFlag, ⟨message.flags, 0, none⟩⟩, ⟨rfl, rfl⟩, ?_⟩
    rw [hnil]
    rfl
  · have hpos := length_pos_of_ne_nil hnil
    have hne : UInt32.ofNat message.payload.length ≠ 0 := by
      intro hzero
      rw [hzero] at hsize
      have h0 : (0 : UInt32).toNat = 0 := rfl
      omega
    refine ⟨⟨.fhFlag, ⟨0, 0, none⟩⟩, ⟨rfl, rfl⟩, ?_⟩
    rw [if_neg hne, if_neg hnil]
    have hfeed := feed_data ⟨message.flags, UInt32.ofNat message.payload.length, none⟩ []
      message.payload output (by rw [hsize]; exact hpos) (by rw [hsize]; simp)
    rw [hfeed, if_pos (by rw [hsize]; rfl)]
    rfl

theorem feed_messages (h : Idle d) (output : List Frame) (messages : List Message) :
    ∃ d', Idle d' ∧ feed d output (messages.flatMap Message.encode) =
      ⟨true, d', output ++ messages.map Message.frame⟩ := by
  induction messages generalizing d output with
  | nil => exact ⟨d, h, by rw [map_nil, append_nil]; rfl⟩
  | cons message messages ih =>
    obtain ⟨d₁, h₁, heq₁⟩ := feed_message h output message
    obtain ⟨d', h', heq'⟩ := ih h₁ (output ++ [message.frame])
    refine ⟨d', h', ?_⟩
    rw [flatMap_cons, feed_append, heq₁, if_pos rfl, heq', map_cons, append_assoc]
    rfl

/-- However the stream is cut, the frames come out of it as they were encoded, and the decoder
waits for the next one. Where there is a byte that is no flag instead, the call that comes to it
returns false, with those frames and not another one, and leaves its input. -/
theorem decodeCalls_messages (messages : List Message) (inputs : List (List Bytes)) :
    (inputs.flatten.flatten = messages.flatMap Message.encode → ∃ d, decodeCalls start [] inputs =
          some (⟨true, d, messages.map Message.frame⟩, inputs.map fun _ => []) ∧
        d.state = .fhFlag) ∧
    ∀ c rest, ¬ c ≤ 1 → inputs.flatten.flatten = messages.flatMap Message.encode ++ c :: rest →
      ∃ before input after d, inputs = before ++ input :: after ∧
        before.flatten.flatten.length ≤ (messages.flatMap Message.encode).length ∧
        (messages.flatMap Message.encode).length < (before ++ [input]).flatten.flatten.length ∧
        decodeCalls start [] inputs =
          some (⟨false, d, messages.map Message.frame⟩, before.map (fun _ => []) ++ [input]) ∧
        d.state = .fhFlag := by
  have hidle : Idle start := ⟨rfl, rfl⟩
  obtain ⟨d, hd, hfeed⟩ := feed_messages hidle [] messages
  rw [nil_append] at hfeed
  constructor
  · intro htext
    refine ⟨d, ?_, hd.1⟩
    rw [← htext] at hfeed
    rw [decodeCalls_of_ok hidle.valid [] inputs (by rw [hfeed]), hfeed]
  · intro c rest hc htext
    have hbad : ∀ more, feed start [] (messages.flatMap Message.encode ++ c :: more) =
        ⟨false, d, messages.map Message.frame⟩ := by
      intro more
      rw [feed_append, hfeed, if_pos rfl]
      simp only [feed, feedByte, hd.1]
      rw [if_pos ((flag_iff c).mpr hc)]
    obtain ⟨before, input, after, hinputs, hbefore, hinput, hcalls⟩ :=
      decodeCalls_of_not_ok hidle.valid [] inputs (by rw [htext, hbad])
    have hprefix : before.flatten.flatten <+: messages.flatMap Message.encode ++ c :: rest := by
      rw [← htext, hinputs, flatten_append, flatten_append]
      exact prefix_append _ _
    have hprefix' : (before ++ [input]).flatten.flatten <+:
        messages.flatMap Message.encode ++ c :: rest := by
      have happend : (before ++ input :: after).flatten.flatten =
          (before ++ [input]).flatten.flatten ++ after.flatten.flatten := by simp
      rw [← htext, hinputs, happend]
      exact prefix_append _ _
    refine ⟨before, input, after, d, hinputs, ?_, ?_, ?_, hd.1⟩
    · -- a text with the byte in it would have been refused
      by_contra hlong
      have hmore : messages.flatMap Message.encode ++ [c] <+: before.flatten.flatten := by
        have hstream : messages.flatMap Message.encode ++ [c] <+:
            messages.flatMap Message.encode ++ c :: rest := by
          rw [prefix_append_right_inj]
          exact ⟨rest, rfl⟩
        apply prefix_of_prefix_length_le hstream hprefix
        rw [length_append, length_singleton]
        omega
      obtain ⟨more, hmore⟩ := hmore
      rw [append_assoc, singleton_append] at hmore
      rw [← hmore, hbad] at hbefore
      cases hbefore
    · -- and one that ends before it would not
      by_contra hshort
      have hless : (before ++ [input]).flatten.flatten <+: messages.flatMap Message.encode := by
        apply prefix_of_prefix_length_le hprefix'
        · exact prefix_append _ _
        · omega
      obtain ⟨more, hmore⟩ := hless
      rw [← hmore, feed_append, if_neg (by rw [hinput]; exact Bool.false_ne_true)] at hfeed
      rw [hfeed] at hinput
      cases hinput
    · rw [hcalls, htext, hbad]

/-- An empty frame and one that is cut in its header, then a byte that is no flag. -/
theorem decodeCalls_two_messages :
    (∃ d, decodeCalls start [] [[[0, 0], [0, 0, 0, 1]], [], [[0, 0, 0, 1], [7]]] =
        some (⟨true, d, [⟨0, 0, none⟩, ⟨1, 1, some [7]⟩]⟩, [[], [], []]) ∧ d.state = .fhFlag) ∧
      ∃ before input after d, [[[0, 0], [0, 0, 0]], [[2, 9]]] = before ++ input :: after ∧
        before.flatten.flatten.length ≤ 5 ∧ 5 < (before ++ [input]).flatten.flatten.length ∧
        decodeCalls start [] [[[0, 0], [0, 0, 0]], [[2, 9]]] =
          some (⟨false, d, [⟨0, 0, none⟩]⟩, before.map (fun _ => []) ++ [input]) ∧
        d.state = .fhFlag :=
  ⟨(decodeCalls_messages [⟨0, [], by decide, by decide⟩, ⟨1, [7], by decide, by decide⟩]
      [[[0, 0], [0, 0, 0, 1]], [], [[0, 0, 0, 1], [7]]]).1 rfl,
    (decodeCalls_messages [⟨0, [], by decide, by decide⟩] [[[0, 0], [0, 0, 0]], [[2, 9]]]).2 2 [9]
      (by decide) rfl⟩

end Meliproxy.Envoy.Grpc.Codec
