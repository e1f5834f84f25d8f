import Meliproxy.Envoy.Buffer.WatermarkBuffer

/-!
# The receive windows of an HTTP/2 connection

`readDisable`, `onData`, the data frames of `onFrameReceived` and `onStreamClose` of
`http/http2/codec_impl.cc`. The consumers of a stream act inside its callbacks or elsewhere, so the
callbacks that have not returned are kept on a stack. A step answers `none` for what cannot happen:
a consumer only enables what it has disabled and only touches a buffer that it was handed, and
there are less than 2 ^ 32 of them; nghttp2, which consumes nothing itself, has no data for a stream
that is closed and lets no peer send more than a window, which is less than 2 ^ 32, without an
update.
-/

namespace Meliproxy.Envoy.Http

open Lib List Meliproxy.Envoy.Buffer Option

/-- A call of `nghttp2_session_consume`, and whether it was made as the stream was closed. -/
structure Consume where
  size : Nat
  readDisableCount : Nat
  closing : Bool

/-- `attached` says that the session still knows the stream, `closed` that `onStreamClose` has
returned for it, `received` how much data it has had, `consumes` what was passed on, the last call
in front, `held` how often its consumers have disabled it without enabling it again, and `failed`
that an `ASSERT` does not hold. -/
structure Http2Stream where
  unconsumedBytes : Nat
  readDisableCount : Nat
  pendingRecvData : WatermarkBuffer
  pendingReceiveBufferHighWatermarkCalled : Bool
  remoteEndStream : Bool
  localEndStream : Bool
  localEndStreamSent : Bool
  deferredReset : Bool
  attached : Bool
  closed : Bool
  received : Nat
  consumes : List Consume
  held : Nat
  failed : Bool

namespace Http2Stream

variable (s : Http2Stream)

def consumed : Nat := (s.consumes.map Consume.size).sum

def buffersOverrun : Bool := 0 < s.readDisableCount

def sessionConsume (size : Nat) (closing : Bool) : Http2Stream :=
  { s with consumes := ⟨size, s.readDisableCount, closing⟩ :: s.consumes }

/-- The count has 32 bits. -/
def decrement (count : Nat) : Nat := if count = 0 then 2 ^ 32 - 1 else count - 1

def readDisable (disable : Bool) : Http2Stream :=
  if disable then { s with readDisableCount := (s.readDisableCount + 1) % 2 ^ 32 }
  else
    let s := { s with
      failed := s.failed || s.readDisableCount == 0
      readDisableCount := decrement s.readDisableCount }
    if ¬ s.buffersOverrun then
      { s.sessionConsume s.unconsumedBytes false with unconsumedBytes := 0 }
    else s

def pendingRecvBufferHighWatermark : Http2Stream :=
  { s with
    failed := s.failed || s.pendingReceiveBufferHighWatermarkCalled
    pendingReceiveBufferHighWatermarkCalled := true }.readDisable true

def pendingRecvBufferLowWatermark : Http2Stream :=
  { s with
    failed := s.failed || !s.pendingReceiveBufferHighWatermarkCalled
    pendingReceiveBufferHighWatermarkCalled := false }.readDisable false

def buffered : WatermarkBuffer × Option WatermarkCall → Http2Stream
  | (pendingRecvData, none) => { s with pendingRecvData }
  | (pendingRecvData, some .aboveHighWatermark) =>
    { s with pendingRecvData }.pendingRecvBufferHighWatermark
  | (pendingRecvData, some .belowLowWatermark) =>
    { s with pendingRecvData }.pendingRecvBufferLowWatermark

def setWriteBufferWatermarks (lowWatermark highWatermark : Nat) : Http2Stream :=
  let s := s.buffered
    { s.pendingRecvData with lowWatermark, highWatermark }.checkHighWatermark
  s.buffered s.pendingRecvData.checkLowWatermark

def empty : Http2Stream :=
  { unconsumedBytes := 0, readDisableCount := 0, pendingRecvData := .new
    pendingReceiveBufferHighWatermarkCalled := false, remoteEndStream := false
    localEndStream := false, localEndStreamSent := false, deferredReset := false, attached := true
    closed := false, received := 0, consumes := [], held := 0, failed := false }

def new (bufferLimit : Nat) : Http2Stream :=
  if 0 < bufferLimit then empty.setWriteBufferWatermarks (bufferLimit / 2) bufferLimit else empty

def add (s : Http2Stream) (size : Nat) : Http2Stream := s.buffered (s.pendingRecvData.add size)

def onData (len : Nat) : Http2Stream :=
  let s := s.add len
  let s := { s with received := s.received + len }
  if ¬ s.buffersOverrun then s.sessionConsume len false
  else { s with unconsumedBytes := (s.unconsumedBytes + len) % 2 ^ 32 }

def drain (s : Http2Stream) (size : Nat) : Http2Stream :=
  s.buffered (s.pendingRecvData.drain size)

def finishFrame : Http2Stream := s.drain s.pendingRecvData.length

def resetStream : Http2Stream :=
  if s.localEndStream ∧ ¬ s.localEndStreamSent then { s with deferredReset := true } else s

def close : Http2Stream :=
  { s.sessionConsume s.unconsumedBytes true with unconsumedBytes := 0, attached := false }

def mayReadDisable (disable : Bool) : Prop :=
  if disable then s.held + 2 < 2 ^ 32 else 0 < s.held

instance (s : Http2Stream) (disable : Bool) : Decidable (s.mayReadDisable disable) := by
  unfold mayReadDisable
  infer_instance

def hold (disable : Bool) : Http2Stream :=
  { s with held := if disable then s.held + 1 else s.held - 1 }

def mayReceive (len : Nat) : Prop :=
  s.attached ∧ s.received + len < s.consumed + 2 ^ 32

instance (s : Http2Stream) (len : Nat) : Decidable (s.mayReceive len) :=
  inferInstanceAs (Decidable (_ ∧ _))

end Http2Stream

/-- A callback that has not returned. -/
inductive Http2Call where
  | decodeData (stream : Nat)
  | resetCallbacks (stream : Nat)
  deriving DecidableEq

/-- The streams of a connection, in the order in which they were created. -/
structure Http2Run where
  streams : List Http2Stream
  stack : List Http2Call

namespace Http2Run

def new : Http2Run := { streams := [], stack := [] }

inductive Event where
  | newStream (bufferLimit : Nat)
  | onData (stream len : Nat)
  | onFrameReceived (stream : Nat) (endStream : Bool)
  | onStreamClose (stream : Nat)
  | returned
  | add (stream size : Nat)
  | drain (stream size : Nat)
  | readDisable (stream : Nat) (disable : Bool)
  | encode (stream : Nat) (endStream : Bool)
  | onFrameSend (stream : Nat) (endStream : Bool)
  | resetStream (stream : Nat)

def update (s : Http2Run) (stream : Nat) (f : Http2Stream → Http2Stream) : Http2Run :=
  { s with streams := s.streams.modify stream f }

def attached (s : Http2Run) (stream : Nat) : Bool :=
  (s.streams[stream]?).any Http2Stream.attached

def call (s : Http2Run) (call : Http2Call) : Http2Run := { s with stack := call :: s.stack }

def onFrameReceived (s : Http2Run) (stream : Nat) (endStream : Bool) : Http2Run :=
  if s.attached stream then
    let s := s.update stream fun t => { t with remoteEndStream := endStream }
    if (s.streams[stream]?).any Http2Stream.deferredReset then s.update stream .finishFrame
    else s.call (.decodeData stream)
  else s

def onStreamClose (s : Http2Run) (stream : Nat) : Http2Run :=
  if s.attached stream then
    if (s.streams[stream]?).any fun t => !t.remoteEndStream || !t.localEndStream then
      s.call (.resetCallbacks stream)
    else s.update stream .close
  else s

def returned (s : Http2Run) : Option Http2Run :=
  match s.stack with
  | [] => none
  | .decodeData stream :: stack => some ({ s with stack }.update stream .finishFrame)
  | .resetCallbacks stream :: stack => some ({ s with stack }.update stream .close)

/-- `onStreamClose` has returned for the stream. -/
def streamClosed (s : Http2Run) (stream : Nat) : Http2Run :=
  s.update stream fun t => { t with closed := true }

def step (s : Http2Run) : Event → Option Http2Run
  | .newStream bufferLimit => some { s with streams := s.streams ++ [.new bufferLimit] }
  | .onData stream len =>
    if (s.streams[stream]?).any fun t => t.mayReceive len then
      some (s.update stream fun t => t.onData len)
    else none
  | .onFrameReceived stream endStream => some (s.onFrameReceived stream endStream)
  | .onStreamClose stream =>
    let after := s.onStreamClose stream
    some (if .resetCallbacks stream ∈ after.stack then after else after.streamClosed stream)
  | .returned =>
    match s.stack with
    | .resetCallbacks stream :: _ => s.returned.map (·.streamClosed stream)
    | _ => s.returned
  | .add stream size =>
    if .decodeData stream ∈ s.stack then some (s.update stream fun t => t.add size) else none
  | .drain stream size =>
    if .decodeData stream ∈ s.stack then some (s.update stream fun t => t.drain size) else none
  | .readDisable stream disable =>
    if (s.streams[stream]?).any fun t => t.mayReadDisable disable then
      some (s.update stream fun t => (t.hold disable).readDisable disable)
    else none
  | .encode stream endStream =>
    some (s.update stream fun t => { t with localEndStream := endStream })
  | .onFrameSend stream endStream =>
    some (s.update stream fun t => { t with localEndStreamSent := endStream })
  | .resetStream stream => some (s.update stream .resetStream)

end Http2Run

/-!
## Runs of an HTTP/2 connection

No byte that is received is lost or passed on twice, over any order of frames and calls.
-/

open WatermarkBuffer

namespace Http2Stream

variable {s : Http2Stream}

variable (s)

/-- A byte that is received is passed on, or waits for the stream to be enabled. -/
structure Balanced : Prop where
  conserved : s.consumed + s.unconsumedBytes = s.received
  paused : ∀ c ∈ s.consumes, c.closing = false → c.readDisableCount = 0
  enabled : s.readDisableCount = 0 → s.unconsumedBytes = 0
  detached : s.attached = false → s.unconsumedBytes = 0
  closed : s.closed = true → s.attached = false
  failed : s.failed = false

/-- The consumers and the watermark of the receive buffer hold the stream. -/
structure Kept : Prop where
  balanced : s.Balanced
  count : s.readDisableCount = s.held + s.pendingReceiveBufferHighWatermarkCalled.toNat
  called : s.pendingRecvData.aboveHighWatermarkCalled = s.pendingReceiveBufferHighWatermarkCalled
  bounded : s.held + 1 < 2 ^ 32

theorem consumed_sessionConsume (size : Nat) (closing : Bool) :
    (s.sessionConsume size closing).consumed = size + s.consumed := by
  unfold consumed sessionConsume
  rw [map_cons, sum_cons]

variable {s}

theorem not_buffersOverrun_iff : ¬ s.buffersOverrun = true ↔ s.readDisableCount = 0 := by
  unfold buffersOverrun
  rw [decide_eq_true_iff]
  omega

theorem readDisable_true_eq (hlt : s.readDisableCount + 1 < 2 ^ 32) :
    s.readDisable true = { s with readDisableCount := s.readDisableCount + 1 } := by
  unfold readDisable
  rw [if_pos rfl, Nat.mod_eq_of_lt hlt]

theorem readDisable_false_eq (hpos : 0 < s.readDisableCount) : s.readDisable false =
      if s.readDisableCount = 1 then
        { { s with readDisableCount := 0 }.sessionConsume s.unconsumedBytes false with
          unconsumedBytes := 0 }
      else { s with readDisableCount := s.readDisableCount - 1 } := by
  have hzero : s.readDisableCount ≠ 0 := Nat.ne_of_gt hpos
  have heq : { s with
      failed := s.failed || s.readDisableCount == 0
      readDisableCount := decrement s.readDisableCount } =
      { s with readDisableCount := s.readDisableCount - 1 } := by
    rw [decrement, if_neg hzero, beq_eq_false_iff_ne.mpr hzero, Bool.or_false]
  unfold readDisable
  rw [if_neg (by decide), heq]
  by_cases hone : s.readDisableCount = 1
  · rw [if_pos hone, hone]
    rfl
  · have hover : 0 < s.readDisableCount - 1 := by omega
    rw [if_neg hone, if_neg]
    exact fun hzero => Nat.ne_of_gt hover (not_buffersOverrun_iff.mp hzero)

theorem Balanced.readDisable_true (h : s.Balanced) (hlt : s.readDisableCount + 1 < 2 ^ 32) :
    (s.readDisable true).Balanced := by
  rw [readDisable_true_eq hlt]
  exact { h with enabled := fun hzero => (by cases hzero) }

theorem Balanced.readDisable_false (h : s.Balanced) (hpos : 0 < s.readDisableCount) :
    (s.readDisable false).Balanced := by
  rw [readDisable_false_eq hpos]
  split
  · refine ⟨?_, fun c hc hclosing => ?_, fun _ => rfl, fun _ => rfl, h.closed, h.failed⟩
    · have hconserved := h.conserved
      change consumed (sessionConsume { s with readDisableCount := 0 } s.unconsumedBytes false) + 0 =
        s.received
      rw [consumed_sessionConsume]
      change s.unconsumedBytes + s.consumed + 0 = s.received
      omega
    · obtain rfl | hc := mem_cons.mp hc
      · rfl
      · exact h.paused c hc hclosing
  · rename_i hone
    exact { h with enabled := fun hzero => (by change s.readDisableCount - 1 = 0 at hzero; omega) }

theorem readDisable_false_count (hpos : 0 < s.readDisableCount) :
    (s.readDisable false).readDisableCount = s.readDisableCount - 1 := by
  rw [readDisable_false_eq hpos]
  split
  · rename_i hone
    rw [hone]
    rfl
  · rfl

theorem readDisable_frame (s : Http2Stream) (disable : Bool) :
    (s.readDisable disable).held = s.held ∧
      (s.readDisable disable).pendingReceiveBufferHighWatermarkCalled =
        s.pendingReceiveBufferHighWatermarkCalled ∧
      (s.readDisable disable).pendingRecvData = s.pendingRecvData ∧
      (s.readDisable disable).received = s.received ∧
      (s.readDisable disable).attached = s.attached := by
  unfold readDisable
  split
  · exact ⟨rfl, rfl, rfl, rfl, rfl⟩
  · dsimp only
    split <;> exact ⟨rfl, rfl, rfl, rfl, rfl⟩

theorem kept_readDisable_true (h : s.Balanced)
    (hcount : s.readDisableCount + 1 = s.held + s.pendingReceiveBufferHighWatermarkCalled.toNat)
    (hcalled : s.pendingRecvData.aboveHighWatermarkCalled =
      s.pendingReceiveBufferHighWatermarkCalled)
    (hbounded : s.held + 1 < 2 ^ 32) : (s.readDisable true).Kept := by
  have hle := Bool.toNat_le s.pendingReceiveBufferHighWatermarkCalled
  have hlt : s.readDisableCount + 1 < 2 ^ 32 := by omega
  refine ⟨h.readDisable_true hlt, ?_, ?_, ?_⟩
  all_goals rw [readDisable_true_eq hlt]
  · exact hcount
  · exact hcalled
  · exact hbounded

theorem kept_readDisable_false (h : s.Balanced)
    (hcount : s.readDisableCount = s.held + s.pendingReceiveBufferHighWatermarkCalled.toNat + 1)
    (hcalled : s.pendingRecvData.aboveHighWatermarkCalled =
      s.pendingReceiveBufferHighWatermarkCalled)
    (hbounded : s.held + 1 < 2 ^ 32) : (s.readDisable false).Kept := by
  have hpos : 0 < s.readDisableCount := by omega
  obtain ⟨hheld, hflag, hbuffer, -, -⟩ := readDisable_frame s false
  refine ⟨h.readDisable_false hpos, ?_, ?_, ?_⟩
  · rw [readDisable_false_count hpos, hheld, hflag]
    omega
  · rw [hbuffer, hflag]
    exact hcalled
  · rw [hheld]
    exact hbounded

theorem Kept.buffered (h : s.Kept) {r : WatermarkBuffer × Option WatermarkCall}
    (hr : Checked s.pendingRecvData r) : (s.buffered r).Kept := by
  have hcount := h.count
  have hbounded := h.bounded
  have hbalanced := h.balanced
  cases hr with
  | silent b hcalled =>
    exact ⟨{ hbalanced with }, hcount, hcalled.trans h.called, hbounded⟩
  | above b hbefore hcalled =>
    have hflag := h.called.symm.trans hbefore
    rw [hflag] at hcount
    refine kept_readDisable_true { hbalanced with failed := ?_ } ?_ hcalled hbounded
    · simp [hbalanced.failed, hflag]
    · change s.readDisableCount + 1 = s.held + 1
      rw [hcount]
      rfl
  | below b hbefore hcalled =>
    have hflag := h.called.symm.trans hbefore
    rw [hflag] at hcount
    change (readDisable { s with
      pendingRecvData := b
      failed := s.failed || !s.pendingReceiveBufferHighWatermarkCalled
      pendingReceiveBufferHighWatermarkCalled := false } false).Kept
    refine kept_readDisable_false { hbalanced with failed := ?_ } hcount hcalled hbounded
    simp [hbalanced.failed, hflag]

theorem Kept.add (h : s.Kept) (size : Nat) : (s.add size).Kept :=
  h.buffered (checked_add s.pendingRecvData size)

theorem Kept.drain (h : s.Kept) (size : Nat) : (s.drain size).Kept :=
  h.buffered (checked_drain s.pendingRecvData size)

theorem Kept.finishFrame (h : s.Kept) : s.finishFrame.Kept := h.drain s.pendingRecvData.length

theorem add_frame (s : Http2Stream) (size : Nat) :
    (s.add size).received = s.received ∧ (s.add size).consumed = s.consumed ∧
      (s.add size).attached = s.attached := by
  unfold Http2Stream.add WatermarkBuffer.add checkHighWatermark
  split <;> exact ⟨rfl, rfl, rfl⟩

section

variable (h : s.Kept)
include h

theorem Kept.onData {len : Nat} (hmay : s.mayReceive len) : (s.onData len).Kept := by
  obtain ⟨hattached, hwindow⟩ := hmay
  obtain ⟨hreceived, hconsumed, hattached'⟩ := add_frame s len
  have hadd := h.add len
  have hconserved := hadd.balanced.conserved
  unfold Http2Stream.onData
  dsimp only
  split
  · rename_i hover
    have hzero : (s.add len).readDisableCount = 0 := not_buffersOverrun_iff.mp hover
    refine { hadd with balanced := { hadd.balanced with
        conserved := ?_, paused := fun c hc hclosing => ?_ } }
    · rw [consumed_sessionConsume]
      change len + (s.add len).consumed + (s.add len).unconsumedBytes = (s.add len).received + len
      omega
    · obtain rfl | hc := mem_cons.mp hc
      · exact hzero
      · exact hadd.balanced.paused c hc hclosing
  · rename_i hover
    have hpos : (s.add len).readDisableCount ≠ 0 :=
      fun hzero => hover (not_buffersOverrun_iff.mpr hzero)
    have hlt : (s.add len).unconsumedBytes + len < 2 ^ 32 := by omega
    refine { hadd with balanced := ⟨?_, hadd.balanced.paused, fun hzero => absurd hzero hpos,
      fun hdetached => ?_, hadd.balanced.closed, hadd.balanced.failed⟩ }
    · change (s.add len).consumed + ((s.add len).unconsumedBytes + len) % 2 ^ 32 =
        (s.add len).received + len
      rw [Nat.mod_eq_of_lt hlt]
      omega
    · cases (hattached'.trans hattached).symm.trans hdetached

theorem Kept.readDisable {disable : Bool} (hmay : s.mayReadDisable disable) :
    ((s.hold disable).readDisable disable).Kept := by
  have hcount := h.count
  have hbounded := h.bounded
  have hbalanced : (s.hold disable).Balanced := { h.balanced with }
  cases disable with
  | true =>
    have hheld : s.held + 2 < 2 ^ 32 := hmay
    refine kept_readDisable_true hbalanced ?_ h.called hheld
    change s.readDisableCount + 1 = s.held + 1 + s.pendingReceiveBufferHighWatermarkCalled.toNat
    omega
  | false =>
    have hheld : 0 < s.held := hmay
    refine kept_readDisable_false hbalanced ?_ h.called ?_
    · change s.readDisableCount =
        s.held - 1 + s.pendingReceiveBufferHighWatermarkCalled.toNat + 1
      omega
    · change s.held - 1 + 1 < 2 ^ 32
      omega

theorem Kept.close : s.close.Kept := by
  refine ⟨⟨?_, fun c hc hclosing => ?_, fun _ => rfl, fun _ => rfl, fun _ => rfl,
    h.balanced.failed⟩, h.count, h.called, h.bounded⟩
  · have hconserved := h.balanced.conserved
    change (s.sessionConsume s.unconsumedBytes true).consumed + 0 = s.received
    rw [consumed_sessionConsume]
    omega
  · obtain rfl | hc := mem_cons.mp hc
    · cases hclosing
    · exact h.balanced.paused c hc hclosing

theorem Kept.streamClosed (hdetached : s.attached = false) :
    Kept { s with closed := true } :=
  { h with balanced := { h.balanced with closed := fun _ => hdetached } }

theorem Kept.ends (remoteEndStream localEndStream localEndStreamSent
    deferredReset : Bool) :
    Kept { s with remoteEndStream, localEndStream, localEndStreamSent, deferredReset } :=
  ⟨{ h.balanced with }, h.count, h.called, h.bounded⟩

theorem Kept.resetStream : s.resetStream.Kept := by
  unfold Http2Stream.resetStream
  split
  · exact h.ends s.remoteEndStream s.localEndStream s.localEndStreamSent true
  · exact h

end

theorem kept_empty : empty.Kept where
  balanced := ⟨rfl, fun _ hc => (by cases hc), fun _ => rfl, fun _ => rfl,
    fun hclosed => (by cases hclosed), rfl⟩
  count := rfl
  called := rfl
  bounded := by decide

theorem Kept.setWriteBufferWatermarks (h : s.Kept) (lowWatermark highWatermark : Nat) :
    (s.setWriteBufferWatermarks lowWatermark highWatermark).Kept := by
  have hhigh : Checked s.pendingRecvData
      { s.pendingRecvData with lowWatermark, highWatermark }.checkHighWatermark :=
    checked_checkHighWatermark rfl
  exact (h.buffered hhigh).buffered (checked_checkLowWatermark rfl)

theorem kept_new (bufferLimit : Nat) : (new bufferLimit).Kept := by
  unfold new
  split
  · exact kept_empty.setWriteBufferWatermarks (bufferLimit / 2) bufferLimit
  · exact kept_empty

/-- No byte is lost or passed on twice: nothing is passed on while the stream is disabled, unless it
is closed, nothing waits while it is enabled, and everything has been passed on when it is closed. -/
structure Conserved (s : Http2Stream) : Prop where
  conserved : s.consumed + s.unconsumedBytes = s.received
  paused : ∀ c ∈ s.consumes, 0 < c.readDisableCount → c.closing = true
  enabled : s.readDisableCount = 0 → s.unconsumedBytes = 0
  closed : s.closed = true → s.consumed = s.received
  failed : s.failed = false

theorem Kept.conserves (h : s.Kept) : s.Conserved := by
  have hconserved := h.balanced.conserved
  refine ⟨hconserved, fun c hc hpos => ?_, h.balanced.enabled, fun hclosed => ?_,
    h.balanced.failed⟩
  · cases hclosing : c.closing with
    | true => rfl
    | false =>
      have hzero := h.balanced.paused c hc hclosing
      omega
  · have hzero := h.balanced.detached (h.balanced.closed hclosed)
    omega

end Http2Stream

namespace Http2Run

variable {s s' : Http2Run} {stream : Nat}

def Kept (s : Http2Run) : Prop :=
  ∀ (i : Nat) (t : Http2Stream), s.streams[i]? = some t → t.Kept

variable {f : Http2Stream → Http2Stream}

theorem Kept.update (h : s.Kept) (hf : ∀ t, s.streams[stream]? = some t → t.Kept → (f t).Kept) :
    (s.update stream f).Kept := by
  intro i t ht
  change (s.streams.modify stream f)[i]? = some t at ht
  by_cases hi : stream = i
  · subst hi
    rw [getElem?_modify_eq] at ht
    obtain ⟨t', ht', rfl⟩ := map_eq_some_iff.mp ht
    exact hf t' ht' (h stream t' ht')
  · rw [getElem?_modify_ne _ _ hi] at ht
    exact h i t ht

theorem Kept.newStream (h : s.Kept) (bufferLimit : Nat) :
    Kept { s with streams := s.streams ++ [.new bufferLimit] } := by
  intro i t ht
  obtain ht | ⟨-, rfl⟩ := entry_of_concat ht
  · exact h i t ht
  · exact Http2Stream.kept_new bufferLimit

theorem Kept.call (h : s.Kept) (call : Http2Call) : (s.call call).Kept := h

theorem Kept.onFrameReceived (h : s.Kept) (endStream : Bool) :
    (s.onFrameReceived stream endStream).Kept := by
  have hend : (s.update stream fun t => { t with remoteEndStream := endStream }).Kept :=
    h.update fun t _ ht => ht.ends endStream t.localEndStream t.localEndStreamSent t.deferredReset
  unfold Http2Run.onFrameReceived
  split
  · dsimp only
    split
    · exact hend.update fun _ _ ht => ht.finishFrame
    · exact hend.call _
  · exact h

theorem Kept.onStreamClose (h : s.Kept) : (s.onStreamClose stream).Kept := by
  unfold Http2Run.onStreamClose
  split
  · split
    · exact h.call _
    · exact h.update fun _ _ ht => ht.close
  · exact h

variable {t : Http2Stream}

theorem update_self (ht : (s.update stream f).streams[stream]? = some t) :
    ∃ t', s.streams[stream]? = some t' ∧ f t' = t := by
  change (s.streams.modify stream f)[stream]? = some t at ht
  rw [getElem?_modify_eq] at ht
  exact map_eq_some_iff.mp ht

/-- Unless the reset callbacks run, the session does not know the stream any more. -/
theorem detached_onStreamClose (hstack : .resetCallbacks stream ∉ (s.onStreamClose stream).stack)
    (ht : (s.onStreamClose stream).streams[stream]? = some t) :
    t.attached = false := by
  unfold Http2Run.onStreamClose at hstack ht
  split at ht
  · rename_i hattached
    rw [if_pos hattached] at hstack
    split at ht
    · rename_i hends
      rw [if_pos hends] at hstack
      exact absurd mem_cons_self hstack
    · obtain ⟨t', -, rfl⟩ := update_self ht
      rfl
  · rename_i hattached
    unfold Http2Run.attached at hattached
    rwa [ht, any_some, Bool.not_eq_true] at hattached

theorem Kept.streamClosed (h : s.Kept)
    (hdetached : ∀ t, s.streams[stream]? = some t → t.attached = false) :
    (s.streamClosed stream).Kept :=
  h.update fun t ht hkept => hkept.streamClosed (hdetached t ht)

theorem Kept.returned (h : s.Kept) (hreturned : s.returned = some s') : s'.Kept := by
  unfold Http2Run.returned at hreturned
  split at hreturned
  · cases hreturned
  · rename_i i stack hstack
    cases hreturned
    have hpop : Kept { s with stack } := h
    exact hpop.update fun _ _ ht => ht.finishFrame
  · rename_i i stack hstack
    cases hreturned
    have hpop : Kept { s with stack } := h
    exact hpop.update fun _ _ ht => ht.close

theorem detached_returned {stack : List Http2Call} (hstack : s.stack = .resetCallbacks stream :: stack)
    (hreturned : s.returned = some s') (ht : s'.streams[stream]? = some t) :
    t.attached = false := by
  unfold Http2Run.returned at hreturned
  rw [hstack] at hreturned
  cases hreturned
  obtain ⟨t', -, rfl⟩ := update_self ht
  rfl

theorem mem_of_any {l : List Http2Stream} {p : Http2Stream → Bool} (hany : (l[stream]?).any p)
    (ht : l[stream]? = some t) : p t = true := by
  rwa [ht, any_some] at hany

theorem Kept.step (h : s.Kept) (event : Event) (hstep : s.step event = some s') : s'.Kept := by
  cases event with
  | newStream bufferLimit =>
    cases hstep
    exact h.newStream bufferLimit
  | onData stream len =>
    obtain ⟨hmay, rfl⟩ := ite_some_none_eq_some.mp hstep
    exact h.update fun t ht hkept => hkept.onData (of_decide_eq_true (mem_of_any hmay ht))
  | onFrameReceived stream endStream =>
    cases hstep
    exact h.onFrameReceived endStream
  | onStreamClose stream =>
    cases hstep
    split
    · exact h.onStreamClose
    · rename_i hstack
      exact h.onStreamClose.streamClosed fun t ht => detached_onStreamClose hstack ht
  | returned =>
    dsimp only [Http2Run.step] at hstep
    split at hstep
    · rename_i stream stack hstack
      obtain ⟨after, hreturned, rfl⟩ := map_eq_some_iff.mp hstep
      exact (h.returned hreturned).streamClosed fun t ht => detached_returned hstack hreturned ht
    · exact h.returned hstep
  | add stream size =>
    obtain ⟨-, rfl⟩ := ite_some_none_eq_some.mp hstep
    exact h.update fun t _ hkept => hkept.add size
  | drain stream size =>
    obtain ⟨-, rfl⟩ := ite_some_none_eq_some.mp hstep
    exact h.update fun t _ hkept => hkept.drain size
  | readDisable stream disable =>
    obtain ⟨hmay, rfl⟩ := ite_some_none_eq_some.mp hstep
    exact h.update fun t ht hkept => hkept.readDisable (of_decide_eq_true (mem_of_any hmay ht))
  | encode stream endStream =>
    cases hstep
    exact h.update fun t _ hkept =>
      hkept.ends t.remoteEndStream endStream t.localEndStreamSent t.deferredReset
  | onFrameSend stream endStream =>
    cases hstep
    exact h.update fun t _ hkept =>
      hkept.ends t.remoteEndStream t.localEndStream endStream t.deferredReset
  | resetStream stream =>
    cases hstep
    exact h.update fun _ _ hkept => hkept.resetStream

/-- The windows of the streams and of the connection. -/
structure Conserved (s : Http2Run) : Prop where
  streams : ∀ t ∈ s.streams, t.Conserved
  window : (s.streams.map Http2Stream.consumed).sum +
    (s.streams.map Http2Stream.unconsumedBytes).sum = (s.streams.map Http2Stream.received).sum
  closed : (∀ t ∈ s.streams, t.closed = true) →
    (s.streams.map Http2Stream.consumed).sum = (s.streams.map Http2Stream.received).sum

theorem Kept.conserves (h : s.Kept) : s.Conserved := by
  have hstreams : ∀ t ∈ s.streams, t.Conserved := by
    intro t ht
    obtain ⟨i, hi⟩ := getElem?_of_mem ht
    exact (h i t hi).conserves
  refine ⟨hstreams, ?_, fun hclosed => ?_⟩
  · rw [← sum_map_add]
    exact congrArg List.sum (map_congr_left fun t ht => (hstreams t ht).conserved)
  · exact congrArg List.sum
      (map_congr_left fun t ht => (hstreams t ht).closed (hclosed t ht))

theorem run_conserves (events : List Event) (h : run step new events = some s) : s.Conserved := by
  have hnew : new.Kept := fun i t ht => by cases ht
  have hkept : s.Kept := run_keeps (fun _ event _ hinv hstep => Kept.step hinv event hstep) hnew h
  exact hkept.conserves

/-! A stream with a limit of 10 bytes gets more than that in a frame, is disabled by its consumer
in `decodeData` and closed before it is enabled. -/

def disabledEvents : List Event :=
  [.newStream 10, .onData 0 8, .onData 0 8, .onFrameReceived 0 false, .readDisable 0 true,
    .drain 0 16, .returned, .onData 0 7, .onStreamClose 0, .returned, .readDisable 0 false]

theorem disabledEvents_conserves : ∃ s, run step new disabledEvents = some s ∧
      s.streams.map Http2Stream.consumed = [23] ∧ s.Conserved := by
  have hran : (run step new disabledEvents).map (fun s => s.streams.map Http2Stream.consumed) =
      some [23] := by decide +kernel
  obtain ⟨s, hs, hconsumed⟩ := map_eq_some_iff.mp hran
  exact ⟨s, hs, hconsumed, run_conserves disabledEvents hs⟩

end Http2Run

end Meliproxy.Envoy.Http
