import Meliproxy.Lib.Runs

/-!
# Buffers with watermarks

`buffer/watermark_buffer.cc`, as far as the length of a buffer goes. A buffer calls back once when
it grows above its high watermark, and once when it has shrunk below the low one after that.
-/

namespace Meliproxy.Envoy.Buffer

open List

inductive WatermarkCall where
  | aboveHighWatermark
  | belowLowWatermark
  deriving DecidableEq

/-- A high watermark of zero sets no limit. -/
structure WatermarkBuffer where
  length : Nat
  lowWatermark : Nat
  highWatermark : Nat
  aboveHighWatermarkCalled : Bool

namespace WatermarkBuffer

def new : WatermarkBuffer :=
  { length := 0, lowWatermark := 0, highWatermark := 0, aboveHighWatermarkCalled := false }

variable (b : WatermarkBuffer)

def checkLowWatermark : WatermarkBuffer × Option WatermarkCall :=
  if ¬ b.aboveHighWatermarkCalled ∨ (b.highWatermark ≠ 0 ∧ b.lowWatermark ≤ b.length) then (b, none)
  else ({ b with aboveHighWatermarkCalled := false }, some .belowLowWatermark)

def checkHighWatermark : WatermarkBuffer × Option WatermarkCall :=
  if b.aboveHighWatermarkCalled ∨ b.highWatermark = 0 ∨ b.length ≤ b.highWatermark then (b, none)
  else ({ b with aboveHighWatermarkCalled := true }, some .aboveHighWatermark)

def add (size : Nat) : WatermarkBuffer × Option WatermarkCall :=
  { b with length := b.length + size }.checkHighWatermark

def drain (size : Nat) : WatermarkBuffer × Option WatermarkCall :=
  { b with length := b.length - size }.checkLowWatermark

/-- What a buffer does that grows or shrinks: the two callbacks alternate. -/
inductive Checked (b : WatermarkBuffer) : WatermarkBuffer × Option WatermarkCall → Prop where
  | silent (b' : WatermarkBuffer)
      (called : b'.aboveHighWatermarkCalled = b.aboveHighWatermarkCalled) : Checked b (b', none)
  | above (b' : WatermarkBuffer) (before : b.aboveHighWatermarkCalled = false)
      (called : b'.aboveHighWatermarkCalled = true) : Checked b (b', some .aboveHighWatermark)
  | below (b' : WatermarkBuffer) (before : b.aboveHighWatermarkCalled = true)
      (called : b'.aboveHighWatermarkCalled = false) : Checked b (b', some .belowLowWatermark)

variable {b} {b' : WatermarkBuffer}

section

variable (h : b'.aboveHighWatermarkCalled = b.aboveHighWatermarkCalled)
include h

theorem checked_checkLowWatermark :
    Checked b b'.checkLowWatermark := by
  unfold checkLowWatermark
  split
  · exact .silent b' h
  · rename_i hlow
    have hcalled : b'.aboveHighWatermarkCalled = true := by
      simpa using not_or.mp hlow |>.1
    exact .below _ (h.symm.trans hcalled) rfl

theorem checked_checkHighWatermark :
    Checked b b'.checkHighWatermark := by
  unfold checkHighWatermark
  split
  · exact .silent b' h
  · rename_i hhigh
    have hcalled : b'.aboveHighWatermarkCalled = false := by
      simpa using not_or.mp hhigh |>.1
    exact .above _ (h.symm.trans hcalled) rfl

end

variable (b)

variable (size : Nat)

theorem checked_add : Checked b (b.add size) :=
  checked_checkHighWatermark rfl

theorem checked_drain : Checked b (b.drain size) :=
  checked_checkLowWatermark rfl

def commit : WatermarkBuffer × Option WatermarkCall :=
  { b with length := b.length + size }.checkHighWatermark

def move : WatermarkBuffer × Option WatermarkCall :=
  { b with length := b.length + size }.checkHighWatermark

def read (bytesRead : Option Nat) : WatermarkBuffer × Option WatermarkCall :=
  { b with length := b.length + bytesRead.getD 0 }.checkHighWatermark

/-- Reserved space is no part of the contents before it is committed. -/
def reserve : WatermarkBuffer × Option WatermarkCall := b.checkHighWatermark

def write (bytesWritten : Option Nat) : WatermarkBuffer × Option WatermarkCall :=
  { b with length := b.length - bytesWritten.getD 0 }.checkLowWatermark

/-- Another buffer has taken `size` bytes from this one. -/
def postProcess : WatermarkBuffer × Option WatermarkCall :=
  { b with length := b.length - size }.checkLowWatermark

/-- The limits that `setWatermarks` asserts. -/
structure Watermarks where
  low : Nat
  high : Nat
  ordered : low < high ∨ (high = 0 ∧ low = 0)

def Watermarks.ofLimit (watermark : Nat) : Watermarks where
  low := watermark / 2
  high := watermark
  ordered := by omega

def setWatermarks (limits : Watermarks) : WatermarkBuffer × List WatermarkCall :=
  let (b₁, high) :=
    { b with lowWatermark := limits.low, highWatermark := limits.high }.checkHighWatermark
  let (b₂, low) := b₁.checkLowWatermark
  (b₂, high.toList ++ low.toList)

inductive Operation where
  | add (size : Nat)
  | commit (size : Nat)
  | drain (size : Nat)
  | move (size : Nat)
  | read (bytesRead : Option Nat)
  | reserve
  | write (bytesWritten : Option Nat)
  | postProcess (size : Nat)
  | setWatermarks (limits : Watermarks)

def step : Operation → WatermarkBuffer × List WatermarkCall
  | .add size => (b.add size).map id Option.toList
  | .commit size => (b.commit size).map id Option.toList
  | .drain size => (b.drain size).map id Option.toList
  | .move size => (b.move size).map id Option.toList
  | .read bytesRead => (b.read bytesRead).map id Option.toList
  | .reserve => b.reserve.map id Option.toList
  | .write bytesWritten => (b.write bytesWritten).map id Option.toList
  | .postProcess size => (b.postProcess size).map id Option.toList
  | .setWatermarks limits => b.setWatermarks limits

variable {b}

def run (b : WatermarkBuffer) : List Operation → WatermarkBuffer × List WatermarkCall
  | [] => (b, [])
  | op :: ops => ((b.step op).1.run ops).map id ((b.step op).2 ++ ·)

/-- The callbacks made so far alternate, from the high one, and the flag tells the last of them. -/
structure History (b : WatermarkBuffer) (calls : List WatermarkCall) : Prop where
  alternate : calls.IsChain (· ≠ ·)
  head : ∀ call ∈ calls.head?, call = .aboveHighWatermark
  last : calls.getLast? = some .aboveHighWatermark ↔ b.aboveHighWatermarkCalled = true

theorem history_new : History new [] where
  alternate := isChain_nil
  head := nofun
  last := by simp [new]

theorem History.checked {result : WatermarkBuffer × Option WatermarkCall}
    {calls : List WatermarkCall} (h : History b calls) (hstep : Checked b result) :
    History result.1 (calls ++ result.2.toList) := by
  cases hstep with
  | silent b' called =>
    rw [Option.toList_none, append_nil]
    refine ⟨h.alternate, h.head, ?_⟩
    rw [called]
    exact h.last
  | above b' before called =>
    have hlast : ∀ last ∈ calls.getLast?, last ≠ .aboveHighWatermark := by
      rintro last hmem rfl
      rw [h.last.mp hmem] at before
      cases before
    refine ⟨Lib.isChain_snoc h.alternate hlast, ?_, by simp [called]⟩
    intro call hcall
    cases calls with
    | nil => exact (Option.mem_some.mp hcall).symm
    | cons first rest => exact h.head call hcall
  | below b' before called =>
    have hlast := h.last.mpr before
    refine ⟨Lib.isChain_snoc h.alternate (by simp [hlast]), ?_, by simp [called]⟩
    intro call hcall
    cases calls with
    | nil => cases hlast
    | cons first rest => exact h.head call hcall

def InOrder (b : WatermarkBuffer) : Prop :=
  b.lowWatermark < b.highWatermark ∨ (b.highWatermark = 0 ∧ b.lowWatermark = 0)

/-- The limits are in order, and the buffer is not below the low one while it is held to be above
the high one. -/
structure Settled (b : WatermarkBuffer) : Prop where
  ordered : b.InOrder
  kept : b.aboveHighWatermarkCalled = true → b.highWatermark ≠ 0 ∧ b.lowWatermark ≤ b.length

theorem settled_checkLowWatermark (h : b.InOrder) : Settled b.checkLowWatermark.1 := by
  unfold checkLowWatermark
  split
  · rename_i hquiet
    refine ⟨h, ?_⟩
    intro hcalled
    exact hquiet.resolve_left (not_not.mpr hcalled)
  · exact ⟨h, nofun⟩

theorem settled_checkHighWatermark (h : b.InOrder)
    (hkept : b.aboveHighWatermarkCalled = true → b.highWatermark ≠ 0 ∧ b.lowWatermark ≤ b.length) :
    Settled b.checkHighWatermark.1 := by
  unfold checkHighWatermark
  split
  · exact ⟨h, hkept⟩
  · rename_i hover
    refine ⟨h, ?_⟩
    intro _
    constructor
    · intro hzero
      exact hover (.inr (.inl hzero))
    · show b.lowWatermark ≤ b.length
      rcases h with hlt | hzero
      · omega
      · omega

theorem Settled.grow (h : Settled b) (size : Nat) :
    Settled { b with length := b.length + size }.checkHighWatermark.1 := by
  refine settled_checkHighWatermark (b := { b with length := b.length + size }) h.ordered ?_
  intro hcalled
  have hkept := h.kept hcalled
  exact ⟨hkept.1, Nat.le_add_right_of_le hkept.2⟩

structure Inv (b : WatermarkBuffer) (calls : List WatermarkCall) : Prop where
  history : History b calls
  settled : Settled b

theorem inv_new : Inv new [] := ⟨history_new, .inr ⟨rfl, rfl⟩, nofun⟩

variable {calls : List WatermarkCall}

theorem Inv.grow (h : Inv b calls) (size : Nat) :
    Inv { b with length := b.length + size }.checkHighWatermark.1
      (calls ++ { b with length := b.length + size }.checkHighWatermark.2.toList) :=
  ⟨h.history.checked (checked_checkHighWatermark rfl), h.settled.grow size⟩

theorem Inv.shrink (h : Inv b calls) (size : Nat) :
    Inv { b with length := b.length - size }.checkLowWatermark.1
      (calls ++ { b with length := b.length - size }.checkLowWatermark.2.toList) :=
  ⟨h.history.checked (checked_checkLowWatermark rfl),
    settled_checkLowWatermark h.settled.ordered⟩

theorem InOrder.checkHighWatermark (h : b.InOrder) : b.checkHighWatermark.1.InOrder := by
  unfold WatermarkBuffer.checkHighWatermark
  split <;> exact h

theorem Inv.setWatermarks (h : Inv b calls) (limits : Watermarks) :
    Inv (b.setWatermarks limits).1 (calls ++ (b.setWatermarks limits).2) := by
  let b₀ := { b with lowWatermark := limits.low, highWatermark := limits.high }
  have hhigh : History b₀.checkHighWatermark.1 (calls ++ b₀.checkHighWatermark.2.toList) :=
    h.history.checked (checked_checkHighWatermark rfl)
  have hlow := hhigh.checked (checked_checkLowWatermark rfl)
  rw [append_assoc] at hlow
  have hordered : b₀.InOrder := limits.ordered
  exact ⟨hlow, settled_checkLowWatermark hordered.checkHighWatermark⟩

theorem Inv.step (h : Inv b calls) (op : Operation) :
    Inv (b.step op).1 (calls ++ (b.step op).2) := by
  cases op with
  | add size | commit size | move size => exact h.grow size
  | read bytesRead => exact h.grow (bytesRead.getD 0)
  | reserve => exact h.grow 0
  | drain size | postProcess size => exact h.shrink size
  | write bytesWritten => exact h.shrink (bytesWritten.getD 0)
  | setWatermarks limits => exact h.setWatermarks limits

theorem Inv.run (h : Inv b calls) (ops : List Operation) :
    Inv (b.run ops).1 (calls ++ (b.run ops).2) := by
  induction ops generalizing b calls with
  | nil =>
    rw [WatermarkBuffer.run, append_nil]
    exact h
  | cons op ops ih =>
    have hrest := ih (h.step op)
    rw [append_assoc] at hrest
    exact hrest

/-- The callbacks of a buffer alternate, and none that is below its low watermark, or has no
limit, was last said to be above the high one. -/
theorem run_callbacks (ops : List Operation) : (new.run ops).2.IsChain (· ≠ ·) ∧
    (∀ call ∈ (new.run ops).2.head?, call = .aboveHighWatermark) ∧
    ((new.run ops).1.length < (new.run ops).1.lowWatermark ∨ (new.run ops).1.highWatermark = 0 →
      (new.run ops).2.getLast? ≠ some .aboveHighWatermark) := by
  have h := inv_new.run ops
  rw [nil_append] at h
  refine ⟨h.history.alternate, h.history.head, ?_⟩
  intro hlow hlast
  have hkept := h.settled.kept (h.history.last.mp hlast)
  rcases hlow with hlow | hzero
  · exact Nat.not_le.mpr hlow hkept.2
  · exact hkept.1 hzero

theorem run_callbacks_drained :
    (new.run [.setWatermarks ⟨5, 10, by decide⟩, .add 11, .drain 7]).2.getLast? ≠
      some .aboveHighWatermark :=
  (run_callbacks [.setWatermarks ⟨5, 10, by decide⟩, .add 11, .drain 7]).2.2 (.inl (by decide))

/-- A buffer drained just to its low watermark is still held to be above the high one. -/
theorem at_lowWatermark : ¬ ∀ ops : List Operation,
    (new.run ops).1.length = 0 ∨ (new.run ops).1.length ≤ (new.run ops).1.lowWatermark →
      (new.run ops).2.getLast? ≠ some .aboveHighWatermark := by
  intro h
  exact h [.setWatermarks ⟨5, 10, by decide⟩, .add 11, .drain 6] (.inr (by decide)) (by decide)

end WatermarkBuffer

end Meliproxy.Envoy.Buffer
