import Meliproxy.Lib.Runs

/-!
# The files of the access logs

`write` fills `flush_buffer_` under `write_lock_`. The flush thread and `flush` move it to
`about_to_write_buffer_`, keep `flush_lock_`, let go of `write_lock_` and write. A step is a
section under the locks, or one slice that is given to the system.

The bytes are of any type, since nothing looks at them. A descriptor `none` is -1.
-/

namespace Meliproxy.Envoy.Filesystem

open Lib

variable {α : Type}

inductive FlushThread where
  | notStarted
  | looking
  | waiting
  | flushing
  | exited
  deriving DecidableEq

/-- Who is inside `doWrite`: a caller is inside `flush`. -/
inductive Writer where
  | flushThread
  | caller
  | destructor

/-- `flush_lock_`, and how far its holder has come: the flush thread has moved the buffer, or
the bytes of the buffer that are still to be given to the system. -/
inductive FlushLock (α : Type) where
  | free
  | moved
  | writing (writer : Writer) (left : List α)

structure FileImpl (α : Type) where
  fd : Option Nat
  flushBuffer : List α
  aboutToWriteBuffer : List α
  reopenFile : Bool
  flushThreadExit : Bool
  flushThread : FlushThread

inductive Phase where
  | alive | joining | closing | destroyed
  deriving DecidableEq

/-- A call of `flush` that has returned: what had been written before it, and whether the file
was open. -/
structure Flushed where
  before : Nat
  opened : Bool

/-- A file with the callers around it: the data of all calls of `write`, the calls of the system's
`write`, what had been written when the call of `flush` that is under way took the locks, and the
calls of `flush` that have returned. -/
structure FileRun (α : Type) where
  file : FileImpl α
  flushLock : FlushLock α
  phase : Phase
  written : List α
  osWrites : List (Option Nat × List α)
  calling : Option Nat
  flushes : List Flushed

inductive Event (α : Type) where
  | write (data : List α)
  | reopen
  | timer
  | spuriousWakeup
  | look
  | proceed (opened : Option Nat)
  | flush
  | writeSlice (length : Nat)
  | writeDone
  | destroy
  | join

def minFlushSize : Nat := 1024 * 64

def start (fd : Nat) : FileRun α :=
  ⟨⟨some fd, [], [], false, false, .notStarted⟩, .free, .alive, [], [], none, []⟩

namespace FileImpl

variable (f : FileImpl α)

def notify : FileImpl α :=
  if f.flushThread = .waiting then { f with flushThread := .looking } else f

def createFlushStructures : FileImpl α :=
  if f.flushThread = .notStarted then { f with flushThread := .looking } else f

def add (data : List α) : FileImpl α :=
  { f with flushBuffer := f.flushBuffer ++ data }

def write (data : List α) : FileImpl α :=
  if minFlushSize < (f.createFlushStructures.add data).flushBuffer.length then
    (f.createFlushStructures.add data).notify
  else f.createFlushStructures.add data

def move : FileImpl α :=
  { f with aboutToWriteBuffer := f.aboutToWriteBuffer ++ f.flushBuffer, flushBuffer := [] }

end FileImpl

namespace FileRun

variable (s : FileRun α)

/-- `flushThreadFunc` under `write_lock_`, up to where it has moved the buffer or waits. -/
def look : Option (FileRun α) :=
  if s.file.flushThread ≠ .looking then none
  else if s.file.flushBuffer.length = 0 ∧ s.file.flushThreadExit = false then
    some { s with file := { s.file with flushThread := .waiting } }
  else if s.file.flushThreadExit then
    some { s with file := { s.file with flushThread := .exited } }
  else
    match s.flushLock with
    | .free =>
      some { s with file := { s.file.move with flushThread := .flushing }, flushLock := .moved }
    | _ => none

/-- The rest of an iteration up to `doWrite`, with what `open` would answer. -/
def proceed (opened : Option Nat) : Option (FileRun α) :=
  match s.flushLock with
  | .moved =>
    match s.file.fd with
    | none =>
      some { s with file := { s.file with flushThread := .looking }, flushLock := .free }
    | some _ =>
      if s.file.reopenFile then
        match opened with
        | none =>
          some { s with
            file := { s.file with fd := none, reopenFile := false, flushThread := .looking }
            flushLock := .free }
        | some fd =>
          some { s with
            file := { s.file with fd := some fd, reopenFile := false }
            flushLock := .writing .flushThread s.file.aboutToWriteBuffer }
      else some { s with flushLock := .writing .flushThread s.file.aboutToWriteBuffer }
  | _ => none

def flush : Option (FileRun α) :=
  match s.flushLock with
  | .free =>
    if s.phase ≠ .alive then none
    else if s.file.flushBuffer.length = 0 then some s
    else
      some { s with
        file := s.file.move
        flushLock := .writing .caller s.file.move.aboutToWriteBuffer }
  | _ => none

def writeSlice (length : Nat) : Option (FileRun α) :=
  match s.flushLock with
  | .writing writer left =>
    if 0 < length ∧ length ≤ left.length then
      some { s with
        osWrites := s.osWrites ++ [(s.file.fd, left.take length)]
        flushLock := .writing writer (left.drop length) }
    else none
  | _ => none

def writeDone : Option (FileRun α) :=
  match s.flushLock with
  | .writing .flushThread [] =>
    some { s with
      file := { s.file with aboutToWriteBuffer := [], flushThread := .looking }
      flushLock := .free }
  | .writing .caller [] =>
    some { s with file := { s.file with aboutToWriteBuffer := [] }, flushLock := .free }
  | .writing .destructor [] =>
    some { s with
      file := { s.file with flushBuffer := [] }
      flushLock := .free
      phase := .destroyed }
  | _ => none

/-- The first section of the destructor. Nobody calls the file any more. -/
def destroy : Option (FileRun α) :=
  match s.flushLock with
  | .writing .caller _ => none
  | _ =>
    if s.phase = .alive then
      some { s with file := { s.file with flushThreadExit := true }.notify, phase := .joining }
    else none

def join : Option (FileRun α) :=
  if s.phase = .joining ∧
      (s.file.flushThread = .notStarted ∨ s.file.flushThread = .exited) then
    match s.file.fd with
    | none => some { s with phase := .destroyed }
    | some _ =>
      if 0 < s.file.flushBuffer.length then
        some { s with phase := .closing, flushLock := .writing .destructor s.file.flushBuffer }
      else some { s with phase := .destroyed }
  else none

def isCalled : Bool :=
  match s.flushLock with
  | .writing .caller _ => true
  | _ => false

/-- A call of `flush` that is not inside `doWrite` any more has returned. -/
def returned : FileRun α :=
  match s.calling with
  | none => s
  | some before =>
    if s.isCalled then s
    else { s with calling := none, flushes := s.flushes ++ [⟨before, s.file.fd.isSome⟩] }

def handed : List α :=
  (s.osWrites.filter fun call => call.1.isSome).flatMap Prod.snd

end FileRun

def step (s : FileRun α) : Event α → Option (FileRun α)
  | .write data =>
    if s.phase = .alive then
      some { s with file := s.file.write data, written := s.written ++ data }
    else none
  | .reopen =>
    if s.phase = .alive then some { s with file := { s.file with reopenFile := true } } else none
  | .timer => if s.phase = .alive then some { s with file := s.file.notify } else none
  | .spuriousWakeup => some { s with file := s.file.notify }
  | .look => s.look
  | .proceed opened => s.proceed opened
  | .flush => ({ s with calling := some s.written.length } : FileRun α).flush.map .returned
  | .writeSlice length => s.writeSlice length
  | .writeDone => s.writeDone.map .returned
  | .destroy => s.destroy
  | .join => s.join

theorem FileImpl.notify_frame (f : FileImpl α) :
    f.notify.fd = f.fd ∧ f.notify.flushBuffer = f.flushBuffer ∧
      f.notify.aboutToWriteBuffer = f.aboutToWriteBuffer ∧
      (f.notify.flushThread = .flushing ↔ f.flushThread = .flushing) := by
  unfold FileImpl.notify
  split
  · rename_i h
    exact ⟨rfl, rfl, rfl, by simp [h]⟩
  · exact ⟨rfl, rfl, rfl, Iff.rfl⟩

def FileImpl.Ended (f : FileImpl α) : Prop :=
  f.flushThread = .notStarted ∨ f.flushThread = .exited

theorem FileImpl.notify_ended {f : FileImpl α} (h : f.Ended) : f.notify.Ended := by
  rcases h with h | h
  · rw [FileImpl.notify, if_neg (by simp [h])]
    exact .inl h
  · rw [FileImpl.notify, if_neg (by simp [h])]
    exact .inr h

theorem FileImpl.createFlushStructures_frame (f : FileImpl α) :
    f.createFlushStructures.fd = f.fd ∧ f.createFlushStructures.flushBuffer = f.flushBuffer ∧
      f.createFlushStructures.aboutToWriteBuffer = f.aboutToWriteBuffer ∧
      (f.createFlushStructures.flushThread = .flushing ↔ f.flushThread = .flushing) := by
  unfold FileImpl.createFlushStructures
  split
  · rename_i h
    exact ⟨rfl, rfl, rfl, by simp [h]⟩
  · exact ⟨rfl, rfl, rfl, Iff.rfl⟩

theorem FileImpl.write_frame (f : FileImpl α) (data : List α) :
    (f.write data).fd = f.fd ∧ (f.write data).flushBuffer = f.flushBuffer ++ data ∧
      (f.write data).aboutToWriteBuffer = f.aboutToWriteBuffer ∧
      ((f.write data).flushThread = .flushing ↔ f.flushThread = .flushing) := by
  obtain ⟨hfd, hbuffer, habout, hthread⟩ := f.createFlushStructures_frame
  have hadd : (f.createFlushStructures.add data).flushBuffer = f.flushBuffer ++ data := by
    rw [FileImpl.add, hbuffer]
  unfold FileImpl.write
  split
  · obtain ⟨hfd', hbuffer', habout', hthread'⟩ := (f.createFlushStructures.add data).notify_frame
    exact ⟨hfd'.trans hfd, hbuffer'.trans hadd, habout'.trans habout, hthread'.trans hthread⟩
  · exact ⟨hfd, hadd, habout, hthread⟩

theorem FileRun.handed_concat (s : FileRun α) (call : Option Nat × List α) :
    ({ s with osWrites := s.osWrites ++ [call] } : FileRun α).handed =
      s.handed ++ if call.1.isSome then call.2 else [] := by
  obtain ⟨fd, data⟩ := call
  cases fd <;> simp [FileRun.handed]

def FileRun.left (s : FileRun α) : List α :=
  match s.flushLock with
  | .free => s.file.aboutToWriteBuffer ++ s.file.flushBuffer
  | .moved => s.file.aboutToWriteBuffer ++ s.file.flushBuffer
  | .writing .destructor left => left
  | .writing _ left => left ++ s.file.flushBuffer

def FlushLock.Thread : FlushLock α → Prop
  | .moved => True
  | .writing .flushThread _ => True
  | _ => False

/-- The invariant of a file whose descriptor is valid. -/
structure Open (s : FileRun α) : Prop where
  bytes : s.handed ++ s.left = s.written
  idle : s.flushLock = .free → s.file.aboutToWriteBuffer = []
  closing : ∀ left, s.flushLock = .writing .destructor left → s.file.aboutToWriteBuffer = []
  destroyed : s.phase = .destroyed → s.left = []

structure Inv (s : FileRun α) : Prop where
  thread : s.file.flushThread = .flushing ↔ s.flushLock.Thread
  callers : s.phase ≠ .alive → ∀ left, s.flushLock ≠ .writing .caller left
  calling : ∀ before, s.calling = some before → ∃ left, s.flushLock = .writing .caller left ∧
    (s.file.fd.isSome → before ≤ s.handed.length + left.length)
  closing : ∀ left, s.flushLock = .writing .destructor left → s.phase = .closing
  ended : s.phase = .closing ∨ s.phase = .destroyed → s.file.Ended
  destroyed : s.phase = .destroyed → s.flushLock = .free
  handed : s.handed <+: s.written
  flushes : ∀ f ∈ s.flushes, f.opened = true → f.before ≤ s.handed.length
  opened : s.file.fd.isSome → Open s

theorem inv_start (fd : Nat) : Inv (start fd : FileRun α) := by
  refine ⟨?_, ?_, ?_, ?_, ?_, ?_, ?_, ?_, ?_⟩
  · simp [start, FlushLock.Thread]
  · intro h
    exact absurd rfl h
  · intro before h
    cases h
  · intro left h
    cases h
  · exact fun _ => .inl rfl
  · intro h
    cases h
  · exact List.prefix_refl _
  · intro f hf
    cases hf
  · intro _
    refine ⟨rfl, fun _ => rfl, fun _ _ => rfl, ?_⟩
    intro h
    cases h

end Meliproxy.Envoy.Filesystem
