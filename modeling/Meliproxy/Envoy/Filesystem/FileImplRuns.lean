import Meliproxy.Envoy.Filesystem.FileImpl

/-!
# Runs of a file

One lemma for each step on the invariant of a file. While the descriptor is valid, what has
been handed over and what is left make up what was written. Once a re-open has failed nothing
is handed over any more.
-/

namespace Meliproxy.Envoy.Filesystem

open Lib List

variable {α : Type} {s s' : FileRun α}

/-- A step that moves no byte and leaves the lock to its holder. -/
structure Quiet (s s' : FileRun α) : Prop where
  fd : s'.file.fd = s.file.fd
  flushBuffer : s'.file.flushBuffer = s.file.flushBuffer
  about : s'.file.aboutToWriteBuffer = s.file.aboutToWriteBuffer
  thread : s'.file.flushThread = .flushing ↔ s.file.flushThread = .flushing
  ended : s.file.Ended → s'.file.Ended
  lock : s'.flushLock = s.flushLock
  written : s'.written = s.written
  osWrites : s'.osWrites = s.osWrites
  calling : s'.calling = s.calling
  flushes : s'.flushes = s.flushes

theorem Quiet.handed (h : Quiet s s') : s'.handed = s.handed := by
  rw [FileRun.handed, h.osWrites]
  rfl

theorem Quiet.left (h : Quiet s s') : s'.left = s.left := by
  unfold FileRun.left
  rw [h.lock, h.about, h.flushBuffer]

theorem Quiet.inv (h : Quiet s s') (hi : Inv s) (hphase : s'.phase = s.phase ∨
    s'.phase = .joining ∧ s.phase = .alive ∧
      ∀ left, s.flushLock ≠ .writing .caller left) : Inv s' := by
  refine ⟨?_, ?_, ?_, ?_, ?_, ?_, ?_, ?_, ?_⟩
  · rw [h.thread, h.lock]
    exact hi.thread
  · intro hne left
    rw [h.lock]
    rcases hphase with hphase | ⟨-, -, hcaller⟩
    · exact hi.callers (hphase ▸ hne) left
    · exact hcaller left
  · rw [h.calling, h.lock, h.handed, h.fd]
    exact hi.calling
  · intro left hleft
    rw [h.lock] at hleft
    have hclosing := hi.closing left hleft
    rcases hphase with hphase | ⟨-, halive, -⟩
    · exact hphase.trans hclosing
    · rw [halive] at hclosing
      cases hclosing
  · intro hend
    rcases hphase with hphase | ⟨hjoining, -, -⟩
    · exact h.ended (hi.ended (hphase ▸ hend))
    · rw [hjoining] at hend
      rcases hend with hend | hend <;> cases hend
  · intro hdestroyed
    rw [h.lock]
    rcases hphase with hphase | ⟨hjoining, -, -⟩
    · exact hi.destroyed (hphase ▸ hdestroyed)
    · rw [hjoining] at hdestroyed
      cases hdestroyed
  · rw [h.handed, h.written]
    exact hi.handed
  · rw [h.handed, h.flushes]
    exact hi.flushes
  · intro hopen
    have hs := hi.opened (h.fd ▸ hopen)
    refine ⟨?_, ?_, ?_, ?_⟩
    · rw [h.handed, h.left, h.written]
      exact hs.bytes
    · rw [h.lock, h.about]
      exact hs.idle
    · rw [h.lock, h.about]
      exact hs.closing
    · intro hdestroyed
      rw [h.left]
      rcases hphase with hphase | ⟨hjoining, -, -⟩
      · exact hs.destroyed (hphase ▸ hdestroyed)
      · rw [hjoining] at hdestroyed
        cases hdestroyed

theorem quiet_notify (s : FileRun α) : Quiet s { s with file := s.file.notify } := by
  obtain ⟨hfd, hbuffer, habout, hthread⟩ := s.file.notify_frame
  exact ⟨hfd, hbuffer, habout, hthread, FileImpl.notify_ended, rfl, rfl, rfl, rfl, rfl⟩

theorem Inv.write (hi : Inv s) (halive : s.phase = .alive) (data : List α) :
    Inv { s with file := s.file.write data, written := s.written ++ data } := by
  obtain ⟨hfd, hbuffer, habout, hthread⟩ := s.file.write_frame data
  refine ⟨hthread.trans hi.thread, hi.callers, ?_, hi.closing, ?_, hi.destroyed,
    hi.handed.trans (prefix_append _ _), hi.flushes, ?_⟩
  · rw [hfd]
    exact hi.calling
  · intro hend
    rw [halive] at hend
    rcases hend with hend | hend <;> cases hend
  intro hopen
  have hs := hi.opened (by rw [← hfd]; exact hopen)
  have hleft : FileRun.left { s with file := s.file.write data, written := s.written ++ data } =
      s.left ++ data := by
    unfold FileRun.left
    simp only [habout, hbuffer]
    cases hlock : s.flushLock with
    | free | moved => exact (append_assoc _ _ _).symm
    | writing writer left =>
      cases writer with
      | flushThread | caller => exact (append_assoc _ _ _).symm
      | destructor =>
        have hclosing := hi.closing left hlock
        rw [halive] at hclosing
        cases hclosing
  refine ⟨?_, ?_, ?_, ?_⟩
  · rw [hleft, ← append_assoc]
    exact congrArg (· ++ data) hs.bytes
  · intro hfree
    rw [habout]
    exact hs.idle hfree
  · intro left hlock
    rw [habout]
    exact hs.closing left hlock
  · intro hdestroyed
    rw [halive] at hdestroyed
    cases hdestroyed

theorem Inv.silent (hi : Inv s) (hlock : ∀ left, s.flushLock ≠ .writing .caller left) :
    ∀ before, s.calling ≠ some before := by
  intro before hcalling
  obtain ⟨left, hleft, -⟩ := hi.calling before hcalling
  exact hlock left hleft

theorem Inv.uncalled (hi : Inv s) : Inv { s with calling := none } := by
  refine { hi with calling := ?_, opened := fun hopened => { hi.opened hopened with } }
  intro before h
  cases h

/-- With the lock free a call under way returns. -/
theorem Inv.returned (hi : Inv { s with calling := none }) (hfree : s.flushLock = .free)
    (hbefore : ∀ before, s.calling = some before → s.file.fd.isSome → before ≤ s.handed.length) :
    Inv s.returned := by
  unfold FileRun.returned
  cases hcalling : s.calling with
  | none =>
    have hs : { s with calling := none } = s := by rw [← hcalling]
    exact hs ▸ hi
  | some before =>
    dsimp only
    rw [if_neg (by simp [FileRun.isCalled, hfree])]
    refine { hi with flushes := ?_, opened := fun hopened => { hi.opened hopened with } }
    intro f hf hopened
    rcases mem_append.mp hf with hf | hf
    · exact hi.flushes f hf hopened
    · obtain rfl := mem_singleton.mp hf
      exact hbefore before hcalling hopened

theorem Open.free_bytes (hs : Open s) (hfree : s.flushLock = .free) :
    s.handed ++ (s.file.aboutToWriteBuffer ++ s.file.flushBuffer) = s.written := by
  have hbytes := hs.bytes
  rw [FileRun.left, hfree] at hbytes
  exact hbytes

/-- The buffers are moved: their bytes are still left. -/
theorem Open.move (hs : Open s) (hfree : s.flushLock = .free) :
    s.handed ++ (s.file.move.aboutToWriteBuffer ++ s.file.move.flushBuffer) = s.written := by
  change s.handed ++ ((s.file.aboutToWriteBuffer ++ s.file.flushBuffer) ++ []) = s.written
  rw [append_nil]
  exact hs.free_bytes hfree

theorem Inv.flush (hi : Inv s)
    (h : ({ s with calling := some s.written.length } : FileRun α).flush = some s') :
    Inv s'.returned := by
  unfold FileRun.flush at h
  split at h
  · rename_i hfree
    split at h
    · cases h
    rename_i halive
    rw [not_not] at halive
    split at h
    · rename_i hempty
      cases h
      apply Inv.returned (s := { s with calling := some s.written.length }) hi.uncalled hfree
      intro before hcalling hopened
      cases hcalling
      -- with an empty buffer and the lock in hand nothing is left
      have hs := hi.opened hopened
      have hnil : s.file.flushBuffer = [] := eq_nil_of_length_eq_zero hempty
      have hbytes := hs.free_bytes hfree
      rw [hs.idle hfree, hnil, append_nil, append_nil] at hbytes
      exact Nat.le_of_eq (congrArg List.length hbytes.symm)
    · cases h
      refine ⟨?_, ?_, ?_, ?_, hi.ended, ?_, hi.handed, hi.flushes, ?_⟩
      · change s.file.flushThread = .flushing ↔ False
        rw [hi.thread, hfree]
        rfl
      · intro hne
        exact absurd halive hne
      · intro before hcalling
        cases hcalling
        refine ⟨_, rfl, ?_⟩
        intro hopened
        rw [← (hi.opened hopened).free_bytes hfree, length_append]
        exact Nat.le_refl _
      · intro left hleft
        cases hleft
      · intro hdestroyed
        rw [halive] at hdestroyed
        cases hdestroyed
      · intro hopened
        refine ⟨(hi.opened hopened).move hfree, ?_, ?_, ?_⟩
        · intro h
          cases h
        · intro left h
          cases h
        · intro hdestroyed
          rw [halive] at hdestroyed
          cases hdestroyed
  · cases h

theorem Inv.not_ended (hi : Inv s) (h : ¬ s.file.Ended) :
    s.phase ≠ .closing ∧ s.phase ≠ .destroyed :=
  ⟨fun hc => h (hi.ended (.inl hc)), fun hd => h (hi.ended (.inr hd))⟩

theorem Inv.look (hi : Inv s) (h : s.look = some s') : Inv s' := by
  unfold FileRun.look at h
  split at h
  · cases h
  rename_i hlooking
  rw [not_not] at hlooking
  have hnot : ¬ s.file.flushThread = .flushing := by rw [hlooking]; simp
  have hend : ¬ s.file.Ended := by simp [FileImpl.Ended, hlooking]
  split at h
  · cases h
    have hquiet : Quiet s { s with file := { s.file with flushThread := .waiting } } :=
      ⟨rfl, rfl, rfl, by simp [hnot], fun h => absurd h hend, rfl, rfl, rfl, rfl, rfl⟩
    exact hquiet.inv hi (.inl rfl)
  split at h
  · cases h
    have hquiet : Quiet s { s with file := { s.file with flushThread := .exited } } :=
      ⟨rfl, rfl, rfl, by simp [hnot], fun h => absurd h hend, rfl, rfl, rfl, rfl, rfl⟩
    exact hquiet.inv hi (.inl rfl)
  split at h
  · rename_i hfree
    cases h
    obtain ⟨hclosing, hdestroyed⟩ := hi.not_ended hend
    refine ⟨iff_of_true rfl trivial, ?_, ?_, ?_, ?_, ?_, hi.handed, hi.flushes, ?_⟩
    · intro _ left hlock
      cases hlock
    · intro before hcalling
      exact absurd hcalling (hi.silent (by simp [hfree]) before)
    · intro left hlock
      cases hlock
    · intro h
      exact (h.elim hclosing hdestroyed).elim
    · intro h
      exact absurd h hdestroyed
    · intro hopened
      refine ⟨(hi.opened hopened).move hfree, ?_, ?_, ?_⟩
      · intro h
        cases h
      · intro left h
        cases h
      · intro h
        exact absurd h hdestroyed
  · cases h

theorem Inv.proceed (hi : Inv s) {opened : Option Nat} (h : s.proceed opened = some s') :
    Inv s' := by
  unfold FileRun.proceed at h
  split at h
  · rename_i hmoved
    have hflushing : s.file.flushThread = .flushing := hi.thread.mpr (by rw [hmoved]; trivial)
    obtain ⟨hclosing, hdestroyed⟩ := hi.not_ended (by simp [FileImpl.Ended, hflushing])
    have hend : ¬ (s.phase = .closing ∨ s.phase = .destroyed) := fun h => h.elim hclosing hdestroyed
    have hsilent := hi.silent (by simp [hmoved])
    -- the thread goes on to write its buffer
    have hwriting : ∀ (file : FileImpl α), file.flushThread = .flushing →
        file.flushBuffer = s.file.flushBuffer → s.file.fd.isSome →
        Inv { s with file := file
                     flushLock := .writing .flushThread s.file.aboutToWriteBuffer } := by
      intro file hthread hbuffer hsome
      refine ⟨iff_of_true hthread trivial, ?_, ?_, ?_, fun h => absurd h hend,
        fun h => absurd h hdestroyed, hi.handed, hi.flushes, ?_⟩
      · intro _ left hlock
        cases hlock
      · intro before hcalling
        exact absurd hcalling (hsilent before)
      · intro left hlock
        cases hlock
      · intro _
        have hs := hi.opened hsome
        have hbytes := hs.bytes
        rw [FileRun.left, hmoved] at hbytes
        refine ⟨?_, ?_, ?_, fun h => absurd h hdestroyed⟩
        · change s.handed ++ (s.file.aboutToWriteBuffer ++ file.flushBuffer) = s.written
          rw [hbuffer]
          exact hbytes
        · intro h
          cases h
        · intro left h
          cases h
    -- without a descriptor it goes back to look
    have hback : ∀ (file : FileImpl α), file.flushThread = .looking → file.fd = none →
        Inv { s with file := file, flushLock := .free } := by
      intro file hthread hnone
      refine ⟨?_, ?_, ?_, ?_, fun h => absurd h hend, fun _ => rfl, hi.handed, hi.flushes, ?_⟩
      · simp [hthread, FlushLock.Thread]
      · intro _ left hlock
        cases hlock
      · intro before hcalling
        exact absurd hcalling (hsilent before)
      · intro left hlock
        cases hlock
      · intro hsome
        rw [hnone] at hsome
        cases hsome
    split at h
    · rename_i hnone
      cases h
      exact hback _ rfl hnone
    · rename_i fd hfd
      have hsome : s.file.fd.isSome := by rw [hfd]; rfl
      split at h
      · split at h
        · cases h
          exact hback _ rfl rfl
        · cases h
          exact hwriting _ hflushing rfl hsome
      · cases h
        exact hwriting _ hflushing rfl hsome
  · cases h

theorem handed_writeSlice (s : FileRun α) (lock : FlushLock α) (data : List α) :
    ({ s with osWrites := s.osWrites ++ [(s.file.fd, data)], flushLock := lock } : FileRun α).handed =
      s.handed ++ if s.file.fd.isSome then data else [] := by
  exact s.handed_concat (s.file.fd, data)

theorem left_writing {writer : Writer} {data left : List α} (s : FileRun α) :
    ({ s with flushLock := .writing writer (data ++ left) } : FileRun α).left =
      data ++ ({ s with flushLock := .writing writer left } : FileRun α).left := by
  cases writer with
  | flushThread | caller => exact append_assoc _ _ _
  | destructor => rfl

section

variable (hi : Inv s)
include hi

theorem Inv.writeSlice {length : Nat} (h : s.writeSlice length = some s') :
    Inv s' := by
  unfold FileRun.writeSlice at h
  split at h
  · rename_i writer left hlock
    split at h
    · rename_i hlength
      cases h
      have hhanded := handed_writeSlice s (.writing writer (left.drop length)) (left.take length)
      have hdestroyed : s.phase ≠ .destroyed := by
        intro h
        have hfree := hi.destroyed h
        rw [hlock] at hfree
        cases hfree
      have hsplit : s.left = left.take length ++
          ({ s with flushLock := .writing writer (left.drop length) } : FileRun α).left := by
        rw [← left_writing, take_append_drop, ← hlock]
      have hbytes : s.file.fd.isSome →
          (s.handed ++ left.take length) ++
            ({ s with flushLock := .writing writer (left.drop length) } : FileRun α).left =
          s.written := by
        intro hopened
        rw [append_assoc, ← hsplit]
        exact (hi.opened hopened).bytes
      refine ⟨?_, ?_, ?_, ?_, hi.ended, fun h => absurd h hdestroyed, ?_, ?_, ?_⟩
      · rw [hi.thread, hlock]
        cases writer <;> exact Iff.rfl
      · intro hne left' hlock'
        obtain ⟨rfl, -⟩ := FlushLock.writing.inj hlock'
        exact hi.callers hne left hlock
      · intro before hcalling
        obtain ⟨left', hlock', hle⟩ := hi.calling before hcalling
        obtain ⟨rfl, rfl⟩ := FlushLock.writing.inj (hlock.symm.trans hlock')
        refine ⟨_, rfl, ?_⟩
        intro hopened
        have hbefore := hle hopened
        rw [hhanded, if_pos hopened, length_append, length_take, length_drop]
        omega
      · intro left' hlock'
        obtain ⟨rfl, -⟩ := FlushLock.writing.inj hlock'
        exact hi.closing left hlock
      · rw [hhanded]
        by_cases hopened : s.file.fd.isSome
        · rw [if_pos hopened]
          exact ⟨_, hbytes hopened⟩
        · rw [if_neg hopened, append_nil]
          exact hi.handed
      · intro f hf hopened
        have hle := hi.flushes f hf hopened
        rw [hhanded, length_append]
        omega
      · intro hopened
        rw [if_pos hopened] at hhanded
        refine ⟨?_, ?_, ?_, fun h => absurd h hdestroyed⟩
        · rw [hhanded]
          exact hbytes hopened
        · intro h
          cases h
        · intro left' hlock'
          obtain ⟨rfl, -⟩ := FlushLock.writing.inj hlock'
          exact (hi.opened hopened).closing left hlock
    · cases h
  · cases h

/-- The flush thread or a caller has written all it had and lets go of the lock. -/
theorem Inv.release {writer : Writer} (hlock : s.flushLock = .writing writer [])
    (hwriter : writer ≠ .destructor) (hphase : s.phase ≠ .closing ∧ s.phase ≠ .destroyed)
    {thread : FlushThread} (hthread : thread ≠ .flushing) :
    Inv { s with
      file := { s.file with aboutToWriteBuffer := [], flushThread := thread }
      flushLock := .free
      calling := none } := by
  refine ⟨iff_of_false hthread id, ?_, ?_, ?_, fun h => (h.elim hphase.1 hphase.2).elim,
    fun _ => rfl, hi.handed, hi.flushes, ?_⟩
  · intro _ left hlock'
    cases hlock'
  · intro before hcalling
    cases hcalling
  · intro left hlock'
    cases hlock'
  · intro hopened
    have hbytes := (hi.opened hopened).bytes
    refine ⟨?_, fun _ => rfl, fun _ _ => rfl, fun h => absurd h hphase.2⟩
    rw [FileRun.left, hlock] at hbytes
    cases writer with
    | flushThread | caller => exact hbytes
    | destructor => exact absurd rfl hwriter

theorem Inv.writeDone (h : s.writeDone = some s') : Inv s'.returned := by
  unfold FileRun.writeDone at h
  split at h
  · rename_i hlock
    cases h
    have hflushing : s.file.flushThread = .flushing := hi.thread.mpr (by rw [hlock]; trivial)
    have hphase := hi.not_ended (by simp [FileImpl.Ended, hflushing])
    apply Inv.returned (hi.release hlock (by simp) hphase (by simp)) rfl
    intro before hcalling
    exact absurd hcalling (hi.silent (by simp [hlock]) before)
  · rename_i hlock
    cases h
    have hthread : s.file.flushThread ≠ .flushing := by
      rw [Ne, hi.thread, hlock]
      exact id
    have halive : s.phase = .alive := by
      by_contra hne
      exact hi.callers hne [] hlock
    apply Inv.returned (hi.release hlock (by simp) (by simp [halive]) hthread) rfl
    intro before hcalling hopened
    obtain ⟨left, hleft, hle⟩ := hi.calling before hcalling
    obtain ⟨-, rfl⟩ := FlushLock.writing.inj (hlock.symm.trans hleft)
    exact hle hopened
  · rename_i hlock
    cases h
    have hclosing := hi.closing [] hlock
    have hend := hi.ended (.inl hclosing)
    have hthread : ¬ s.file.flushThread = .flushing := by
      rw [hi.thread, hlock]
      exact id
    refine Inv.returned ⟨iff_of_false hthread id, ?_, ?_, ?_, fun _ => hend, fun _ => rfl,
      hi.handed, hi.flushes, ?_⟩ rfl ?_
    · intro _ left hlock'
      cases hlock'
    · intro before hcalling
      cases hcalling
    · intro left hlock'
      cases hlock'
    · intro hopened
      have hs := hi.opened hopened
      have habout := hs.closing [] hlock
      have hbytes := hs.bytes
      rw [FileRun.left, hlock] at hbytes
      have hnone : ({ s with
          file := { s.file with flushBuffer := [] }
          flushLock := .free
          phase := .destroyed
          calling := none } : FileRun α).left = [] := by
        rw [FileRun.left, habout, append_nil]
      refine ⟨?_, fun _ => habout, fun _ _ => habout, fun _ => hnone⟩
      rw [hnone]
      exact hbytes
    · intro before hcalling
      exact absurd hcalling (hi.silent (by simp [hlock]) before)
  · cases h

theorem Inv.destroy (h : s.destroy = some s') : Inv s' := by
  unfold FileRun.destroy at h
  split at h
  · cases h
  rename_i hcaller
  split at h
  · rename_i halive
    cases h
    obtain ⟨hfd, hbuffer, habout, hthread⟩ :=
      ({ s.file with flushThreadExit := true } : FileImpl α).notify_frame
    have hquiet : Quiet s { s with
        file := ({ s.file with flushThreadExit := true } : FileImpl α).notify, phase := .joining } :=
      ⟨hfd, hbuffer, habout, hthread, fun h => FileImpl.notify_ended h, rfl, rfl, rfl, rfl, rfl⟩
    exact hquiet.inv hi (.inr ⟨rfl, halive, hcaller⟩)
  · cases h

theorem Inv.free (hjoining : s.phase = .joining) (hend : s.file.Ended) :
    s.flushLock = .free := by
  have hnot : ¬ s.flushLock.Thread := by
    rw [← hi.thread]
    rcases hend with h | h <;> simp [h]
  cases hlock : s.flushLock with
  | free => rfl
  | moved =>
    rw [hlock] at hnot
    exact absurd trivial hnot
  | writing writer left =>
    cases writer with
    | flushThread =>
      rw [hlock] at hnot
      exact absurd trivial hnot
    | caller => exact absurd hlock (hi.callers (by rw [hjoining]; simp) left)
    | destructor =>
      have hclosing := hi.closing left hlock
      rw [hjoining] at hclosing
      cases hclosing

theorem Inv.join (h : s.join = some s') : Inv s' := by
  unfold FileRun.join at h
  split at h
  · rename_i hphase
    obtain ⟨hjoining, hend⟩ := hphase
    have hfree := hi.free hjoining hend
    have hnotFlushing : ¬ s.file.flushThread = .flushing := by
      rcases hend with h | h <;> simp [h]
    -- nothing is left in the buffers, or the file is not open
    have hgone : (s.file.fd.isSome → s.left = []) → Inv { s with phase := .destroyed } := by
      intro hleft
      refine ⟨hi.thread, ?_, hi.calling, ?_, fun _ => hend, fun _ => hfree, hi.handed, hi.flushes, ?_⟩
      · intro _
        exact hi.callers (by rw [hjoining]; simp)
      · intro left hlock
        rw [hfree] at hlock
        cases hlock
      · intro hopened
        have hs := hi.opened hopened
        exact { hs with destroyed := fun _ => hleft hopened }
    split at h
    · rename_i hnone
      cases h
      apply hgone
      intro hopened
      rw [hnone] at hopened
      cases hopened
    · rename_i fd hfd
      have hopened : s.file.fd.isSome := by rw [hfd]; rfl
      have hs := hi.opened hopened
      have habout := hs.idle hfree
      split at h
      · cases h
        have hbytes := hs.free_bytes hfree
        refine ⟨iff_of_false hnotFlushing id, ?_, ?_, fun _ _ => rfl, fun _ => hend, ?_, hi.handed,
          hi.flushes, ?_⟩
        · intro _ left hlock
          cases hlock
        · intro before hcalling
          exact absurd hcalling (hi.silent (by simp [hfree]) before)
        · intro h
          cases h
        · intro _
          refine ⟨?_, ?_, fun _ _ => habout, ?_⟩
          · simp only [habout, nil_append] at hbytes
            exact hbytes
          · intro h
            cases h
          · intro h
            cases h
      · rename_i hempty
        cases h
        apply hgone
        intro _
        have hnil : s.file.flushBuffer = [] := eq_nil_of_length_eq_zero (by omega)
        simp [FileRun.left, hfree, habout, hnil]
  · cases h

end

theorem step_inv {e : Event α} (hi : Inv s) (h : step s e = some s') : Inv s' := by
  cases e with
  | write data =>
    simp only [step] at h
    split at h
    · cases h
      exact hi.write ‹_› data
    · cases h
  | reopen =>
    simp only [step] at h
    split at h
    · cases h
      have hquiet : Quiet s { s with file := { s.file with reopenFile := true } } :=
        ⟨rfl, rfl, rfl, Iff.rfl, id, rfl, rfl, rfl, rfl, rfl⟩
      exact hquiet.inv hi (.inl rfl)
    · cases h
  | timer =>
    simp only [step] at h
    split at h
    · cases h
      exact (quiet_notify s).inv hi (.inl rfl)
    · cases h
  | spuriousWakeup =>
    cases h
    exact (quiet_notify s).inv hi (.inl rfl)
  | look => exact hi.look h
  | proceed opened => exact hi.proceed h
  | flush =>
    obtain ⟨called, hcalled, rfl⟩ := Option.map_eq_some_iff.mp h
    exact hi.flush hcalled
  | writeSlice length => exact hi.writeSlice h
  | writeDone =>
    obtain ⟨done, hdone, rfl⟩ := Option.map_eq_some_iff.mp h
    exact hi.writeDone hdone
  | destroy => exact hi.destroy h
  | join => exact hi.join h

theorem returned_frame (s : FileRun α) :
    s.returned.file = s.file ∧ s.returned.osWrites = s.osWrites := by
  unfold FileRun.returned
  split
  · exact ⟨rfl, rfl⟩
  · split <;> exact ⟨rfl, rfl⟩

theorem returned_closed (h : s.file.fd = none ∧ s.handed = s'.handed) :
    s.returned.file.fd = none ∧ s.returned.handed = s'.handed := by
  rw [FileRun.handed, (returned_frame s).1, (returned_frame s).2]
  exact h

/-- Without a descriptor no step opens the file or hands anything over. -/
theorem step_closed {e : Event α} (hnone : s.file.fd = none) (h : step s e = some s') :
    s'.file.fd = none ∧ s'.handed = s.handed := by
  cases e with
  | write data =>
    simp only [step] at h
    split at h
    · cases h
      exact ⟨(s.file.write_frame data).1.trans hnone, rfl⟩
    · cases h
  | reopen =>
    simp only [step] at h
    split at h
    · cases h
      exact ⟨hnone, rfl⟩
    · cases h
  | timer =>
    simp only [step] at h
    split at h
    · cases h
      exact ⟨s.file.notify_frame.1.trans hnone, rfl⟩
    · cases h
  | spuriousWakeup =>
    cases h
    exact ⟨s.file.notify_frame.1.trans hnone, rfl⟩
  | look =>
    simp only [step, FileRun.look] at h
    split at h
    · cases h
    split at h
    · cases h
      exact ⟨hnone, rfl⟩
    split at h
    · cases h
      exact ⟨hnone, rfl⟩
    split at h
    · cases h
      exact ⟨hnone, rfl⟩
    · cases h
  | proceed opened =>
    simp only [step, FileRun.proceed] at h
    split at h
    · rw [hnone] at h
      cases h
      exact ⟨rfl, rfl⟩
    · cases h
  | flush =>
    obtain ⟨called, hcalled, rfl⟩ := Option.map_eq_some_iff.mp h
    apply returned_closed
    unfold FileRun.flush at hcalled
    split at hcalled
    · split at hcalled
      · cases hcalled
      split at hcalled
      · cases hcalled
        exact ⟨hnone, rfl⟩
      · cases hcalled
        exact ⟨hnone, rfl⟩
    · cases hcalled
  | writeSlice length =>
    simp only [step, FileRun.writeSlice] at h
    split at h
    · split at h
      · cases h
        refine ⟨hnone, ?_⟩
        rw [handed_writeSlice, hnone, if_neg (by simp), append_nil]
      · cases h
    · cases h
  | writeDone =>
    obtain ⟨done, hdone, rfl⟩ := Option.map_eq_some_iff.mp h
    apply returned_closed
    unfold FileRun.writeDone at hdone
    split at hdone
    · cases hdone
      exact ⟨hnone, rfl⟩
    · cases hdone
      exact ⟨hnone, rfl⟩
    · cases hdone
      exact ⟨hnone, rfl⟩
    · cases hdone
  | destroy =>
    simp only [step, FileRun.destroy] at h
    split at h
    · cases h
    split at h
    · cases h
      exact ⟨(FileImpl.notify_frame _).1.trans hnone, rfl⟩
    · cases h
  | join =>
    simp only [step, FileRun.join] at h
    split at h
    · rw [hnone] at h
      cases h
      exact ⟨hnone, rfl⟩
    · cases h

theorem run_closed {events : List (Event α)} (hnone : s.file.fd = none)
    (h : run step s events = some s') : s'.file.fd = none ∧ s'.handed = s.handed := by
  have hkeep : ∀ (t : FileRun α) (e : Event α) (t' : FileRun α),
      t.file.fd = none ∧ t.handed = s.handed → step t e = some t' →
        t'.file.fd = none ∧ t'.handed = s.handed := by
    intro t e t' ht hstep
    obtain ⟨hnone', hhanded⟩ := step_closed ht.1 hstep
    exact ⟨hnone', hhanded.trans ht.2⟩
  exact run_keeps hkeep ⟨hnone, rfl⟩ h

/-- Over every run of a file: what has been handed over is the beginning of what was written, a
call of `flush` that returned with the file open has handed over all before it, a file destroyed
while it was open has handed over everything, and a file that could not be re-opened is not
opened again and hands over nothing more. -/
theorem run_handed (fd : Nat) (events : List (Event α)) (s : FileRun α)
    (h : run step (start fd) events = some s) :
    s.handed <+: s.written ∧ (s.written.Nodup → s.handed.Nodup) ∧
      (∀ f ∈ s.flushes, f.opened = true → s.written.take f.before <+: s.handed) ∧
      (s.phase = .destroyed → s.file.fd.isSome → s.handed = s.written) ∧
      (s.file.fd = none → ∀ events' s', run step s events' = some s' →
        s'.file.fd = none ∧ s'.handed = s.handed) := by
  have hi : Inv s := run_keeps (fun _ _ _ hi => step_inv hi) (inv_start fd) h
  refine ⟨hi.handed, fun hnodup => hnodup.sublist hi.handed.sublist, ?_, ?_, ?_⟩
  · intro f hf hopened
    apply prefix_of_prefix_length_le (List.take_prefix _ _) hi.handed
    have hle := hi.flushes f hf hopened
    rw [length_take]
    omega
  · intro hdestroyed hopened
    have hs := hi.opened hopened
    have hbytes := hs.bytes
    rw [hs.destroyed hdestroyed, append_nil] at hbytes
    exact hbytes
  · intro hnone events' s' hrun
    exact run_closed hnone hrun

/-- A caller flushes before the thread has looked, and the destructor hands over the rest. -/
def flushedEvents : List (Event Nat) :=
  [.write [1, 2], .flush, .write [3], .writeSlice 2, .writeDone, .destroy, .look, .join,
    .writeSlice 1, .writeDone]

theorem run_handed_flushed : ∃ s : FileRun Nat, run step (start 5) flushedEvents = some s ∧
    s.flushes = [⟨2, true⟩] ∧ s.written = [1, 2, 3] ∧ s.handed = s.written := by
  obtain ⟨s, hs, hflushes, hwritten, hphase, hopened⟩ : ∃ s : FileRun Nat,
    run step (start 5) flushedEvents = some s ∧ s.flushes = [⟨2, true⟩] ∧
      s.written = [1, 2, 3] ∧ s.phase = .destroyed ∧ s.file.fd.isSome :=
    ⟨_, rfl, rfl, rfl, rfl, rfl⟩
  obtain ⟨-, -, -, hdestroyed, -⟩ := run_handed 5 flushedEvents s hs
  exact ⟨s, hs, hflushes, hwritten, hdestroyed hphase hopened⟩

/-- A re-open that fails, then another request with the system ready to open the file. -/
def failedReopen : List (Event Nat) :=
  [.write [1], .look, .proceed none, .writeSlice 1, .writeDone, .reopen, .write [2], .look,
    .proceed none, .reopen, .write [3], .look, .proceed (some 7), .look]

/-- The second request does not resume the writing: the flush thread waits, the descriptor is
still invalid and two bytes are missing. -/
theorem failedReopen_not_resumed : ∃ s : FileRun Nat,
    run step (start 5) failedReopen = some s ∧ s.file.flushThread = .waiting ∧
      s.file.fd = none ∧ s.file.reopenFile = true ∧ s.written = [1, 2, 3] ∧ s.handed = [1] :=
  ⟨_, rfl, rfl, rfl, rfl, rfl, rfl⟩

end Meliproxy.Envoy.Filesystem
