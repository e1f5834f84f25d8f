import Meliproxy.Envoy.Network.ConnectionClose

/-!
# A connection that closes

`Core` holds after every piece of a call. That a connection which closes goes on writing, `Progress`,
holds after every step as a whole.
-/

namespace Meliproxy.Envoy.Network

open Lib List Option

def closeFrames (frames : List Frame) : List Nat :=
  frames.filterMap fun
    | .raiseEvent event callback => if event.closes then some callback else none
    | _ => none

def Frame.writes : Frame → Bool
  | .doWriteToSocket _ => true
  | .activate => true
  | _ => false

def Frame.Fits (c : Connection) : Frame → Prop
  | .doWriteToSocket true => c.noFlush = true
  | .doWriteToSocket false => c.connecting = false
  | .connected => c.connecting = false
  | _ => True

variable {c : Connection} {frame : Frame}

theorem Frame.Fits.noFlush (h : frame.Fits c) : frame.Fits { c with noFlush := true } := by
  cases frame with
  | doWriteToSocket closing => cases closing <;> first | rfl | exact h
  | _ => exact h

theorem Frame.Fits.connected (h : frame.Fits c) : frame.Fits { c with connecting := false } := by
  cases frame with
  | doWriteToSocket closing => cases closing <;> first | rfl | exact h
  | connected => rfl
  | _ => exact h

variable {events : List ConnectionEvent}

theorem Ended.concat (h : ∀ e ∈ events, e.closes = false) (event : ConnectionEvent) :
    Ended (events ++ [event]) := by
  rw [Ended, dropLast_concat]
  exact h

theorem Ended.of_all (h : ∀ e ∈ events, e.closes = false) : Ended events :=
  fun e he => h e (dropLast_subset _ he)

namespace Connection

variable {c c' : Connection}

structure Core (c : Connection) : Prop where
  accounts : c.written = c.given ++ c.writeBuffer
  openRaised : c.fd = true → ∀ event ∈ c.raised, event.closes = false
  closedRaised : c.fd = false → ∃ before event, c.raised = before ++ [event] ∧
    event.closes = true ∧ ∀ e ∈ before, e.closes = false
  openSeen : c.fd = true → ∀ entry ∈ c.seen, entry.2.closes = false
  seen : ∀ callback, Ended (c.seenBy callback)
  openFrames : c.fd = true → closeFrames c.frames = []
  oneFrame : (closeFrames c.frames).length ≤ 1
  unseen : ∀ callback ∈ closeFrames c.frames, ∀ entry ∈ c.seen, callback ≤ entry.1 →
    entry.2.closes = false
  written : ∀ data ∈ c.flushed, data <+: c.written
  flushing : c.fd = true → c.closeWithFlush = false → c.flushed = none
  fits : ∀ frame ∈ c.frames, frame.Fits c
  flushed : .localClose ∈ c.raised → c.noFlush = false → ∀ data ∈ c.flushed, data <+: c.given
  blocked : c.fd = true → c.connecting = false → c.ready = false → c.eagain = true
  connects : c.fd = true → c.connecting = true → c.bindError = false → c.pending = true →
    c.ready = true

def Progress (c : Connection) : Prop :=
  c.fd = true → c.closeWithFlush = true → c.writeBuffer ≠ [] →
    c.connecting = true ∨ c.pending = true ∨ c.ready = false ∨
      ∃ frame ∈ c.frames, frame.writes = true

theorem Core.closes (h : Core c) (hprogress : Progress c) : Closes c where
  sent := ⟨c.writeBuffer, h.accounts.symm⟩
  raises := by
    cases hfd : c.fd with
    | true =>
      have hnone := h.openRaised hfd
      refine ⟨.of_all hnone, ?_⟩
      rw [state, hfd]
      constructor
      · intro hclosed
        cases hflush : c.closeWithFlush <;> simp [hflush] at hclosed
      · rintro ⟨event, hmem, hcloses⟩
        rw [hnone event hmem] at hcloses
        cases hcloses
    | false =>
      obtain ⟨before, event, hraised, hcloses, hbefore⟩ := h.closedRaised hfd
      rw [hraised, state, hfd]
      exact ⟨.concat hbefore event,
        ⟨fun _ => ⟨event, mem_append_right _ mem_cons_self, hcloses⟩, fun _ => rfl⟩⟩
  seen := h.seen
  flushed := h.flushed
  notStranded := by
    intro hidle hclosing hbuffer
    have hfd : c.fd = true := by
      rw [state] at hclosing
      split at hclosing
      · assumption
      · cases hclosing
    have hflush : c.closeWithFlush = true := by
      rw [state, if_pos hfd] at hclosing
      split at hclosing
      · assumption
      · cases hclosing
    cases hconnecting : c.connecting with
    | true => exact .inl rfl
    | false =>
      rcases hprogress hfd hflush hbuffer with h' | hpending | hready | ⟨frame, hmem, -⟩
      · rw [hconnecting] at h'
        cases h'
      · exact .inr (.inl hpending)
      · exact .inr (.inr (h.blocked hfd hconnecting hready))
      · rw [hidle] at hmem
        cases hmem

variable {frame : Frame}

theorem Core.push (h : Core c) (hclose : closeFrames [frame] = [])
    (hfits : frame.Fits c) : Core (c.push frame) := by
  have hframes : closeFrames (c.push frame).frames = closeFrames c.frames := by
    show closeFrames ([frame] ++ c.frames) = _
    rw [closeFrames, filterMap_append, ← closeFrames, hclose, nil_append, closeFrames]
  exact { h with
    openFrames := fun hfd => by rw [hframes]; exact h.openFrames hfd
    oneFrame := by rw [hframes]; exact h.oneFrame
    unseen := by rw [hframes]; exact h.unseen
    fits := forall_mem_cons.mpr ⟨hfits, h.fits⟩ }

variable {frames : List Frame}

theorem Core.pop (h : Core c) (hframes : c.frames = frame :: frames) :
    Core { c with frames := frames } := by
  have hsub : ∀ callback ∈ closeFrames frames, callback ∈ closeFrames c.frames := by
    intro callback hmem
    rw [hframes, closeFrames, filterMap_cons]
    split
    · exact hmem
    · exact mem_cons_of_mem _ hmem
  exact { h with
    openFrames := fun hfd => by
      rw [eq_nil_iff_forall_not_mem]
      intro callback hmem
      have := hsub callback hmem
      rw [h.openFrames hfd] at this
      cases this
    oneFrame := by
      have hone := h.oneFrame
      rw [hframes, closeFrames, filterMap_cons] at hone
      split at hone
      · exact hone
      · exact Nat.le_of_succ_le hone
    unseen := fun callback hmem => h.unseen callback (hsub callback hmem)
    fits := by
      have hfits := h.fits
      rw [hframes, forall_mem_cons] at hfits
      exact hfits.2 }

theorem Core.closeSocket {closeType : ConnectionEvent} (h : Core c)
    (hcloses : closeType.closes = true)
    (hflushed : closeType = .localClose → c.noFlush = false → ∀ data ∈ c.flushed, data <+: c.given) :
    Core (c.closeSocket closeType) := by
  rw [Connection.closeSocket]
  split
  · rename_i hfd
    have hframes : closeFrames (.raiseEvent closeType 0 :: c.frames) = [0] := by
      rw [closeFrames, filterMap_cons, ← closeFrames, h.openFrames hfd]
      simp [hcloses]
    exact { h with
      openRaised := nofun
      closedRaised := fun _ => ⟨c.raised, closeType, rfl, hcloses, h.openRaised hfd⟩
      openSeen := nofun
      openFrames := nofun
      oneFrame := by
        show (closeFrames (.raiseEvent closeType 0 :: c.frames)).length ≤ 1
        rw [hframes]
        exact Nat.le_refl 1
      unseen := fun _ _ entry hentry _ => h.openSeen hfd entry hentry
      flushing := nofun
      fits := forall_mem_cons.mpr ⟨trivial, h.fits⟩
      flushed := fun hmem hno => by
        rcases mem_append.mp hmem with hmem | hmem
        · have := h.openRaised hfd _ hmem
          cases this
        · exact hflushed (mem_singleton.mp hmem).symm hno
      blocked := nofun
      connects := nofun }
  · exact h

theorem progress_closeSocket (c : Connection) (closeType : ConnectionEvent) :
    Progress (c.closeSocket closeType) := by
  rw [Connection.closeSocket]
  split
  · nofun
  · rename_i hfd
    exact fun hfd' => absurd hfd' hfd

theorem Progress.push (h : Progress c) (frame : Frame) : Progress (c.push frame) := by
  intro hfd hflush hbuffer
  rcases h hfd hflush hbuffer with h | h | h | ⟨frame, hmem, hwrites⟩
  · exact .inl h
  · exact .inr (.inl h)
  · exact .inr (.inr (.inl h))
  · exact .inr (.inr (.inr ⟨frame, mem_cons_of_mem _ hmem, hwrites⟩))

theorem progress_push (hwrites : frame.writes = true) (c : Connection) :
    Progress (c.push frame) :=
  fun _ _ _ => .inr (.inr (.inr ⟨frame, mem_cons_self, hwrites⟩))

theorem Progress.pop (h : Progress c) (hframes : c.frames = frame :: frames)
    (hwrites : frame.writes = false) : Progress { c with frames := frames } := by
  intro hfd hflush hbuffer
  rcases h hfd hflush hbuffer with h | h | h | ⟨frame', hmem, hwrites'⟩
  · exact .inl h
  · exact .inr (.inl h)
  · exact .inr (.inr (.inl h))
  · rw [hframes] at hmem
    rcases mem_cons.mp hmem with rfl | hmem
    · rw [hwrites] at hwrites'
      cases hwrites'
    · exact .inr (.inr (.inr ⟨frame', hmem, hwrites'⟩))

theorem Core.seenOpen (h : Core c) (hfd : c.fd = true) (callback : Nat) :
    Core { c with seen := c.seen ++ [(callback, .connected)] } := by
  have hall : ∀ entry ∈ c.seen ++ [(callback, .connected)], entry.2.closes = false := by
    intro entry hentry
    rcases mem_append.mp hentry with hentry | hentry
    · exact h.openSeen hfd entry hentry
    · rw [mem_singleton.mp hentry]
      rfl
  exact { h with
    openSeen := fun _ => hall
    seen := fun callback => by
      refine .of_all fun event hmem => ?_
      obtain ⟨entry, hentry, rfl⟩ := List.mem_map.mp hmem
      exact hall entry (mem_of_mem_filter hentry)
    unseen := fun _ _ entry hentry _ => hall entry hentry }

variable {event : ConnectionEvent} {callback : Nat}

theorem Core.seenClosed (h : Core c) (hframes : c.frames = .raiseEvent event callback :: frames)
    (hcloses : event.closes = true) :
    Core (({ c with frames := frames, seen := c.seen ++ [(callback, event)] } : Connection).push
      (.raiseEvent event (callback + 1))) := by
  have hnow : closeFrames c.frames = callback :: closeFrames frames := by
    rw [hframes, closeFrames, filterMap_cons]
    simp [hcloses, closeFrames]
  have hrest : closeFrames frames = [] := by
    have hone := h.oneFrame
    rw [hnow, length_cons] at hone
    exact length_eq_zero_iff.mp (by omega)
  have hnext : closeFrames (.raiseEvent event (callback + 1) :: frames) = [callback + 1] := by
    rw [closeFrames, filterMap_cons, ← closeFrames, hrest]
    simp [hcloses]
  have hclosed : c.fd = false := by
    cases hfd : c.fd with
    | false => rfl
    | true =>
      have := h.openFrames hfd
      rw [hnow] at this
      cases this
  have hpop := h.pop hframes
  have hunseen := h.unseen callback (by rw [hnow]; exact mem_cons_self)
  exact { hpop with
    openSeen := fun hfd => by
      rw [show c.fd = true from hfd] at hclosed
      cases hclosed
    seen := fun callback' => by
      show Ended (((c.seen ++ [(callback, event)]).filter _).map _)
      rw [filter_append, map_append]
      by_cases hself : callback = callback'
      · rw [filter_cons_of_pos (by simpa using hself), filter_nil]
        refine .concat (fun e hmem => ?_) event
        obtain ⟨entry, hentry, rfl⟩ := List.mem_map.mp hmem
        obtain ⟨hentry, heq⟩ := mem_filter.mp hentry
        exact hunseen entry hentry (by simp only [decide_eq_true_eq] at heq; omega)
      · rw [filter_cons_of_neg (by simpa using hself), filter_nil, map_nil, append_nil]
        exact h.seen callback'
    openFrames := fun hfd => by
      rw [show c.fd = true from hfd] at hclosed
      cases hclosed
    oneFrame := by
      show (closeFrames (.raiseEvent event (callback + 1) :: frames)).length ≤ 1
      rw [hnext]
      exact Nat.le_refl 1
    unseen := fun callback' hmem entry hentry hle => by
      have hmem : callback' ∈ closeFrames (.raiseEvent event (callback + 1) :: frames) := hmem
      rw [hnext, mem_singleton] at hmem
      rcases mem_append.mp hentry with hentry | hentry
      · exact hunseen entry hentry (by omega)
      · rw [mem_singleton.mp hentry] at hle
        omega
    fits := forall_mem_cons.mpr ⟨trivial, hpop.fits⟩ }

variable {answer : IoAnswer}

theorem core_resume_raiseEvent (h : Core c) (hframes : c.frames = .raiseEvent event callback :: frames)
    (hregular : c.fd = false → event = .connected → c.callbacks ≤ callback)
    (hstep : ({ c with frames := frames } : Connection).resume answer
      (.raiseEvent event callback) = some c') : Core c' := by
  rw [resume] at hstep
  split at hstep
  · rename_i hleft
    cases hstep
    cases hcloses : event.closes with
    | true => exact h.seenClosed hframes hcloses
    | false =>
      have hevent : event = .connected := by
        cases event with
        | connected => rfl
        | _ => cases hcloses
      subst hevent
      have hfd : c.fd = true := by
        cases hfd : c.fd with
        | true => rfl
        | false => exact absurd (hregular hfd rfl) (Nat.not_le.mpr hleft)
      exact ((h.pop hframes).seenOpen hfd callback).push rfl trivial
  · cases hstep
    exact h.pop hframes

variable {closing : Bool} {action : PostIoAction}

theorem core_doneWriting (h : Core c) (hclosing : closing = true → c.noFlush = true) :
    Core (c.doneWriting closing action) := by
  rw [doneWriting]
  split
  · rename_i hno
    exact h.closeSocket rfl fun _ hflush => by
      rw [hclosing hno] at hflush
      cases hflush
  · split
    · exact h.closeSocket rfl nofun
    · split
      · rename_i hflushed
        simp only [Bool.and_eq_true, List.isEmpty_iff] at hflushed
        refine h.closeSocket rfl fun _ _ data hdata => ?_
        have hwritten := h.written data hdata
        rwa [h.accounts, hflushed.2, append_nil] at hwritten
      · exact h

theorem progress_doneWriting (h : c.writeBuffer = [] ∨ c.ready = false ∨ action = .close) :
    Progress (c.doneWriting closing action) := by
  rw [doneWriting]
  split
  · exact progress_closeSocket c _
  · split
    · exact progress_closeSocket c _
    · rename_i haction
      split
      · exact progress_closeSocket c _
      · intro _ _ hbuffer
        rcases h with h | h | h
        · exact absurd h hbuffer
        · exact .inr (.inr (.inl h))
        · exact absurd h haction

section

variable (h : Core c)
include h

theorem Core.wrote (hready : c.ready = true) (n : Nat) : Core { c with
      writeBuffer := c.writeBuffer.drop n
      given := c.given ++ c.writeBuffer.take n
      eagain := false } :=
  { h with
    accounts := by
      show c.written = c.given ++ c.writeBuffer.take n ++ c.writeBuffer.drop n
      rw [append_assoc, take_append_drop]
      exact h.accounts
    flushed := fun hmem hno data hdata =>
      (h.flushed hmem hno data hdata).trans (prefix_append _ _)
    blocked := fun _ _ hblocked => by
      rw [show c.ready = false from hblocked] at hready
      cases hready }

theorem Core.failed : Core { c with ready := true, eagain := false } :=
  { h with
    blocked := nofun
    connects := fun _ _ _ _ => rfl }

theorem Core.blocks (hconnected : c.connecting = false) :
    Core { c with ready := false, eagain := true } :=
  { h with
    blocked := fun _ _ _ => rfl
    connects := fun _ hconnecting => by
      rw [show c.connecting = true from hconnecting] at hconnected
      cases hconnected }

theorem core_eagain_close (hno : c.noFlush = true) (hfd : c.fd = true) :
    Core (({ c with ready := false, eagain := true } : Connection).closeSocket .localClose) := by
  have hclosed : Core (c.closeSocket .localClose) :=
    h.closeSocket rfl fun _ hflush => by
      rw [hno] at hflush
      cases hflush
  rw [closeSocket, if_pos hfd] at hclosed ⊢
  exact { hclosed with
    blocked := nofun
    connects := nofun }

theorem doWriteToSocket_keeps (hfits : (Frame.doWriteToSocket closing).Fits c)
    (hstep : c.doWriteToSocket closing answer = some c') : Core c' ∧ Progress c' := by
  have hno : closing = true → c.noFlush = true := by
    rintro rfl
    exact hfits
  unfold Connection.doWriteToSocket at hstep
  split at hstep
  · rename_i hempty
    cases hstep
    exact ⟨core_doneWriting h hno, progress_doneWriting (.inl hempty)⟩
  · cases answer with
    | wrote n =>
      obtain ⟨hguard, rfl⟩ := ite_some_none_eq_some.mp hstep
      simp only [Bool.and_eq_true] at hguard
      refine ⟨(h.wrote hguard.1.2 n).push rfl ?_, progress_push rfl _⟩
      cases closing <;> exact hfits
    | eagain =>
      obtain ⟨hfd, rfl⟩ := ite_some_none_eq_some.mp hstep
      refine ⟨?_, progress_doneWriting (.inr (.inl rfl))⟩
      cases closing with
      | true => exact core_eagain_close h hfits hfd
      | false => exact core_doneWriting (h.blocks hfits) (by simp)
    | error =>
      cases hstep
      exact ⟨core_doneWriting h.failed hno, progress_doneWriting (.inr (.inr rfl))⟩
    | read action => cases hstep

theorem Core.given_eq (hempty : c.writeBuffer = []) : c.written = c.given := by
  rw [h.accounts, hempty, append_nil]

theorem core_close_empty (hfd : c.fd = true) (hempty : c.writeBuffer = [])
    (type : ConnectionCloseType) : Core ((c.requested type).closeSocket .localClose) := by
  have hgiven := h.given_eq hempty
  have hclosed : Core (c.closeSocket .localClose) :=
    h.closeSocket rfl fun _ _ data hdata => by
      rw [← hgiven]
      exact h.written data hdata
  rw [closeSocket, if_pos hfd] at hclosed
  cases type with
  | noFlush =>
    rw [requested, closeSocket, if_pos hfd]
    exact { hclosed with
      fits := forall_mem_cons.mpr ⟨trivial, fun frame hmem => (h.fits frame hmem).noFlush⟩
      flushed := nofun }
  | flushWrite =>
    rw [requested, closeSocket, if_pos hfd]
    exact { hclosed with
      fits := forall_mem_cons.mpr ⟨trivial, h.fits⟩
      written := fun data hdata => by
        cases hdata
        exact prefix_rfl
      flushing := nofun
      flushed := fun _ _ data hdata => by
        cases hdata
        exact hgiven ▸ prefix_rfl }

theorem close_keeps (hprogress : Progress c) (type : ConnectionCloseType) :
    Core (c.close type) ∧ Progress (c.close type) := by
  unfold Connection.close
  split
  · exact ⟨h, hprogress⟩
  · rename_i hopen
    have hfd : c.fd = true := by simpa using hopen
    split
    · rename_i hempty
      exact ⟨core_close_empty h hfd hempty type, progress_closeSocket _ _⟩
    · cases type with
      | noFlush =>
        have hrequested : Core (c.requested .noFlush) :=
          { h with
            fits := fun frame hmem => (h.fits frame hmem).noFlush
            flushed := nofun }
        exact ⟨hrequested.push rfl rfl, progress_push rfl _⟩
      | flushWrite =>
        refine ⟨{ h with
          written := fun data hdata => ?_
          flushing := nofun
          flushed := fun hmem => ?_
          connects := fun _ _ _ hpending => hpending }, fun _ _ _ => ?_⟩
        · cases hdata
          exact prefix_rfl
        · have := h.openRaised hfd _ hmem
          cases this
        · cases hready : c.ready with
          | true => exact .inr (.inl hready)
          | false => exact .inr (.inr (.inl hready))

theorem Core.write (data : Bytes) (status : FilterStatus) : Core (c.write data status) := by
  rw [Connection.write]
  split
  · exact h
  · split
    · exact h
    · have hcore : Core { c with
          writeBuffer := c.writeBuffer ++ data
          written := c.written ++ data } :=
        { h with
          accounts := by
            show c.written ++ data = c.given ++ (c.writeBuffer ++ data)
            rw [h.accounts, append_assoc]
          written := fun old hold => (h.written old hold).trans (prefix_append _ _) }
      exact hcore.push rfl trivial

end

theorem Progress.write (h : Progress c) (data : Bytes) (status : FilterStatus) :
    Progress (c.write data status) := by
  rw [Connection.write]
  split
  · exact h
  · split
    · exact h
    · exact progress_push rfl _

theorem readDisable_keeps {disable : Bool} (h : Core c)
    (hstep : c.readDisable disable = some c') : Core c' ∧ Progress c' := by
  obtain ⟨hstate, hstep⟩ := ite_none_right_eq_some.mp hstep
  obtain ⟨readSide, -, rfl⟩ := map_eq_some_iff.mp hstep
  have hflush : c.fd = true → c.closeWithFlush = false := by
    intro hfd
    rw [state, if_pos hfd] at hstate
    split at hstate
    · cases hstate
    · rename_i hflush
      simpa using hflush
  split
  · exact ⟨{ h with }, fun hfd hclosing => by
      rw [show c.closeWithFlush = true from hclosing] at hflush
      cases hflush hfd⟩
  · exact ⟨{ h with connects := fun _ _ _ hpending => hpending }, fun hfd hclosing => by
      rw [show c.closeWithFlush = true from hclosing] at hflush
      cases hflush hfd⟩

theorem doConnect_keeps {started : Bool} (h : Core c) (hprogress : Progress c)
    (hstep : c.doConnect started = some c') : Core c' ∧ Progress c' := by
  obtain ⟨-, hstep⟩ := ite_none_right_eq_some.mp hstep
  split at hstep
  · cases hstep
    exact ⟨h, hprogress⟩
  · cases hstep
    exact ⟨{ h with
      fits := fun frame hmem => (h.fits frame hmem).connected
      blocked := nofun
      connects := nofun }, fun _ _ _ => .inr (.inl rfl)⟩

theorem core_connected (h : Core c) (hfd : c.fd = true) (hready : c.ready = true) :
    Core ((({ c with connecting := false } : Connection).push .connected).raiseEvent
      .connected) := by
  have hnone := h.openFrames hfd
  have hcore : Core { c with connecting := false, raised := c.raised ++ [.connected] } :=
    { h with
      openRaised := fun _ event hmem => by
        rcases mem_append.mp hmem with hmem | hmem
        · exact h.openRaised hfd event hmem
        · rw [mem_singleton.mp hmem]
          rfl
      closedRaised := fun hclosed => by
        rw [show c.fd = false from hclosed] at hfd
        cases hfd
      fits := fun frame hmem => (h.fits frame hmem).connected
      flushed := fun hmem => by
        rcases mem_append.mp hmem with hmem | hmem
        · exact h.flushed hmem
        · cases mem_singleton.mp hmem
      blocked := fun _ _ hblocked => by
        rw [show c.ready = false from hblocked] at hready
        cases hready
      connects := nofun }
  have hfits : Frame.connected.Fits { c with connecting := false, raised := c.raised ++ [.connected] } :=
    rfl
  exact (hcore.push rfl hfits).push rfl trivial

variable {error : Bool}

theorem onWriteReady_keeps (h : Core c) (hfd : c.fd = true)
    (hconnects : c.connecting = true → error = false → c.ready = true ∧ c.closeWithFlush = false) :
    Core (c.onWriteReady error) ∧ Progress (c.onWriteReady error) := by
  rw [onWriteReady]
  split
  · rename_i hconnecting
    split
    · exact ⟨h.closeSocket rfl nofun, progress_closeSocket _ _⟩
    · rename_i herror
      obtain ⟨hready, hflush⟩ := hconnects hconnecting (by simpa using herror)
      refine ⟨core_connected h hfd hready, fun _ hclosing => ?_⟩
      rw [show c.closeWithFlush = true from hclosing] at hflush
      cases hflush
  · rename_i hconnecting
    have hconnected : c.connecting = false := by simpa using hconnecting
    exact ⟨h.push rfl hconnected, progress_push rfl _⟩

theorem onFileEvent_keeps {events : FileReadyType} (h : Core c)
    (hprogress : events.write = false → Progress c) (hfd : c.fd = true)
    (hregular : c.Regular (.fileEvent events error))
    (hready : events.write = true → c.connecting = true → c.bindError = false → c.ready = true)
    (hstep : c.onFileEvent events error = some c') : Core c' ∧ Progress c' := by
  rw [onFileEvent] at hstep
  split at hstep
  · cases hstep
    exact ⟨h.closeSocket rfl nofun, progress_closeSocket _ _⟩
  rename_i himmediate
  split at hstep
  · rename_i hbind
    cases hstep
    -- The bind error is not reported while the connection closes, so no flush was asked for.
    have hflush : c.closeWithFlush = false := by
      cases hflush : c.closeWithFlush with
      | false => rfl
      | true => exact absurd ((hregular hflush).2 hbind) himmediate
    refine ⟨h.closeSocket rfl fun _ _ data hdata => ?_, progress_closeSocket _ _⟩
    rw [h.flushing hfd hflush] at hdata
    cases hdata
  rename_i hbind
  split at hstep
  · obtain ⟨-, hstep⟩ := ite_none_left_eq_some.mp hstep
    cases hstep
    exact ⟨h.closeSocket rfl nofun, progress_closeSocket _ _⟩
  rename_i hclosed
  cases hstep
  have hconnects : events.write = true → c.connecting = true → error = false →
      c.ready = true ∧ c.closeWithFlush = false := by
    intro hwrite hconnecting herror
    refine ⟨hready hwrite hconnecting (by simpa using hbind), ?_⟩
    cases hflush : c.closeWithFlush with
    | false => rfl
    | true =>
      have hno := (hregular hflush).1
      simp [connects, hconnecting, hwrite, herror, hclosed, himmediate, hbind] at hno
  split
  · rename_i hwrite
    split
    · exact onWriteReady_keeps (h.push rfl trivial) hfd (hconnects hwrite)
    · exact onWriteReady_keeps h hfd (hconnects hwrite)
  · rename_i hwrite
    have hkept := hprogress (by simpa using hwrite)
    split
    · exact ⟨h.push rfl trivial, hkept.push _⟩
    · exact ⟨h, hkept⟩

theorem fileEvent_keeps {events : FileReadyType} (h : Core c) (hprogress : Progress c)
    (hregular : c.Regular (.fileEvent events error))
    (hstep : c.step (.fileEvent events error) = some c') : Core c' ∧ Progress c' := by
  obtain ⟨hguard, hstep⟩ := ite_none_right_eq_some.mp hstep
  simp only [Bool.and_eq_true, Bool.or_eq_true, Bool.not_eq_true'] at hguard
  obtain ⟨⟨hfd, -⟩, hready⟩ := hguard
  have hcore : Core { c with pending := c.pending && !events.write } :=
    { h with
      connects := fun hfd hconnecting hbind hpending =>
        h.connects hfd hconnecting hbind (Bool.and_eq_true_iff.mp hpending).1 }
  refine onFileEvent_keeps hcore ?_ hfd hregular ?_ hstep
  · intro hwrite
    rw [hwrite, Bool.not_false, Bool.and_true]
    exact hprogress
  · intro hwrite hconnecting hbind
    rcases hready with (hno | hready) | hpending
    · rw [hno] at hwrite
      cases hwrite
    · exact hready
    · exact h.connects hfd hconnecting hbind hpending

theorem resume_keeps {frame : Frame} (h : Core c) (hprogress : Progress c)
    (hframes : c.frames = frame :: frames)
    (hregular : c.fd = false → frame.tellsConnected c.callbacks = false)
    (hstep : ({ c with frames := frames } : Connection).resume answer frame = some c') :
    Core c' ∧ Progress c' := by
  have hpop := h.pop hframes
  have hfits : frame.Fits c := h.fits frame (by rw [hframes]; exact mem_cons_self)
  cases frame with
  | raiseEvent event callback =>
    refine ⟨core_resume_raiseEvent h hframes (fun hfd hevent => ?_) hstep, ?_⟩
    · subst hevent
      simpa [Frame.tellsConnected] using hregular hfd
    · have hrest := hprogress.pop hframes rfl
      rw [resume] at hstep
      split at hstep
      · cases hstep
        exact hrest.push _
      · cases hstep
        exact hrest
  | connected =>
    cases hstep
    split
    · exact ⟨hpop.push rfl hfits, progress_push rfl _⟩
    · exact ⟨hpop, hprogress.pop hframes rfl⟩
  | doWriteToSocket closing =>
    refine doWriteToSocket_keeps hpop ?_ hstep
    cases closing <;> exact hfits
  | readReady =>
    have hrest := hprogress.pop hframes rfl
    rw [resume] at hstep
    split at hstep
    · unfold onReadReady at hstep
      split at hstep
      · cases hstep
        exact ⟨hpop.push rfl trivial, hrest.push _⟩
      · cases hstep
    · cases hstep
      exact ⟨hpop, hrest⟩
  | onRead action =>
    cases hstep
    split
    · exact ⟨hpop.closeSocket rfl nofun, progress_closeSocket _ _⟩
    · exact ⟨hpop, hprogress.pop hframes rfl⟩
  | activate =>
    rw [resume, activate] at hstep
    split at hstep
    · rename_i hconnecting
      cases hstep
      exact ⟨hpop, fun _ _ _ => .inl hconnecting⟩
    · rename_i hconnecting
      obtain ⟨hfd, rfl⟩ := ite_some_none_eq_some.mp hstep
      exact ⟨{ hpop with connects := fun _ hconnecting' => absurd hconnecting' hconnecting },
        fun _ _ _ => .inr (.inl rfl)⟩

theorem step_keeps {event : Event} (h : Core c ∧ Progress c) (hregular : c.Regular event)
    (hstep : c.step event = some c') : Core c' ∧ Progress c' := by
  obtain ⟨hcore, hprogress⟩ := h
  cases event with
  | write data status =>
    cases hstep
    exact ⟨hcore.write data status, hprogress.write data status⟩
  | close type =>
    cases hstep
    exact close_keeps hcore hprogress type
  | readDisable disable => exact readDisable_keeps hcore hstep
  | addConnectionCallbacks =>
    cases hstep
    exact ⟨{ hcore with }, hprogress⟩
  | doConnect started => exact doConnect_keeps hcore hprogress hstep
  | edge =>
    obtain ⟨-, rfl⟩ := ite_some_none_eq_some.mp hstep
    exact ⟨{ hcore with blocked := nofun, connects := fun _ _ _ _ => rfl },
      fun _ _ _ => .inr (.inl rfl)⟩
  | fileEvent events error => exact fileEvent_keeps hcore hprogress hregular hstep
  | resume answer =>
    cases hframes : c.frames with
    | nil => simp [step, hframes] at hstep
    | cons frame frames =>
      refine resume_keeps hcore hprogress hframes ?_ (by simpa only [step, hframes] using hstep)
      exact fun hfd => hregular hfd frame (by rw [hframes]; rfl)

theorem core_accepted : Core accepted where
  accounts := rfl
  openRaised := fun _ => forall_mem_nil _
  closedRaised := nofun
  openSeen := fun _ => forall_mem_nil _
  seen := fun _ => forall_mem_nil _
  openFrames := fun _ => rfl
  oneFrame := Nat.zero_le 1
  unseen := nofun
  written := nofun
  flushing := fun _ _ => rfl
  fits := nofun
  flushed := nofun
  blocked := nofun
  connects := nofun

theorem core_client (bindError : Bool) : Core (client bindError) :=
  { core_accepted with
    fits := nofun
    blocked := nofun
    connects := fun _ _ hbind hpending => by
      rw [show bindError = true from hpending] at hbind
      cases hbind }

/-- The connections that a run starts with. -/
inductive Created : Connection → Prop where
  | accepted : Created accepted
  | client (bindError : Bool) : Created (client bindError)

theorem regular_closes {created : Connection} {events : List Event} (hcreated : Created created)
    (hregular : AllMeet step Regular created events)
    (hrun : run step created events = some c) : Closes c := by
  have hinv : Core c ∧ Progress c := by
    refine run_invariant (fun _ _ _ hinv hmeet hstep => step_keeps hinv hmeet hstep) hregular ?_ hrun
    cases hcreated with
    | accepted => exact ⟨core_accepted, nofun⟩
    | client bindError => exact ⟨core_client bindError, nofun⟩
  exact hinv.1.closes hinv.2

/-- Bytes are written in the connect, and the connection is closed in the callback that hears of the
connect. The first attempt to write the rest finds the socket not ready. -/
def flushedEvents : List Event :=
  [.addConnectionCallbacks, .doConnect true, .write (ascii "ab") .continue, .resume .eagain, .edge,
    .fileEvent ⟨false, true, false⟩ false, .resume .eagain, .close .flushWrite, .resume .eagain,
    .resume .eagain, .fileEvent ⟨false, true, false⟩ false, .resume (.wrote 1), .resume .eagain,
    .edge, .fileEvent ⟨false, true, false⟩ false, .resume (.wrote 1), .resume .eagain,
    .resume .eagain, .resume .eagain]

theorem flushedEvents_closes : ∃ c, run step (client false) flushedEvents = some c ∧ c.given = ascii "ab" ∧
    c.raised = [.connected, .localClose] ∧ Closes c :=
  have hregular : AllMeet step Regular (client false) flushedEvents := by decide
  ⟨_, rfl, rfl, rfl, regular_closes (.client false) hregular rfl⟩

/-- A connection is closed in the connect with a byte left to write. When the connect completes,
nothing writes it. -/
def closedInConnect : List Event :=
  [.doConnect true, .write (ascii "a") .continue, .resume .eagain, .close .flushWrite, .edge,
    .fileEvent ⟨false, true, false⟩ false, .resume .eagain, .resume .eagain]

theorem closedInConnect_strands :
    ∃ c, run step (client false) closedInConnect = some c ∧ ¬ Closes c := by
  refine ⟨_, rfl, fun h => ?_⟩
  rcases h.notStranded rfl rfl (by decide) with h | h | h <;> cases h

/-- The first of two callbacks closes the connection when it hears of the connect. -/
example : (run step (client false) [.addConnectionCallbacks, .addConnectionCallbacks, .edge,
    .fileEvent ⟨false, true, false⟩ false, .resume .eagain, .close .noFlush, .resume .eagain,
    .resume .eagain, .resume .eagain, .resume .eagain]).map (seenBy · 1) =
      some [.localClose, .connected] := by
  decide

end Connection

end Meliproxy.Envoy.Network
