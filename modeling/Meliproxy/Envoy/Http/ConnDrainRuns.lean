import Meliproxy.Envoy.Http.ConnDrain

/-!
# No connection is kept open by idling

Between two events either a stream is active, or the idle timer is armed, or the drain of the
connection has begun, and the drain ends with the end of the connection. The last stream must not
be reset by the codec: on that path nothing arms the timer again.
-/

namespace Meliproxy.Envoy.Http

open Lib List Option

def CarriesClose (m : HeaderMap) : Prop :=
  (m.value .connection).map HeaderString.cStr = some (ascii "close")

variable {m : HeaderMap}

theorem consistent_mutateResponseHeaders (config : DrainConfig) (request : HeaderMap)
    (hc : m.Consistent) : (mutateResponseHeaders config request m).Consistent := by
  have hremoved := HeaderMap.consistent_removeInline
    (HeaderMap.consistent_removeInline hc .connection) .transferEncoding
  have hremove : ∀ (keys : List LowerCaseString) {m : HeaderMap}, m.Consistent →
      (keys.foldl HeaderMap.remove m).Consistent := by
    intro keys
    induction keys with
    | nil => exact fun h => h
    | cons key keys ih => exact fun h => ih (HeaderMap.consistent_remove h key)
  have hadd : ∀ (l : List (LowerCaseString × Bytes)) {m : HeaderMap}, m.Consistent →
      (l.foldl (fun m header => m.addReference header.1 header.2) m).Consistent := by
    intro l
    induction l with
    | nil => exact fun h => h
    | cons header l ih => exact fun h => ih (HeaderMap.consistent_insertByKey h _ _)
  rw [mutateResponseHeaders]
  have hadded := hadd config.responseHeadersToAdd (hremove config.responseHeadersToRemove hremoved)
  split
  · exact HeaderMap.consistent_insertInline hadded _ _
  · exact hadded

theorem carriesClose_encodedHeaders (config : DrainConfig) (a : Answers) (hc : m.Consistent) :
    CarriesClose (encodedHeaders config true a m) := by
  have hdated := HeaderMap.consistent_insertInline hc .date (·.setCopy a.date)
  have hserver := HeaderMap.consistent_insertInline hdated .server
    fun _ => .setReference config.serverName
  have hmutated := consistent_mutateResponseHeaders config a.requestHeaders.1 hserver
  have hclose := HeaderMap.consistent_insertInline hmutated .connection
    fun _ => .setReference (ascii "close")
  have hvalue := HeaderMap.value_insertInline hmutated .connection
    fun _ => .setReference (ascii "close")
  have hbytes : (HeaderString.setReference (ascii "close")).cStr = ascii "close" := by decide
  rw [CarriesClose, encodedHeaders]
  simp only [if_true]
  split
  · rw [HeaderMap.value_insertInline_of_ne hclose _ (by decide), hvalue, map_some, hbytes]
  · rw [HeaderMap.value_removeInline_of_ne hclose (by decide), hvalue, map_some, hbytes]
  · rw [hvalue, map_some, hbytes]

namespace ConnectionManagerImpl

variable (config : DrainConfig) (s : ConnectionManagerImpl)

/-- The connection is not kept open by idling, and the wish of a request to end it is met. -/
structure NotPinned : Prop where
  idle : config.idleTimeout = true → s.isOpen = true → s.streams = [] →
    s.idleTimer = some true ∨ s.drainState ≠ .notDraining
  active : s.streams ≠ [] → s.idleTimer ≠ some true
  told : s.drainState = .closing → s.streams = [] → s.wantsToWrite = false → s.dispatching = false →
    s.isOpen = false
  carries : ∀ r ∈ s.responses, r.wantsClose = true → CarriesClose r.headers
  last : ∀ before r after, s.responses = before ++ r :: after → r.wantsClose = true → after = []
  closed : s.closed = true → s.idleTimer ≠ some true ∧ s.drainTimer ≠ some true

/-- The timers fit the streams and the drain state. -/
structure Core : Prop where
  timer : s.idleTimer.isSome = (config.idleTimeout && !s.closed)
  active : s.idleTimer = some true → s.streams = []
  drain : s.drainTimer = some true → s.drainState ≠ .notDraining
  closed : s.closed = true → s.isOpen = false ∧ s.drainTimer = none ∧
    (s.drainState = .closing ∨ s.streams = [] ∧ s.dispatching = false)
  single : config.http2 = false → s.streams.length ≤ 1
  writes : config.http2 = false → s.wantsToWrite = false

def Idle : Prop :=
  config.idleTimeout = true → s.isOpen = true → s.streams = [] →
    s.idleTimer = some true ∨ s.drainState ≠ .notDraining

def Told : Prop :=
  s.drainState = .closing → s.streams = [] → s.wantsToWrite = false →
    (s.dispatching = false ∨ config.http2 = false) → s.isOpen = false

/-- The response to a request that wants the end of the connection is the last one. -/
structure Replies : Prop where
  wants : ∀ stream ∈ s.streams, stream.wantsClose = true → config.http2 = false
  carries : ∀ r ∈ s.responses, r.wantsClose = true → CarriesClose r.headers
  last : ∀ before r after, s.responses = before ++ r :: after → r.wantsClose = true → after = []
  done : (∃ r ∈ s.responses, r.wantsClose = true) →
    config.http2 = false ∧ s.drainState = .closing ∧ ∀ stream ∈ s.streams, stream.responded = true

structure Inv : Prop where
  core : Core config s
  idle : Idle config s
  told : Told config s
  replies : Replies config s

variable {s} {a : Answers}

theorem inv_create : Inv config (create config) := by
  refine ⟨⟨?_, ?_, ?_, ?_, ?_, ?_⟩, ?_, ?_, ⟨?_, ?_, ?_, ?_⟩⟩
  · cases htimeout : config.idleTimeout <;> simp [create, htimeout]
  all_goals simp [create, Idle, Told]

variable {config}

theorem Inv.notPinned (h : Inv config s) : NotPinned config s where
  idle := h.idle
  active hstreams htimer := hstreams (h.core.active htimer)
  told hclosing hempty hwrites hquiet := h.told hclosing hempty hwrites (.inl hquiet)
  carries := h.replies.carries
  last := h.replies.last
  closed hclosed := by
    have htimer := h.core.timer
    have := h.core.closed hclosed
    constructor
    · intro harmed
      simp [hclosed, harmed] at htimer
    · simp [this.2.1]

theorem close_isOpen (s : ConnectionManagerImpl) (a : Answers) : (s.close a).isOpen = false := by
  rw [close]
  split <;> rfl

theorem Core.close (h : Core config s) (hend : s.drainState = .closing ∨ s.dispatching = false) :
    Core config (s.close a) := by
  rw [ConnectionManagerImpl.close]
  split
  · refine ⟨?_, ?_, ?_, ?_, ?_, h.writes⟩
    · simp [onClose]
    · simp [onClose]
    · simp [onClose]
    · exact fun _ => ⟨rfl, rfl, hend.imp_right fun hquiet => ⟨rfl, hquiet⟩⟩
    · simp [onClose]
  · exact { h with closed := fun hclosed => ⟨rfl, (h.closed hclosed).2⟩ }

theorem close_streams (hempty : s.streams = []) : (s.close a).streams = [] := by
  rw [close]
  split
  · rfl
  · exact hempty

@[simp] theorem close_drainState : (s.close a).drainState = s.drainState := by
  rw [close]
  split <;> rfl

@[simp] theorem close_responses : (s.close a).responses = s.responses := by
  rw [close]
  split <;> rfl

theorem Core.checkForDeferredClose (h : Core config s) : Core config (s.checkForDeferredClose a) := by
  rw [ConnectionManagerImpl.checkForDeferredClose]
  split
  · rename_i hclose
    exact h.close (.inl hclose.1)
  · exact h

theorem told_checkForDeferredClose (config : DrainConfig) (s : ConnectionManagerImpl) (a : Answers) :
    Told config (s.checkForDeferredClose a) := by
  rw [ConnectionManagerImpl.checkForDeferredClose]
  split
  · exact fun _ _ _ _ => close_isOpen s a
  · rename_i hopen
    exact fun hclosing hempty hwrites _ => absurd ⟨hclosing, hempty, hwrites⟩ hopen

theorem Replies.mono {t : ConnectionManagerImpl} (h : Replies config s)
    (hstreams : ∀ stream ∈ t.streams, stream ∈ s.streams)
    (hclosing : s.drainState = .closing → t.drainState = .closing)
    (hresponses : t.responses = s.responses) : Replies config t := by
  refine ⟨fun stream hstream => h.wants stream (hstreams stream hstream), ?_, ?_, ?_⟩
  · rw [hresponses]
    exact h.carries
  · rw [hresponses]
    exact h.last
  · rw [hresponses]
    intro hdone
    obtain ⟨hhttp, hdrain, hall⟩ := h.done hdone
    exact ⟨hhttp, hclosing hdrain, fun stream hstream => hall stream (hstreams stream hstream)⟩

theorem Replies.checkForDeferredClose (h : Replies config s) :
    Replies config (s.checkForDeferredClose a) := by
  rw [ConnectionManagerImpl.checkForDeferredClose]
  split
  · rename_i hclose
    refine h.mono ?_ (by simp) (by simp)
    rw [close_streams hclose.2.1]
    exact forall_mem_nil _
  · exact h

theorem idle_checkForDeferredClose (h : Idle config s) : Idle config (s.checkForDeferredClose a) := by
  rw [ConnectionManagerImpl.checkForDeferredClose]
  split
  · intro _ hopen
    rw [close_isOpen] at hopen
    cases hopen
  · exact h

theorem Core.codecWrites (h : Core config s) (a : Answers) : Core config (s.codecWrites config a) :=
  ⟨h.timer, h.active, h.drain, h.closed, h.single, fun hhttp => by
    simp [ConnectionManagerImpl.codecWrites, hhttp]⟩

theorem Core.doDeferredStreamDestroy (h : Core config s) (id : Nat) :
    Core config (s.doDeferredStreamDestroy id) := by
  have hnil : s.streams = [] → (s.doDeferredStreamDestroy id).streams = [] := by
    intro hempty
    simp [ConnectionManagerImpl.doDeferredStreamDestroy, hempty]
  refine ⟨h.timer, fun harmed => hnil (h.active harmed), h.drain, ?_, ?_, h.writes⟩
  · intro hclosed
    obtain ⟨hopen, htimer, hend⟩ := h.closed hclosed
    exact ⟨hopen, htimer, hend.imp_right fun hempty => ⟨hnil hempty.1, hempty.2⟩⟩
  · intro hhttp
    exact (length_filter_le _ _).trans (h.single hhttp)

theorem Replies.doDeferredStreamDestroy (h : Replies config s) (id : Nat) :
    Replies config (s.doDeferredStreamDestroy id) :=
  h.mono (fun _ hstream => (mem_filter.mp hstream).1) (fun h => h) rfl

theorem Core.closing (h : Core config s) : Core config { s with drainState := .closing } := by
  refine ⟨h.timer, h.active, by simp, ?_, h.single, h.writes⟩
  intro hclosed
  obtain ⟨hopen, htimer, -⟩ := h.closed hclosed
  exact ⟨hopen, htimer, .inl rfl⟩

theorem Core.arm (h : Core config s) (htimer : s.idleTimer.isSome = true) (hempty : s.streams = []) :
    Core config { s with idleTimer := some true } :=
  ⟨htimer.symm.trans h.timer, fun _ => hempty, h.drain, h.closed, h.single, h.writes⟩

theorem inv_doEndStream (hcore : Core config s) (hreplies : Replies config s) (stream : ActiveStream)
    (a : Answers) : Inv config (s.doEndStream config stream a) := by
  have hended : ∀ {t : ConnectionManagerImpl}, Core config t → Replies config t → Told config t →
      Inv config (if t.idleTimer.isSome ∧ t.streams = [] then { t with idleTimer := some true } else t) := by
    intro t hcore hreplies htold
    split
    · rename_i harms
      exact ⟨hcore.arm harms.1 harms.2, fun _ _ _ => .inl rfl, htold, hreplies.mono (fun _ h => h) id rfl⟩
    · rename_i hkeeps
      refine ⟨hcore, ?_, htold, hreplies⟩
      intro htimeout hopen hempty
      have hlive : t.closed = false := by
        by_contra hclosed
        rw [(hcore.closed (by simpa using hclosed)).1] at hopen
        cases hopen
      exact absurd ⟨by rw [hcore.timer, htimeout, hlive]; rfl, hempty⟩ hkeeps
  rw [doEndStream]
  have hcore' := (hcore.doDeferredStreamDestroy stream.id).codecWrites a
  have hreplies' : Replies config ((s.doDeferredStreamDestroy stream.id).codecWrites config a) :=
    (hreplies.doDeferredStreamDestroy stream.id).mono (fun _ h => h) id rfl
  refine hended ?_ ?_ (told_checkForDeferredClose config _ a)
  · apply Core.checkForDeferredClose
    split
    · exact hcore'.closing
    · exact hcore'
  · apply Replies.checkForDeferredClose
    split
    · exact hreplies'.mono (fun _ h => h) (fun _ => rfl) rfl
    · exact hreplies'

theorem Inv.of_active (hcore : Core config s) (hreplies : Replies config s) (hne : s.streams ≠ []) :
    Inv config s :=
  ⟨hcore, fun _ _ hempty => absurd hempty hne, fun _ hempty => absurd hempty hne, hreplies⟩

variable {id : Nat} {stream : ActiveStream}

theorem find_mem (h : s.find id = some stream) : stream ∈ s.streams ∧ stream.id = id :=
  ⟨mem_of_find?_eq_some h, by simpa using find?_some h⟩

variable {p : ActiveStream → Bool}

theorem find_any (h : (s.find id).any p = true) :
    ∃ stream, s.find id = some stream ∧ stream ∈ s.streams ∧ p stream = true := by
  obtain ⟨stream, hfind, hp⟩ := (Option.any_eq_true p _).mp h
  exact ⟨stream, hfind, (find_mem hfind).1, hp⟩

theorem Core.update (h : Core config s) (id : Nat) (f : ActiveStream → ActiveStream) :
    Core config (s.update id f) := by
  have hnil : s.streams = [] → (s.update id f).streams = [] := by
    intro hempty
    simp [ConnectionManagerImpl.update, hempty]
  refine ⟨h.timer, fun harmed => hnil (h.active harmed), h.drain, ?_, ?_, h.writes⟩
  · intro hclosed
    obtain ⟨hopen, htimer, hend⟩ := h.closed hclosed
    exact ⟨hopen, htimer, hend.imp_right fun hempty => ⟨hnil hempty.1, hempty.2⟩⟩
  · intro hhttp
    simpa [ConnectionManagerImpl.update] using h.single hhttp

variable {f : ActiveStream → ActiveStream}

theorem Replies.update (h : Replies config s)
    (hwants : ∀ stream, (f stream).wantsClose = true → stream.wantsClose = true ∨ config.http2 = false)
    (hresponded : ∀ stream, stream.responded = true → (f stream).responded = true) :
    Replies config (s.update id f) := by
  refine ⟨?_, h.carries, h.last, ?_⟩
  · intro stream hstream hwish
    obtain ⟨stream, hmem, rfl⟩ := List.mem_map.mp hstream
    split at hwish
    · exact (hwants stream hwish).elim (h.wants stream hmem) fun h => h
    · exact h.wants stream hmem hwish
  · intro hdone
    obtain ⟨hhttp, hdrain, hall⟩ := h.done hdone
    refine ⟨hhttp, hdrain, ?_⟩
    intro stream hstream
    obtain ⟨stream, hmem, rfl⟩ := List.mem_map.mp hstream
    split
    · exact hresponded stream (hall stream hmem)
    · exact hall stream hmem

theorem inv_update (h : Inv config s) (hfind : (s.find id).any p = true)
    (hwants : ∀ stream, (f stream).wantsClose = true → stream.wantsClose = true ∨ config.http2 = false)
    (hresponded : ∀ stream, stream.responded = true → (f stream).responded = true) :
    Inv config (s.update id f) := by
  refine .of_active (h.core.update id f) (h.replies.update hwants hresponded) ?_
  obtain ⟨stream, -, hmem, -⟩ := find_any hfind
  simpa [ConnectionManagerImpl.update] using ne_nil_of_mem hmem

theorem inv_newStream (h : Inv config s) (hdispatching : s.dispatching = true)
    (hhttp : config.http2 = false → s.isOpen = true ∧ s.streams.isEmpty = true) :
    Inv config (s.newStream id) := by
  refine .of_active ⟨?_, ?_, h.core.drain, ?_, ?_, h.core.writes⟩ ⟨?_, h.replies.carries,
    h.replies.last, ?_⟩ (by simp [newStream])
  · simpa [newStream] using h.core.timer
  · intro harmed
    cases htimer : s.idleTimer <;> simp [newStream, htimer] at harmed
  · intro hclosed
    obtain ⟨hopen, htimer, hend⟩ := h.core.closed hclosed
    refine ⟨hopen, htimer, .inl (hend.resolve_right ?_)⟩
    rintro ⟨-, hquiet⟩
    rw [hdispatching] at hquiet
    cases hquiet
  · intro hfalse
    have hempty := List.isEmpty_iff.mp (hhttp hfalse).2
    simp [newStream, hempty]
  · intro stream hstream hwish
    rcases mem_cons.mp hstream with rfl | hstream
    · cases hwish
    · exact h.replies.wants stream hstream hwish
  · intro hdone
    obtain ⟨hfalse, hdrain, -⟩ := h.replies.done hdone
    -- The response that ends an HTTP/1.1 connection has closed it before.
    obtain ⟨hopen, hempty⟩ := hhttp hfalse
    rw [h.told hdrain (List.isEmpty_iff.mp hempty) (h.core.writes hfalse) (.inr hfalse)] at hopen
    cases hopen

theorem Core.startDrainSequence (h : Core config s) (hdrain : s.drainState = .notDraining)
    (hlive : s.closed = false) (a : Answers) :
    ∃ t, s.startDrainSequence config a = some t ∧ Core config t ∧ t.drainState = .draining ∧
      t.streams = s.streams ∧ t.responses = s.responses := by
  refine ⟨{ s.codecWrites config a with
    drainState := .draining
    drainTimer := some true }, if_pos hdrain, ?_, rfl, rfl, rfl⟩
  refine ⟨h.timer, h.active, by simp, ?_, h.single, (h.codecWrites a).writes⟩
  intro hclosed
  rw [ConnectionManagerImpl.codecWrites, hlive] at hclosed
  cases hclosed

theorem inv_idleTimeout (h : Inv config s) (harmed : s.idleTimer = some true)
    (hquiet : s.dispatching = false) (a : Answers) :
    ∃ t, onIdleTimeout { s with idleTimer := some false } config a = some t ∧ Inv config t := by
  have hempty := h.core.active harmed
  have hlive : s.closed = false := by
    have := h.core.timer
    simp [harmed] at this
    exact this.2
  have hfired : Core config { s with idleTimer := some false } :=
    { h.core with timer := by simpa [harmed] using h.core.timer, active := by simp }
  have hreplies : Replies config { s with idleTimer := some false } :=
    h.replies.mono (fun _ h => h) (fun h => h) rfl
  rw [onIdleTimeout]
  simp only
  split
  · refine ⟨_, rfl, hfired.close (.inr hquiet), ?_, fun _ _ _ _ => close_isOpen _ a, ?_⟩
    · intro _ hopen
      rw [close_isOpen] at hopen
      cases hopen
    · have hgone := close_streams (s := { s with idleTimer := some false }) (a := a) hempty
      refine hreplies.mono ?_ (by simp) (by simp)
      rw [hgone]
      exact forall_mem_nil _
  split
  · rename_i hdrain
    obtain ⟨t, ht, hcore, hdraining, hstreams, hresponses⟩ :=
      hfired.startDrainSequence (a := a) hdrain hlive
    refine ⟨t, ht, hcore, ?_, ?_, hreplies.mono ?_ ?_ hresponses⟩
    · exact fun _ _ _ => .inr (by simp [hdraining])
    · intro hclosing
      rw [hdraining] at hclosing
      cases hclosing
    · rw [hstreams]
      exact fun _ h => h
    · intro hclosing
      simp [hdrain] at hclosing
  · rename_i hdrain
    exact ⟨_, rfl, hfired, fun _ _ _ => .inr hdrain, h.told, hreplies⟩

theorem inv_drainTimeout (h : Inv config s) (harmed : s.drainTimer = some true) (a : Answers) :
    ∃ t, onDrainTimeout { s with drainTimer := some false } config a = some t ∧ Inv config t := by
  have hlive : ¬s.closed = true := by
    intro hclosed
    rw [(h.core.closed hclosed).2.1] at harmed
    cases harmed
  rw [onDrainTimeout, if_neg (h.core.drain harmed)]
  let t : ConnectionManagerImpl := { s.codecWrites config a with
    drainTimer := some false
    drainState := .closing }
  have hcore : Core config t :=
    ⟨h.core.timer, h.core.active, by simp [t], fun hclosed => absurd hclosed hlive, h.core.single,
      (h.core.codecWrites a).writes⟩
  have hidle : Idle config t := fun _ _ _ => .inr (by simp [t])
  have hreplies : Replies config t := h.replies.mono (fun _ h => h) (fun _ => rfl) rfl
  exact ⟨_, rfl, hcore.checkForDeferredClose, idle_checkForDeferredClose hidle,
    told_checkForDeferredClose config _ a, hreplies.checkForDeferredClose⟩

theorem Core.decideDrain (h : Core config s) (hmem : stream ∈ s.streams) (a : Answers) :
    ∃ t, s.decideDrain config stream a = some t ∧ Core config t ∧ t.streams = s.streams ∧
      t.responses = s.responses ∧ (s.drainState = .closing → t.drainState = .closing) ∧
      (config.http2 = false → (s.drainState = .closing ∨ stream.remoteComplete = false ∨
        (s.drainState = .notDraining ∧ a.drainClose = false ∧ stream.sawConnectionClose = true)) →
        t.drainState = .closing) := by
  have hlive : s.drainState = .notDraining → s.closed = false := by
    intro hdrain
    by_contra hclosed
    rcases (h.closed (by simpa using hclosed)).2.2 with hclosing | ⟨hempty, -⟩
    · rw [hdrain] at hclosing
      cases hclosing
    · rw [hempty] at hmem
      cases hmem
  -- The drain sequence first.
  obtain ⟨u, hu, hcore, hstreams, hresponses, hstays, hkeeps⟩ : ∃ u,
      (if s.drainState = .notDraining ∧ a.drainClose = true then s.startDrainSequence config a
        else some s) = some u ∧ Core config u ∧ u.streams = s.streams ∧ u.responses = s.responses ∧
        (s.drainState = .closing → u.drainState = .closing) ∧
        (a.drainClose = false → u.drainState = s.drainState) := by
    split
    · rename_i hbegin
      obtain ⟨u, hu, hcore, -, hstreams, hresponses⟩ :=
        h.startDrainSequence (a := a) hbegin.1 (hlive hbegin.1)
      refine ⟨u, hu, hcore, hstreams, hresponses, ?_, ?_⟩
      · intro hclosing
        rw [hbegin.1] at hclosing
        cases hclosing
      · intro hno
        rw [hbegin.2] at hno
        cases hno
    · exact ⟨s, rfl, h, rfl, rfl, fun h => h, fun _ => rfl⟩
  rw [ConnectionManagerImpl.decideDrain]
  simp only [hu, map_some, some_inj, exists_eq_left']
  refine ⟨?_, ?_, ?_, ?_, ?_⟩
  · split <;> split
    · exact hcore.closing.closing
    · exact hcore.closing
    · exact hcore.closing
    · exact hcore
  · split <;> split <;> exact hstreams
  · split <;> split <;> exact hresponses
  · intro hclosing
    split
    · rfl
    · split
      · rfl
      · exact hstays hclosing
  · intro hhttp hcloses
    split
    · rfl
    · rename_i hwaits
      rcases hcloses with hclosing | hincomplete | ⟨hdrain, hno, hsaw⟩
      · split
        · rfl
        · exact hstays hclosing
      · exact absurd ⟨hincomplete, hhttp⟩ hwaits
      · rw [if_pos ⟨(hkeeps hno).trans hdrain, hsaw⟩]

theorem Replies.respond (h : Replies config s)
    (hsingle : config.http2 = false → s.streams.length ≤ 1) (hmem : stream ∈ s.streams)
    (hresponded : stream.responded = false) {r : EncodedResponse}
    (hwants : r.wantsClose = stream.wantsClose)
    (hcarries : stream.wantsClose = true → CarriesClose r.headers)
    (hcloses : stream.wantsClose = true → s.drainState = .closing) :
    Replies config ({ s with responses := s.responses ++ [r] }.update stream.id
      fun stream => { stream with responded := true }) := by
  have hearlier : ¬∃ r ∈ s.responses, r.wantsClose = true := by
    intro hdone
    rw [(h.done hdone).2.2 stream hmem] at hresponded
    cases hresponded
  have hmarked : Replies config (s.update stream.id fun stream => { stream with responded := true }) :=
    h.update (fun _ hwish => .inl hwish) (fun _ _ => rfl)
  refine ⟨hmarked.wants, ?_, ?_, ?_⟩
  · intro r hr hwish
    rcases mem_append.mp hr with hr | hr
    · exact absurd ⟨r, hr, hwish⟩ hearlier
    · obtain rfl := mem_singleton.mp hr
      exact hcarries (hwants ▸ hwish)
  · intro before r after heq hwish
    rcases eq_nil_or_concat after with rfl | ⟨after, last, rfl⟩
    · rfl
    · rw [concat_eq_append, ← cons_append, ← append_assoc] at heq
      obtain ⟨hresponses, -⟩ := append_inj' heq rfl
      have hr : r ∈ s.responses := by
        rw [show s.responses = before ++ r :: after from hresponses]
        exact mem_append_right _ mem_cons_self
      exact absurd ⟨r, hr, hwish⟩ hearlier
  · rintro ⟨r, hr, hwish⟩
    rcases mem_append.mp hr with hr | hr
    · exact absurd ⟨r, hr, hwish⟩ hearlier
    obtain rfl := mem_singleton.mp hr
    rw [hwants] at hwish
    have hhttp := h.wants stream hmem hwish
    refine ⟨hhttp, hcloses hwish, ?_⟩
    -- The stream is the only one of an HTTP/1 connection.
    obtain ⟨only, honly⟩ := length_eq_one_iff.mp
      (le_antisymm (hsingle hhttp) (length_pos_of_mem hmem))
    rw [honly] at hmem
    obtain rfl := mem_singleton.mp hmem
    intro other hother
    simp only [ConnectionManagerImpl.update, honly, map_cons, map_nil, if_true,
      mem_singleton] at hother
    rw [hother]

theorem inv_maybeEndEncode (hcore : Core config s) (hreplies : Replies config s)
    (hne : s.streams ≠ []) (stream : ActiveStream) (endStream : Bool) (a : Answers) :
    Inv config (s.maybeEndEncode config stream endStream a) := by
  rw [maybeEndEncode]
  split
  · exact inv_doEndStream hcore hreplies stream a
  · exact .of_active hcore hreplies hne

theorem inv_encodeHeaders (h : Inv config s) (hmem : stream ∈ s.streams)
    (hresponded : stream.responded = false) (headers : Headers) (endStream : Bool)
    (hprotected : stream.wantsClose = true → s.drainState = .closing ∨ stream.remoteComplete = false ∨
      (s.drainState = .notDraining ∧ a.drainClose = false ∧ stream.sawConnectionClose = true)) :
    ∃ t, s.encodeHeaders config stream headers.1 endStream a = some t ∧ Inv config t := by
  obtain ⟨t, ht, hcore, hstreams, hresponses, hstays, hcloses⟩ := h.core.decideDrain hmem a
  rw [encodeHeaders, ht]
  refine ⟨_, rfl, ?_⟩
  have hreplies : Replies config t :=
    h.replies.mono (by rw [hstreams]; exact fun _ h => h) hstays hresponses
  have hends : stream.wantsClose = true → config.http2 = false ∧ t.drainState = .closing := by
    intro hwish
    have hhttp := h.replies.wants stream hmem hwish
    exact ⟨hhttp, hcloses hhttp (hprotected hwish)⟩
  rw [← hstreams] at hmem
  have hrecorded := hreplies.respond hcore.single hmem hresponded
    (r := ⟨stream.id, stream.wantsClose, encodedHeaders config
      (t.drainState = .closing && !config.http2) a headers.1⟩) rfl (by
        intro hwish
        obtain ⟨hhttp, hclosing⟩ := hends hwish
        simp only [hhttp, hclosing, decide_true, Bool.not_false, Bool.and_self]
        exact carriesClose_encodedHeaders config a headers.2) fun hwish => (hends hwish).2
  have hkept : Core config { t with responses := t.responses ++ [⟨stream.id, stream.wantsClose,
      encodedHeaders config (t.drainState = .closing && !config.http2) a headers.1⟩] } :=
    { hcore with }
  refine inv_maybeEndEncode ((hkept.update stream.id _).codecWrites a)
    (hrecorded.mono (fun _ h => h) (fun h => h) rfl) ?_ stream endStream a
  simpa [codecWrites, update] using ne_nil_of_mem hmem

theorem inv_step (h : Inv config s) {e : ConnEvent} (hpossible : Possible config s e)
    (hprotected : Protected s e) : ∃ s', step config s e = some s' ∧ Inv config s' := by
  cases e with
  | onData =>
    obtain ⟨hopen, -⟩ := hpossible
    refine ⟨_, rfl, { h.core with closed := ?_ },
      h.idle, ?_, h.replies.mono (fun _ h => h) (fun h => h) rfl⟩
    · intro hclosed
      rw [(h.core.closed hclosed).1] at hopen
      cases hopen
    · rintro hclosing hempty hwrites (hquiet | hhttp)
      · cases hquiet
      · exact h.told hclosing hempty hwrites (.inr hhttp)
  | newStream id => exact ⟨_, rfl, inv_newStream h hpossible.1 hpossible.2.2⟩
  | decodeHeaders id http10 headers endStream =>
    refine ⟨_, rfl, inv_update h hpossible.2 ?_ (fun _ h => h)⟩
    intro stream hwish
    right
    cases hhttp : config.http2 with
    | false => rfl
    | true => simp [ActiveStream.wantsClose, wantsConnectionClose, DrainConfig.protocol, hhttp] at hwish
  | decodeEnd id => exact ⟨_, rfl, inv_update h hpossible.2 (fun _ h => .inl h) (fun _ h => h)⟩
  | onResetStream id =>
    obtain ⟨hdispatching, hhttp, -⟩ := hpossible
    refine ⟨_, rfl, h.core.doDeferredStreamDestroy id, ?_, ?_, h.replies.doDeferredStreamDestroy id⟩
    · intro _ _ hempty
      right
      intro hdrain
      obtain ⟨other, hother, hne⟩ := hprotected hdrain
      have hkept : other ∈ (s.doDeferredStreamDestroy id).streams :=
        mem_filter.mpr ⟨hother, by simpa using hne⟩
      rw [hempty] at hkept
      cases hkept
    · rintro - - - (hquiet | hfalse)
      · rw [show s.dispatching = false from hquiet] at hdispatching
        cases hdispatching
      · rw [hhttp] at hfalse
        cases hfalse
  | dispatched a =>
    have hcore : Core config { s.codecWrites config a with dispatching := false } := by
      refine { h.core with closed := ?_, writes := (h.core.codecWrites a).writes }
      intro hclosed
      obtain ⟨hopen, htimer, hend⟩ := h.core.closed hclosed
      exact ⟨hopen, htimer, hend.imp_right fun hempty => ⟨hempty.1, rfl⟩⟩
    have hidle : Idle config { s.codecWrites config a with dispatching := false } := h.idle
    have hreplies : Replies config { s.codecWrites config a with dispatching := false } :=
      h.replies.mono (fun _ h => h) (fun h => h) rfl
    exact ⟨_, rfl, hcore.checkForDeferredClose, idle_checkForDeferredClose hidle,
      told_checkForDeferredClose config _ a, hreplies.checkForDeferredClose⟩
  | protocolError a =>
    have hcore : Core config { s with
        dispatching := false
        streams := [] } :=
      ⟨h.core.timer, fun _ => rfl, h.core.drain,
        fun hclosed => ⟨(h.core.closed hclosed).1, (h.core.closed hclosed).2.1, .inr ⟨rfl, rfl⟩⟩,
        by simp, h.core.writes⟩
    refine ⟨_, rfl, hcore.close (.inr rfl), ?_, fun _ _ _ _ => close_isOpen _ a, ?_⟩
    · intro _ hopen
      rw [onProtocolError, close_isOpen] at hopen
      cases hopen
    · refine h.replies.mono ?_ (by simp [onProtocolError]) (by simp [onProtocolError])
      rw [onProtocolError, close_streams rfl]
      exact forall_mem_nil _
  | commonEncodePrefix id =>
    exact ⟨_, rfl, inv_update h hpossible (fun _ h => .inl h) (fun _ h => h)⟩
  | encodeHeaders id headers endStream a =>
    obtain ⟨stream, hfind, hmem, hready⟩ := find_any hpossible
    simp only [Bool.and_eq_true, Bool.not_eq_true'] at hready
    obtain ⟨t, ht, hinv⟩ := inv_encodeHeaders h hmem hready.1.2 headers endStream
      (hprotected stream hfind)
    exact ⟨t, by rw [step, hfind]; exact ht, hinv⟩
  | encodeMore id endStream a =>
    obtain ⟨stream, hfind, hmem, -⟩ := find_any hpossible
    refine ⟨_, by rw [step, hfind]; rfl, ?_⟩
    exact inv_maybeEndEncode (h.core.codecWrites a) (h.replies.mono (fun _ h => h) (fun h => h) rfl)
      (ne_nil_of_mem hmem) stream endStream a
  | resetStream id a =>
    obtain ⟨stream, hfind⟩ := isSome_iff_exists.mp hpossible
    exact ⟨_, by rw [step, hfind]; rfl, inv_doEndStream h.core h.replies stream a⟩
  | idleTimeout a => exact inv_idleTimeout h hpossible.1 hpossible.2 a
  | drainTimeout a => exact inv_drainTimeout h hpossible.1 a
  | onEvent =>
    refine ⟨_, rfl, ⟨?_, ?_, ?_, ?_, ?_, h.core.writes⟩, ?_, fun _ _ _ _ => rfl, ?_⟩
    · simp [onClose]
    · simp [onClose]
    · simp [onClose]
    · exact fun _ => ⟨rfl, rfl, .inr ⟨rfl, hpossible.2⟩⟩
    · simp [onClose]
    · intro _ hopen
      cases hopen
    · exact h.replies.mono (forall_mem_nil _) (fun h => h) rfl

theorem inv_run {es : List ConnEvent} (hs : Inv config s)
    (h : AllMeet (step config) (fun s e => Possible config s e ∧ Protected s e) s es) :
    ∃ s', run (step config) s es = some s' ∧ Inv config s' :=
  run_safe (fun _ _ hs h => inv_step hs h.1 h.2) hs h

/-- In every run on the protected paths no assertion of the drain fails, and the connection is
not kept open by idling. -/
theorem connection_not_pinned (config : DrainConfig) (es : List ConnEvent)
    (h : AllMeet (step config) (fun s e => Possible config s e ∧ Protected s e) (create config) es) :
    ∃ s, run (step config) (create config) es = some s ∧ NotPinned config s := by
  obtain ⟨s, hs, hinv⟩ := inv_run (inv_create config) h
  exact ⟨s, hs, hinv.notPinned⟩

instance decidablePossible (config : DrainConfig) (s : ConnectionManagerImpl) :
    (e : ConnEvent) → Decidable (Possible config s e) := by
  intro e
  cases e <;> dsimp only [Possible] <;> infer_instance

instance decidableProtected (s : ConnectionManagerImpl) : (e : ConnEvent) → Decidable (Protected s e) := by
  intro e
  cases e <;> dsimp only [Protected] <;> infer_instance

def sampleDrainConfig (http2 : Bool) : DrainConfig := ⟨http2, true, ascii "envoy", [], [], none⟩

def sampleAnswers : Answers := ⟨headersOf [], false, false, true, [], none⟩

def closingRequest : List ConnEvent :=
  [.onData, .newStream 0,
    .decodeHeaders 0 false
      (headersOf [(ascii ":authority", ascii "a"), (ascii ":path", ascii "/"),
        (ascii "connection", ascii "Close")]) true,
    .dispatched sampleAnswers, .commonEncodePrefix 0,
    .encodeHeaders 0 (headersOf [(ascii ":status", ascii "200")]) true sampleAnswers]

theorem closingRequest_not_pinned : AllMeet (step (sampleDrainConfig false))
        (fun s e => Possible (sampleDrainConfig false) s e ∧ Protected s e)
        (create (sampleDrainConfig false)) closingRequest ∧
      ∃ s, run (step (sampleDrainConfig false)) (create (sampleDrainConfig false)) closingRequest =
        some s ∧ NotPinned (sampleDrainConfig false) s := by
  have hmeet : AllMeet (step (sampleDrainConfig false))
      (fun s e => Possible (sampleDrainConfig false) s e ∧ Protected s e)
      (create (sampleDrainConfig false)) closingRequest := by
    decide +kernel
  exact ⟨hmeet, connection_not_pinned (sampleDrainConfig false) closingRequest hmeet⟩

def resetByClient : List ConnEvent := [.onData, .newStream 0, .onResetStream 0, .dispatched sampleAnswers]

theorem resetByClient_pinned : ¬∀ (config : DrainConfig) (es : List ConnEvent),
      AllMeet (step config) (Possible config) (create config) es →
        ∃ s, run (step config) (create config) es = some s ∧ NotPinned config s := by
  intro h
  have hmeet : AllMeet (step (sampleDrainConfig true)) (Possible (sampleDrainConfig true))
      (create (sampleDrainConfig true)) resetByClient := by
    decide +kernel
  obtain ⟨s, hs, hidles⟩ := h (sampleDrainConfig true) resetByClient hmeet
  have hend : (run (step (sampleDrainConfig true)) (create (sampleDrainConfig true)) resetByClient).map
      (fun s => (s.isOpen, s.streams.isEmpty, s.idleTimer, s.drainState)) =
        some (true, true, some false, .notDraining) := by
    decide +kernel
  rw [hs, map_some, some_inj] at hend
  simp only [Prod.mk.injEq, List.isEmpty_iff] at hend
  obtain ⟨hopen, hempty, htimer, hdrain⟩ := hend
  rcases hidles.idle rfl hopen hempty with harmed | hdraining
  · rw [htimer] at harmed
    cases harmed
  · exact hdraining hdrain

end ConnectionManagerImpl

end Meliproxy.Envoy.Http
