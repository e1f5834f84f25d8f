import Meliproxy.Envoy.RateLimit.TcpFilter

/-!
# A limited connection goes no further

The filters behind the rate limit filter are called after it has released the connection, each
first with the new connection, and the gauge follows the call to the service. This needs the
chain to stop at the rate limit filter: an answer that closes the connection inside of `limit`
does not stop it.
-/

namespace Meliproxy.Envoy.RateLimit

open Lib List Option

variable {config : TcpConfig} {s s' : TcpChain}

namespace TcpChain

/-- The filter is disabled, or the answer of the service lets the connection pass. -/
def Released (config : TcpConfig) (s : TcpChain) : Prop :=
  config.enabled = false ∨ ∃ given, s.answer = some given ∧ given ≠ (.overLimit, true)

/-- The filters behind the rate limit filter are called if it has released the connection. Each
filter gets the new connection once and before any data, and the filter next to the rate limit
filter gets it when the chain has run. An enforced answer closes the connection. -/
structure GoesNoFurther (config : TcpConfig) (s : TcpChain) : Prop where
  released : ∀ c ∈ s.calls, config.before < c.1 → Released config s
  once : ∀ i, s.calls.count (i, .onNewConnection) ≤ 1
  first : ∀ i before after, s.calls = before ++ (i, .onData) :: after →
    (i, .onNewConnection) ∈ before
  next : s.stack = [] → s.initialized config.before = true → Released config s → config.after ≠ 0 →
    (config.before + 1, .onNewConnection) ∈ s.calls
  closed : s.answer = some (.overLimit, true) →
    s.isOpen = false ∧ ∀ c ∈ s.calls, c.1 ≤ config.before
  gauge : s.stats.active = if s.outstanding then 1 else 0

/-- The calls match `initialized_`. -/
structure Calls (initialized : Nat → Bool) (calls : List (Nat × ReadCall)) : Prop where
  count : ∀ i, calls.count (i, .onNewConnection) = if initialized i then 1 else 0
  first : ∀ i before after, calls = before ++ (i, .onData) :: after →
    (i, .onNewConnection) ∈ before

section Calls

variable {initialized : Nat → Bool} {calls : List (Nat × ReadCall)} {i : Nat}

theorem Calls.mem_iff (h : Calls initialized calls) :
    (i, .onNewConnection) ∈ calls ↔ initialized i = true := by
  rw [← count_pos_iff, h.count i]
  cases initialized i <;> simp

variable {c : Nat × ReadCall}

theorem Calls.initialized_of_mem (h : Calls initialized calls) (hc : c ∈ calls) :
    initialized c.1 = true := by
  obtain ⟨i, call⟩ := c
  apply h.mem_iff.mp
  cases call with
  | onNewConnection => exact hc
  | onData =>
    obtain ⟨before, after, rfl⟩ := mem_iff_append.mp hc
    exact mem_append_left _ (h.first i before after rfl)

theorem calls_nil : Calls (fun _ => false) [] := by
  constructor
  · intro i
    rfl
  · intro i before after h
    simp at h

section

variable (h : Calls initialized calls)
include h

theorem Calls.push_first (hc : ∀ i, c = (i, .onData) → (i, .onNewConnection) ∈ calls) :
    ∀ i before after, calls ++ [c] = before ++ (i, .onData) :: after →
      (i, .onNewConnection) ∈ before := by
  intro i before after heq
  rcases eq_nil_or_concat after with rfl | ⟨after, last, rfl⟩
  · obtain ⟨rfl, hlast⟩ := append_inj' heq rfl
    exact hc i (List.cons.inj hlast).1
  · rw [concat_eq_append, ← cons_append, ← append_assoc] at heq
    obtain ⟨rfl, -⟩ := append_inj' heq rfl
    exact h.first i before after rfl

theorem Calls.onNewConnection (hnew : initialized i = false) :
    Calls (fun j => j = i || initialized j) (calls ++ [(i, .onNewConnection)]) := by
  constructor
  · intro j
    rw [count_append, h.count j, count_singleton]
    by_cases hj : j = i
    · subst hj
      simp [hnew]
    · have : ¬ i = j := fun h => hj h.symm
      simp [hj, this]
  · exact h.push_first (by simp)

theorem Calls.onData (hi : initialized i = true) :
    Calls initialized (calls ++ [(i, .onData)]) := by
  constructor
  · intro j
    rw [count_append, h.count j]
    simp
  · refine h.push_first ?_
    rintro j ⟨⟩
    exact h.mem_iff.mpr hi

end

end Calls

/-- The state of the filter follows the call to the service. -/
structure Limiter (config : TcpConfig) (s : TcpChain) : Prop where
  begun : s.initialized config.before = true ↔ s.status ≠ .notStarted
  calls : s.outstanding = true → s.status = .calling
  gauge : s.stats.active = if s.outstanding then 1 else 0
  waits : s.status = .calling → s.isOpen = true → s.outstanding = true
  disabled : config.enabled = false → s.status ≠ .calling ∧ s.answer = none
  unanswered : s.status ≠ .complete → s.answer = none
  decided : s.status = .complete → config.enabled = false ∨ s.answer ≠ none
  closed : s.answer = some (.overLimit, true) → s.isOpen = false

end TcpChain

/-- What holds of a filter holds of the iterations that have got to it. -/
def Frame.Holds (config : TcpConfig) (s : TcpChain) : Frame → Prop
  | .entry i => config.before < i → i < config.size → s.Released config
  | .onNewConnection i => s.initialized i = true ∧ i ≠ config.before
  | .limit => s.initialized config.before = true
  | .check i => s.initialized i = true
  | .onData i => s.initialized i = true ∧ i ≠ config.before

/-- The iteration gets to the filter behind the rate limit filter if the latter lets it. -/
def Frame.leads (config : TcpConfig) : Frame → Prop
  | .entry i => i = config.before + 1
  | .check i => i = config.before
  | .limit => True
  | _ => False

namespace TcpChain

structure Inv (config : TcpConfig) (s : TcpChain) : Prop where
  limiter : Limiter config s
  calls : Calls s.initialized s.calls
  released : ∀ i, config.before < i → s.initialized i = true → Released config s
  frames : ∀ f ∈ s.stack, f.Holds config s
  limit : s.callingLimit = true → .limit ∈ s.stack
  next : s.initialized config.before = true → Released config s → config.after ≠ 0 →
    s.initialized (config.before + 1) = true ∨ ∃ f ∈ s.stack, f.leads config

theorem inv_create (config : TcpConfig) : Inv config create := by
  refine ⟨⟨?_, ?_, ?_, ?_, ?_, ?_, ?_, ?_⟩, calls_nil, ?_, ?_, ?_, ?_⟩
  all_goals simp [create]

theorem Limiter.rejected (h : Limiter config s) (hanswer : s.answer = some (.overLimit, true)) :
    ¬ Released config s := by
  rintro (hdisabled | ⟨given, hgiven, hne⟩)
  · rw [(h.disabled hdisabled).2] at hanswer
    cases hanswer
  · exact hne (Option.some.inj (hgiven.symm.trans hanswer))

theorem Limiter.calling (h : Limiter config s) (hcalling : s.status = .calling) :
    ¬ Released config s := by
  rintro (hdisabled | ⟨given, hgiven, -⟩)
  · exact (h.disabled hdisabled).1 hcalling
  · rw [h.unanswered (by simp [hcalling])] at hgiven
    cases hgiven

theorem Inv.goesNoFurther (h : Inv config s) : GoesNoFurther config s where
  released c hc hlt := h.released c.1 hlt (h.calls.initialized_of_mem hc)
  once i := by
    rw [h.calls.count i]
    split <;> omega
  first := h.calls.first
  next hstack hbegun hreleased hafter := by
    rcases h.next hbegun hreleased hafter with hnext | ⟨f, hf, -⟩
    · exact h.calls.mem_iff.mpr hnext
    · rw [hstack] at hf
      cases hf
  closed hanswer := by
    refine ⟨h.limiter.closed hanswer, ?_⟩
    intro c hc
    by_contra hlt
    exact h.limiter.rejected hanswer
      (h.released c.1 (by omega) (h.calls.initialized_of_mem hc))
  gauge := h.limiter.gauge

variable {f : Frame}

theorem holds_mono (h : f.Holds config s)
    (hinitialized : ∀ i, s.initialized i = true → s'.initialized i = true)
    (hreleased : Released config s → Released config s') : f.Holds config s' := by
  cases f with
  | entry i => exact fun hlt hsize => hreleased (h hlt hsize)
  | onNewConnection i => exact ⟨hinitialized i h.1, h.2⟩
  | limit => exact hinitialized _ h
  | check i => exact hinitialized i h
  | onData i => exact ⟨hinitialized i h.1, h.2⟩

theorem Inv.limiter_step (h : Inv config s) (hlimiter : Limiter config s')
    (hinitialized : s'.initialized = s.initialized) (hcalls : s'.calls = s.calls)
    (hstack : s'.stack = s.stack) (hlimit : s'.callingLimit = s.callingLimit)
    (hreleased : Released config s' ↔ Released config s) : Inv config s' := by
  refine ⟨hlimiter, ?_, ?_, ?_, ?_, ?_⟩
  · rw [hinitialized, hcalls]
    exact h.calls
  · intro i hlt hi
    rw [hinitialized] at hi
    exact hreleased.mpr (h.released i hlt hi)
  · intro f hf
    rw [hstack] at hf
    exact holds_mono (h.frames f hf) (by simp [hinitialized]) hreleased.mpr
  · rw [hlimit, hstack]
    exact h.limit
  · rw [hinitialized, hstack, hreleased]
    exact h.next

variable {rest : List Frame}

theorem Inv.top (h : Inv config s) {t : List Frame} (hstack : s.stack = f :: rest)
    (hlimit : f = .limit → s.callingLimit = false) (htop : ∀ g ∈ t, g.Holds config s)
    (hleads : f.leads config → Released config s → config.after ≠ 0 →
      s.initialized (config.before + 1) = true ∨ ∃ g ∈ t, g.leads config) :
    Inv config { s with stack := t ++ rest } := by
  refine ⟨{ h.limiter with }, h.calls, h.released, ?_, ?_, ?_⟩
  · intro g hg
    rcases mem_append.mp hg with hg | hg
    · exact holds_mono (htop g hg) (fun _ h => h) id
    · have hold := h.frames g (by rw [hstack]; exact mem_cons_of_mem _ hg)
      exact holds_mono hold (fun _ h => h) id
  · intro hcalling
    have hmem := h.limit hcalling
    rw [hstack] at hmem
    rcases mem_cons.mp hmem with heq | hmem
    · rw [hlimit heq.symm] at hcalling
      cases hcalling
    · exact mem_append_right _ hmem
  · intro hbegun hreleased hafter
    rcases h.next hbegun hreleased hafter with hnext | ⟨g, hg, hlead⟩
    · exact .inl hnext
    rw [hstack] at hg
    rcases mem_cons.mp hg with rfl | hg
    · rcases hleads hlead hreleased hafter with hnext | ⟨g, hg, hlead⟩
      · exact .inl hnext
      · exact .inr ⟨g, mem_append_left _ hg, hlead⟩
    · exact .inr ⟨g, mem_append_right _ hg, hlead⟩

variable {i : Nat}

theorem Inv.onContinueReading (h : Inv config s)
    (hi : config.before < i → i < config.size → Released config s) :
    Inv config (s.onContinueReading i) := by
  refine ⟨{ h.limiter with }, h.calls, h.released, ?_, ?_, ?_⟩
  · intro g hg
    rcases mem_cons.mp hg with rfl | hg
    · exact hi
    · exact holds_mono (h.frames g hg) (fun _ h => h) id
  · intro hcalling
    exact mem_cons_of_mem _ (h.limit hcalling)
  · intro hbegun hreleased hafter
    rcases h.next hbegun hreleased hafter with hnext | ⟨g, hg, hlead⟩
    · exact .inl hnext
    · exact .inr ⟨g, mem_cons_of_mem _ hg, hlead⟩

theorem Inv.data (h : Inv config s) (hi : s.initialized i = true) : Inv config (s.call i .onData) :=
  ⟨{ h.limiter with }, h.calls.onData hi, h.released,
    fun f hf => holds_mono (h.frames f hf) (fun _ h => h) id, h.limit, h.next⟩

theorem inv_close (h : Inv config s) : ∃ s', s.close = some s' ∧ Inv config s' := by
  obtain ⟨begun, calls, gauge, waits, disabled, unanswered, decided, closed⟩ := h.limiter
  by_cases hopen : s.isOpen = true
  · by_cases hcalling : s.status = .calling
    · have hout := waits hcalling hopen
      have hclose : s.close = some ({ s with
          isOpen := false
          outstanding := false }.active (-1)) := by
        simp [close, onEvent, cancel, hopen, hcalling, hout]
      refine ⟨_, hclose, ?_⟩
      refine h.limiter_step ⟨begun, ?_, ?_, ?_, disabled, unanswered, decided, ?_⟩ rfl rfl rfl rfl Iff.rfl
      · simp [active]
      · simp [active, gauge, hout]
      · simp [active]
      · simp [active]
    · have hclose : s.close = some { s with isOpen := false } := by
        simp [close, onEvent, hopen, hcalling]
      refine ⟨_, hclose, ?_⟩
      refine h.limiter_step ⟨begun, calls, gauge, ?_, disabled, unanswered, decided, ?_⟩
        rfl rfl rfl rfl Iff.rfl
      · simp
      · simp
  · exact ⟨s, by simp [close, hopen], h⟩

variable {given : LimitStatus × Bool}

theorem Inv.answered (h : Inv config s) (hout : s.outstanding = true) {stats : InstanceStats}
    {isOpen : Bool} {top : List Frame} (hgauge : stats.active = s.stats.active - 1)
    (hopen : given = (.overLimit, true) → isOpen = false)
    (htop : ∀ f ∈ top, given ≠ (.overLimit, true) ∧ f = .entry (config.before + 1))
    (hnext : given ≠ (.overLimit, true) → ∃ f ∈ top ++ s.stack, f.leads config) :
    Inv config { s with
      outstanding := false
      answer := some given
      status := .complete
      stats := stats
      isOpen := isOpen
      stack := top ++ s.stack } := by
  have hcalling := h.limiter.calls hout
  have hunreleased := h.limiter.calling hcalling
  refine ⟨⟨?_, ?_, ?_, ?_, ?_, ?_, ?_, ?_⟩, h.calls, ?_, ?_, ?_, ?_⟩
  · have hbegun := h.limiter.begun.mpr (by simp [hcalling])
    simp [hbegun]
  · simp
  · simp [hgauge, h.limiter.gauge, hout]
  · simp
  · intro hdisabled
    exact absurd hcalling (h.limiter.disabled hdisabled).1
  · simp
  · simp
  · intro hanswer
    exact hopen (Option.some.inj hanswer)
  · intro i hlt hi
    exact absurd (h.released i hlt hi) hunreleased
  · intro f hf
    rcases mem_append.mp hf with hf | hf
    · obtain ⟨hgiven, rfl⟩ := htop f hf
      exact fun _ _ => .inr ⟨given, rfl, hgiven⟩
    · exact holds_mono (h.frames f hf) (fun _ h => h) (fun h => absurd h hunreleased)
  · intro hlimit
    exact mem_append_right _ (h.limit hlimit)
  · rintro - hreleased -
    refine .inr (hnext ?_)
    rcases hreleased with hdisabled | ⟨_, hsome, hne⟩
    · exact absurd hcalling (h.limiter.disabled hdisabled).1
    · cases hsome
      exact hne

@[simp] theorem count_active (status : LimitStatus) :
    (s.count status).stats.active = s.stats.active := by
  cases status <;> rfl

theorem complete_rejects (config : TcpConfig) : step config s (.complete .overLimit true) = some { s with
      outstanding := false
      answer := some (.overLimit, true)
      status := .complete
      stats := { s.stats with
        active := s.stats.active + -1
        overLimit := s.stats.overLimit + 1
        cxClosed := s.stats.cxClosed + 1 }
      isOpen := false } := by
  cases hopen : s.isOpen <;> simp [step, complete, close, onEvent, active, count, hopen]

theorem complete_accepts (config : TcpConfig) (hgiven : given ≠ (.overLimit, true)) :
    step config s (.complete given.1 given.2) = some { s with
      outstanding := false
      answer := some given
      status := .complete
      stats := ((s.active (-1)).count given.1).stats
      stack := (if s.callingLimit then [] else [.entry (config.before + 1)]) ++ s.stack } := by
  obtain ⟨status, enforcing⟩ := given
  have hrejects : ¬(status = .overLimit ∧ enforcing = true) := by
    simpa using hgiven
  simp only [step, complete, hrejects, if_false]
  cases hinline : s.callingLimit with
  | true => cases status <;> simp [active, count, hinline]
  | false => cases status <;> simp [active, count, hinline, onContinueReading]

section

variable (h : Inv config s)
include h

theorem inv_complete (hout : s.outstanding = true) (status : LimitStatus) (enforcing : Bool) :
    ∃ s', step config s (.complete status enforcing) = some s' ∧ Inv config s' := by
  by_cases hgiven : (status, enforcing) = (.overLimit, true)
  · obtain ⟨rfl, rfl⟩ := Prod.mk.inj hgiven
    exact ⟨_, complete_rejects config, h.answered hout rfl (fun _ => rfl) (forall_mem_nil _)
      (fun hne => absurd rfl hne)⟩
  · refine ⟨_, complete_accepts config hgiven, ?_⟩
    apply h.answered hout
    · simp [active, Int.sub_eq_add_neg]
    · exact fun h => absurd h hgiven
    · intro f hf
      split at hf
      · cases hf
      · exact ⟨hgiven, mem_singleton.mp hf⟩
    · intro _
      split
      · exact ⟨.limit, h.limit ‹_›, trivial⟩
      · exact ⟨_, mem_cons_self, rfl⟩

theorem Inv.newConnectionReturns (hstack : s.stack = f :: rest)
    (hlimit : f = .limit → s.callingLimit = false)
    (hi : s.initialized i = true) (status : FilterStatus)
    (hleads : f.leads config → Released config s →
      i = config.before ∧ status = .continueIteration) :
    Inv config (s.newConnectionReturns i rest status) := by
  cases status with
  | continueIteration =>
    refine h.top (t := [.check i]) hstack hlimit ?_ ?_
    · intro g hg
      obtain rfl := mem_singleton.mp hg
      exact hi
    · intro hlead hreleased _
      exact .inr ⟨_, mem_singleton_self _, (hleads hlead hreleased).1⟩
  | stopIteration =>
    refine h.top (t := []) hstack hlimit (forall_mem_nil _) ?_
    intro hlead hreleased _
    cases (hleads hlead hreleased).2

theorem inv_returns (status : FilterStatus) (hwaiting : s.waiting = true)
    (hstack : s.stack ≠ []) (hlimit : s.stack.head? ≠ some .limit) :
    ∃ s', s.returns status = some s' ∧ Inv config s' := by
  rw [returns]
  rw [waiting] at hwaiting
  rcases heq : s.stack with _ | ⟨f, rest⟩
  · exact absurd heq hstack
  have hf := h.frames f (by rw [heq]; exact mem_cons_self)
  rw [heq] at hwaiting hlimit
  cases f with
  | entry | check => simp [Frame.waits] at hwaiting
  | limit => simp at hlimit
  | onNewConnection i =>
    exact ⟨_, rfl, h.newConnectionReturns heq (by simp) hf.1 status (fun h => h.elim)⟩
  | onData i =>
    refine ⟨_, rfl, ?_⟩
    cases status with
    | continueIteration =>
      refine h.top (t := [.entry (i + 1)]) heq (by simp) ?_ (fun h => h.elim)
      intro g hg
      obtain rfl := mem_singleton.mp hg
      intro hlt _
      -- The filter is not the rate limit filter, so it is behind it.
      exact h.released i (by have := hf.2; omega) hf.1
    | stopIteration =>
      exact h.top (t := []) heq (by simp) (forall_mem_nil _) (fun h => h.elim)

theorem inv_limitReturns (hlimit : s.stack.head? = some .limit) :
    ∃ s', s.limitReturns config = some s' ∧ Inv config s' := by
  obtain ⟨rest, heq⟩ := head?_eq_some_iff.mp hlimit
  rw [limitReturns, heq]
  refine ⟨_, rfl, ?_⟩
  have hquiet : Inv config { s with callingLimit := false } :=
    ⟨{ h.limiter with }, h.calls, h.released,
      fun f hf => holds_mono (h.frames f hf) (fun _ h => h) id, by simp, h.next⟩
  have hbegun : s.initialized config.before = true :=
    h.frames .limit (by rw [heq]; exact mem_cons_self)
  refine hquiet.newConnectionReturns heq (fun _ => rfl) hbegun _ ?_
  intro _ hreleased
  refine ⟨rfl, ?_⟩
  rw [onData, if_neg]
  exact fun hcalling => hquiet.limiter.calling hcalling hreleased

theorem Inv.passes (hi : s.initialized i = true) (hstops : i = config.before → config.after ≠ 0 →
      s.status ≠ .calling ∧ s.answer ≠ some (.overLimit, true)) :
    (Frame.entry (i + 1)).Holds config s := by
  intro hlt hsize
  by_cases hplace : i = config.before
  · subst hplace
    have hafter : config.after ≠ 0 := by
      rw [TcpConfig.size] at hsize
      omega
    obtain ⟨hcalling, hopen⟩ := hstops rfl hafter
    have hcomplete : s.status = .complete := by
      have := h.limiter.begun.mp hi
      cases hstatus : s.status <;> simp_all
    rcases h.limiter.decided hcomplete with hdisabled | hanswer
    · exact .inl hdisabled
    · obtain ⟨given, hgiven⟩ := ne_none_iff_exists'.mp hanswer
      exact .inr ⟨given, hgiven, fun heq => hopen (heq ▸ hgiven)⟩
  · exact h.released i (by omega) hi

theorem Inv.goOn (heq : s.stack = .check i :: rest)
    (hholds : (Frame.entry (i + 1)).Holds config s) :
    Inv config { s with stack := .entry (i + 1) :: rest } := by
  refine h.top (t := [.entry (i + 1)]) heq (by simp) ?_ ?_
  · intro g hg
    obtain rfl := mem_singleton.mp hg
    exact hholds
  · intro hlead _ _
    obtain rfl : i = config.before := hlead
    exact .inr ⟨_, mem_singleton_self _, rfl⟩

theorem inv_check (heq : s.stack = .check i :: rest)
    (hstops : i = config.before → config.after ≠ 0 →
      (s.status = .calling → s.readBuffer ≠ 0) ∧ s.answer ≠ some (.overLimit, true)) :
    ∃ s', s.iterate config = some s' ∧ Inv config s' := by
  have hi : s.initialized i = true := h.frames (.check i) (by rw [heq]; exact mem_cons_self)
  simp only [iterate, heq]
  by_cases hempty : s.readBuffer = 0
  · rw [if_pos hempty]
    refine ⟨_, rfl, h.goOn heq (h.passes hi ?_)⟩
    exact fun hplace hafter => ⟨fun hcalling => (hstops hplace hafter).1 hcalling hempty,
      (hstops hplace hafter).2⟩
  rw [if_neg hempty]
  have hdata := h.data hi
  by_cases hplace : i = config.before
  · rw [if_pos hplace]
    refine ⟨_, rfl, ?_⟩
    rw [onData]
    by_cases hcalling : (s.call i .onData).status = .calling
    · rw [if_pos hcalling]
      refine hdata.top (t := []) heq (by simp) (forall_mem_nil _) ?_
      exact fun _ hreleased => absurd hreleased (hdata.limiter.calling hcalling)
    · rw [if_neg hcalling]
      exact hdata.goOn heq (hdata.passes hi fun _ hafter => ⟨hcalling, (hstops hplace hafter).2⟩)
  · rw [if_neg hplace]
    refine ⟨_, rfl, hdata.top (t := [.onData i]) heq (by simp) ?_ ?_⟩
    · intro g hg
      obtain rfl := mem_singleton.mp hg
      exact ⟨hi, hplace⟩
    · exact fun hlead => absurd hlead hplace

theorem inv_begin (heq : s.stack = .entry config.before :: rest)
    (hnew : s.initialized config.before = false) :
    ∃ s', ({ s with initialized := fun j => j = config.before || s.initialized j }.call config.before
        .onNewConnection).onNewConnection config rest = some s' ∧ Inv config s' := by
  have hstatus : s.status = .notStarted := by
    by_contra hne
    rw [h.limiter.begun.mpr hne] at hnew
    cases hnew
  have hidle : s.outstanding = false := by
    by_contra hout
    have := h.limiter.calls (by simpa using hout)
    simp [hstatus] at this
  have hanswer := h.limiter.unanswered (by simp [hstatus])
  have hcalls := h.calls.onNewConnection hnew
  have hgauge := h.limiter.gauge
  have hkept : ∀ f ∈ rest, ∀ {t : TcpChain}, t.answer = s.answer →
      (∀ i, s.initialized i = true → t.initialized i = true) → f.Holds config t := by
    intro f hf t htanswer hinitialized
    refine holds_mono (h.frames f (by rw [heq]; exact mem_cons_of_mem _ hf)) hinitialized ?_
    rw [Released, Released, htanswer]
    exact id
  have hlimit : s.callingLimit = true → .limit ∈ rest := by
    intro hcalling
    have := h.limit hcalling
    rw [heq] at this
    simpa using this
  have hbehind : ∀ i, config.before < i →
      (decide (i = config.before) || s.initialized i) = true → Released config s := by
    intro i hlt hi
    exact h.released i hlt (by simpa [show i ≠ config.before by omega] using hi)
  cases henabled : config.enabled with
  | false =>
    refine ⟨_, by simp [onNewConnection, call, henabled, hstatus, newConnectionReturns, onData]; rfl, ?_⟩
    refine ⟨⟨?_, ?_, hgauge, ?_, ?_, ?_, ?_, ?_⟩, hcalls, hbehind, ?_, ?_, ?_⟩
    · simp
    · simp [hidle]
    · simp
    · simp [hanswer]
    · simp
    · simp [henabled]
    · simp [hanswer]
    · intro f hf
      rcases mem_cons.mp hf with rfl | hf
      · simp [Frame.Holds]
      · exact hkept f hf rfl (by simp +contextual)
    · exact fun hcalling => mem_cons_of_mem _ (hlimit hcalling)
    · exact fun _ _ _ => .inr ⟨_, mem_cons_self, rfl⟩
  | true =>
    refine ⟨_, by simp [onNewConnection, call, henabled, hstatus, hidle]; rfl, ?_⟩
    refine ⟨⟨?_, ?_, ?_, ?_, ?_, ?_, ?_, ?_⟩, hcalls, hbehind, ?_, ?_, ?_⟩
    · simp
    · simp
    · simp [hgauge, hidle]
    · simp
    · simp [henabled]
    · simp [hanswer]
    · simp
    · simp [hanswer]
    · intro f hf
      rcases mem_cons.mp hf with rfl | hf
      · simp [Frame.Holds]
      · exact hkept f hf rfl (by simp +contextual)
    · exact fun _ => mem_cons_self
    · exact fun _ _ _ => .inr ⟨_, mem_cons_self, trivial⟩

theorem Inv.newConnection (heq : s.stack = .entry i :: rest)
    (hnew : s.initialized i = false) (hplace : i ≠ config.before) (hsize : i < config.size) :
    Inv config ({ s with
      initialized := fun j => j = i || s.initialized j
      stack := .onNewConnection i :: rest }.call i .onNewConnection) := by
  have hreached : config.before < i → Released config s := by
    intro hlt
    exact h.frames (.entry i) (by rw [heq]; exact mem_cons_self) hlt hsize
  have hplace' : (decide (config.before = i) || s.initialized config.before) =
      s.initialized config.before := by
    simp [hplace.symm]
  obtain ⟨begun, calls, gauge, waits, disabled, unanswered, decided, closed⟩ := h.limiter
  refine ⟨⟨?_, calls, gauge, waits, disabled, unanswered, decided, closed⟩,
    h.calls.onNewConnection hnew, ?_, ?_, ?_, ?_⟩
  · simp only [call, hplace']
    exact begun
  · intro j hlt hj
    by_cases hij : j = i
    · exact hreached (hij ▸ hlt)
    · exact h.released j hlt (by simpa [call, hij] using hj)
  · intro f hf
    rcases mem_cons.mp hf with rfl | hf
    · exact ⟨by simp [call], hplace⟩
    · refine holds_mono (h.frames f (by rw [heq]; exact mem_cons_of_mem _ hf)) ?_ id
      simp +contextual [call]
  · intro hcalling
    have := h.limit hcalling
    rw [heq] at this
    exact mem_cons_of_mem _ (by simpa using this)
  · intro hbegun hreleased hafter
    simp only [call, hplace'] at hbegun
    rcases h.next hbegun hreleased hafter with hnext | ⟨f, hf, hlead⟩
    · exact .inl (by simp [call, hnext])
    rw [heq] at hf
    rcases mem_cons.mp hf with rfl | hf
    · obtain rfl : i = config.before + 1 := hlead
      exact .inl (by simp [call])
    · exact .inr ⟨f, mem_cons_of_mem _ hf, hlead⟩

theorem inv_entry (heq : s.stack = .entry i :: rest) :
    ∃ s', s.iterate config = some s' ∧ Inv config s' := by
  simp only [iterate, heq]
  by_cases hsize : config.size ≤ i
  · rw [if_pos hsize]
    refine ⟨_, rfl, h.top (t := []) heq (by simp) (forall_mem_nil _) ?_⟩
    intro hlead _ hafter
    obtain rfl : i = config.before + 1 := hlead
    rw [TcpConfig.size] at hsize
    omega
  rw [if_neg hsize]
  cases hinitialized : s.initialized i with
  | true =>
    refine ⟨_, rfl, h.top (t := [.check i]) heq (by simp) ?_ ?_⟩
    · intro g hg
      obtain rfl := mem_singleton.mp hg
      exact hinitialized
    · intro hlead _ _
      obtain rfl : i = config.before + 1 := hlead
      exact .inl hinitialized
  | false =>
    simp only [Bool.false_eq_true, if_false]
    by_cases hplace : i = config.before
    · subst hplace
      rw [if_pos rfl, ← heq]
      exact inv_begin h heq hinitialized
    · rw [if_neg hplace]
      exact ⟨_, rfl, h.newConnection heq hinitialized hplace (by omega)⟩

theorem inv_iterate (hrunning : s.waiting = false)
    (hstops : Stops config s .iterate) : ∃ s', s.iterate config = some s' ∧ Inv config s' := by
  rcases heq : s.stack with _ | ⟨f, rest⟩
  · simp [waiting, heq] at hrunning
  cases f with
  | entry i => exact inv_entry h heq
  | check i =>
    refine inv_check h heq ?_
    rintro rfl
    exact hstops (by rw [heq]; rfl)
  | onNewConnection | limit | onData => simp [waiting, heq, Frame.waits] at hrunning

theorem inv_step {e : TcpEvent} (hpossible : Possible config s e)
    (hstops : Stops config s e) : ∃ s', step config s e = some s' ∧ Inv config s' := by
  cases e with
  | initializeReadFilters | onRead => exact ⟨_, rfl, h.onContinueReading (fun hlt => by omega)⟩
  | iterate => exact inv_iterate h hpossible hstops
  | returns status => exact inv_returns h status hpossible.1 hpossible.2.1 hpossible.2.2
  | limitReturns => exact inv_limitReturns h hpossible
  | complete status enforcing => exact inv_complete h hpossible.2 status enforcing
  | continueReading i =>
    obtain ⟨-, hplace, hi⟩ := hpossible
    refine ⟨_, rfl, h.onContinueReading ?_⟩
    exact h.passes hi (fun heq => absurd heq hplace)
  | readBuffer length =>
    refine ⟨_, rfl, h.limiter_step ?_ rfl rfl rfl rfl Iff.rfl⟩
    exact { h.limiter with }
  | close => exact inv_close h

end

theorem inv_run {es : List TcpEvent} (hs : Inv config s)
    (h : AllMeet (step config) (fun s e => Possible config s e ∧ Stops config s e) s es) :
    ∃ s', run (step config) s es = some s' ∧ Inv config s' :=
  run_safe (fun _ _ hs h => inv_step hs h.1 h.2) hs h

variable (config)

/-- In every run in which the chain stops at the rate limit filter no assertion fails, and a
limited connection goes no further. -/
theorem limited_goes_no_further (es : List TcpEvent)
    (h : AllMeet (step config) (fun s e => Possible config s e ∧ Stops config s e) create es) :
    ∃ s, run (step config) create es = some s ∧ GoesNoFurther config s := by
  obtain ⟨s, hs, hinv⟩ := inv_run (inv_create config) h
  exact ⟨s, hs, hinv.goesNoFurther⟩

instance decidablePossible (s : TcpChain) :
    (e : TcpEvent) → Decidable (Possible config s e) := by
  intro e
  cases e <;> dsimp only [Possible] <;> infer_instance

instance decidableStops (s : TcpChain) :
    (e : TcpEvent) → Decidable (Stops config s e) := by
  intro e
  cases e <;> dsimp only [Stops] <;> infer_instance

variable {config}

def sampleTcpConfig : TcpConfig := ⟨ascii "tcp", [], true, 0, 1⟩

def refusedLater : List TcpEvent :=
  [.initializeReadFilters, .iterate, .limitReturns, .readBuffer 3, .onRead, .iterate, .iterate,
    .complete .overLimit true]

theorem refusedLater_goes_no_further : AllMeet (step sampleTcpConfig)
        (fun s e => Possible sampleTcpConfig s e ∧ Stops sampleTcpConfig s e) create refusedLater ∧
      ∃ s, run (step sampleTcpConfig) create refusedLater = some s ∧ GoesNoFurther sampleTcpConfig s := by
  have hmeet : AllMeet (step sampleTcpConfig)
      (fun s e => Possible sampleTcpConfig s e ∧ Stops sampleTcpConfig s e) create refusedLater := by
    decide +kernel
  exact ⟨hmeet, limited_goes_no_further sampleTcpConfig refusedLater hmeet⟩

/-- The service refuses the connection inside of `limit`, and the proxy gets it all the same. -/
def refusedInline : List TcpEvent :=
  [.initializeReadFilters, .iterate, .complete .overLimit true, .limitReturns, .iterate, .iterate]

theorem refusedInline_goes_further :
    ¬∀ (config : TcpConfig) (es : List TcpEvent), AllMeet (step config) (Possible config) create es →
      ∃ s, run (step config) create es = some s ∧ GoesNoFurther config s := by
  intro h
  have hmeet : AllMeet (step sampleTcpConfig) (Possible sampleTcpConfig) create refusedInline := by
    decide +kernel
  obtain ⟨s, hs, hfurther⟩ := h sampleTcpConfig refusedInline hmeet
  have hcalls : (run (step sampleTcpConfig) create refusedInline).map
      (fun s => (s.answer, s.calls)) =
        some (some (.overLimit, true), [(0, .onNewConnection), (1, .onNewConnection)]) := by
    decide +kernel
  rw [hs, map_some, some_inj, Prod.mk.injEq] at hcalls
  have := (hfurther.closed hcalls.1).2 (1, .onNewConnection) (by simp [hcalls.2])
  exact absurd this (by decide)

end TcpChain

end Meliproxy.Envoy.RateLimit
