import Meliproxy.Lib.Runs

/-!
# The drain manager

`server/drain_manager_impl.cc`. The drain time is what `--drain-time-s` gives, a `uint32_t` of
seconds. The first tick is made when the sequence starts, the others by the timer.
-/

namespace Meliproxy.Envoy.Server

open Lib Option

/-- `enabled` is the timer. `completions` says how often the completion was called, and `failed`
whether an `ASSERT` did not hold. -/
structure DrainManagerImpl where
  drainTime : UInt32
  hasTimer : Bool
  enabled : Bool
  hasCompletion : Bool
  drainTimeCompleted : UInt32
  completions : Nat
  failed : Bool

namespace DrainManagerImpl

def create (drainTime : UInt32) : DrainManagerImpl :=
  ⟨drainTime, false, false, false, 0, 0, false⟩

variable (s : DrainManagerImpl)

def drainSequenceTick : DrainManagerImpl :=
  let s := { s with failed := s.failed || decide (¬ s.drainTimeCompleted < s.drainTime),
                    drainTimeCompleted := s.drainTimeCompleted + 1, enabled := false }
  if s.drainTimeCompleted < s.drainTime then { s with enabled := true }
  else if s.hasCompletion then { s with completions := s.completions + 1 }
  else s

def startDrainSequence (completion : Bool) : DrainManagerImpl :=
  drainSequenceTick { s with hasCompletion := completion, failed := s.failed || s.hasTimer,
                             hasTimer := true }

/-- `drainClose` with the health check and the random number of the server, and without a result
for a modulus of zero. -/
def drainClose (healthCheckFailed : Bool) (random : UInt64) : Option Bool :=
  if healthCheckFailed then some true
  else if s.hasTimer = false then some false
  else if s.drainTime = 0 then none
  else some (random % s.drainTime.toUInt64 < s.drainTimeCompleted.toUInt64)

inductive Event where
  | tick
  | drainClose (healthCheckFailed : Bool) (random : UInt64)

def step : Event → Option DrainManagerImpl
  | .tick => if s.enabled then some (drainSequenceTick s) else none
  | .drainClose healthCheckFailed random => (s.drainClose healthCheckFailed random).map fun _ => s

def ticks (events : List Event) : Nat :=
  events.countP fun
    | .tick => true
    | .drainClose _ _ => false

def closing (healthCheckFailed : Bool) : Nat :=
  (List.range (2 ^ 64)).countP fun random =>
    s.drainClose healthCheckFailed (UInt64.ofNat random) = some true

structure Correct (s : DrainManagerImpl) : Prop where
  bounded : s.drainTimeCompleted ≤ s.drainTime
  asserted : s.failed = false
  enabled : s.enabled = true ↔ s.drainTimeCompleted < s.drainTime
  completions : s.completions =
    if s.hasCompletion = true ∧ s.drainTimeCompleted = s.drainTime then 1 else 0
  modulus : ∀ healthCheckFailed random, s.drainClose healthCheckFailed random ≠ none
  increasing : ∀ s', s.step .tick = some s' → ∀ healthCheckFailed,
    (∀ random, s.drainClose healthCheckFailed random = some true →
      s'.drainClose healthCheckFailed random = some true) ∧
      s.closing healthCheckFailed ≤ s'.closing healthCheckFailed
  elapsed : s.drainTimeCompleted = s.drainTime →
    ∀ healthCheckFailed random, s.drainClose healthCheckFailed random = some true

/-- The sequence has started and is not over the drain time. -/
structure Draining (s : DrainManagerImpl) : Prop where
  hasTimer : s.hasTimer = true
  drainTime : s.drainTime ≠ 0
  bounded : s.drainTimeCompleted ≤ s.drainTime
  asserted : s.failed = false
  enabled : s.enabled = true ↔ s.drainTimeCompleted < s.drainTime
  completions : s.completions =
    if s.hasCompletion = true ∧ s.drainTimeCompleted = s.drainTime then 1 else 0

variable {s s' : DrainManagerImpl}

theorem toNat_succ {completed drainTime : UInt32} (h : completed < drainTime) :
    (completed + 1).toNat = completed.toNat + 1 := by
  have hlt := UInt32.lt_iff_toNat_lt.mp h
  have hbound := drainTime.toNat_lt
  have h1 : (1 : UInt32).toNat = 1 := rfl
  rw [UInt32.toNat_add, h1, Nat.mod_eq_of_lt (by omega)]

theorem draining_tick (htimer : s.hasTimer = true) (hlt : s.drainTimeCompleted < s.drainTime)
    (hfailed : s.failed = false) (hcompletions : s.completions = 0) :
    Draining (drainSequenceTick s) ∧ (drainSequenceTick s).drainTime = s.drainTime ∧
      (drainSequenceTick s).drainTimeCompleted.toNat = s.drainTimeCompleted.toNat + 1 := by
  have hnat := UInt32.lt_iff_toNat_lt.mp hlt
  have hsucc := toNat_succ hlt
  have hne : s.drainTime ≠ 0 := by
    intro hzero
    rw [hzero] at hnat
    exact absurd hnat (Nat.not_lt_zero _)
  have hfailed' : (s.failed || decide (¬ s.drainTimeCompleted < s.drainTime)) = false := by
    rw [hfailed, Bool.false_or, decide_eq_false_iff_not, not_not]
    exact hlt
  have hle : s.drainTimeCompleted + 1 ≤ s.drainTime := by
    apply UInt32.le_iff_toNat_le.mpr
    omega
  rw [drainSequenceTick]
  by_cases hmore : s.drainTimeCompleted + 1 < s.drainTime
  · rw [if_pos hmore]
    refine ⟨⟨htimer, hne, hle, hfailed', iff_of_true rfl hmore, ?_⟩, rfl, hsucc⟩
    rw [if_neg fun hboth => UInt32.ne_of_lt hmore hboth.2]
    exact hcompletions
  · have hend : s.drainTimeCompleted + 1 = s.drainTime := by
      apply UInt32.toNat_inj.mp
      rw [UInt32.lt_iff_toNat_lt] at hmore
      omega
    rw [if_neg hmore]
    by_cases hcompletion : s.hasCompletion = true
    · rw [if_pos hcompletion]
      refine ⟨⟨htimer, hne, hle, hfailed', iff_of_false Bool.false_ne_true hmore, ?_⟩, rfl, hsucc⟩
      rw [if_pos ⟨hcompletion, hend⟩]
      exact congrArg (· + 1) hcompletions
    · rw [if_neg hcompletion]
      refine ⟨⟨htimer, hne, hle, hfailed', iff_of_false Bool.false_ne_true hmore, ?_⟩, rfl, hsucc⟩
      rw [if_neg fun hboth => hcompletion hboth.1]
      exact hcompletions

theorem Draining.tick (h : Draining s) (hstep : s.step .tick = some s') :
    Draining s' ∧ s'.drainTime = s.drainTime ∧
      s'.drainTimeCompleted.toNat = s.drainTimeCompleted.toNat + 1 := by
  rw [step] at hstep
  split at hstep
  · rename_i henabled
    cases hstep
    have hlt := h.enabled.mp henabled
    refine draining_tick h.hasTimer hlt h.asserted ?_
    rw [h.completions, if_neg fun hboth => UInt32.ne_of_lt hlt hboth.2]
  · cases hstep

theorem Draining.drainClose_eq (h : Draining s) (random : UInt64) : s.drainClose false random =
      some (decide (random.toNat % s.drainTime.toNat < s.drainTimeCompleted.toNat)) := by
  have htimer : ¬ s.hasTimer = false := by
    rw [h.hasTimer]
    exact nofun
  have hlt : random % s.drainTime.toUInt64 < s.drainTimeCompleted.toUInt64 ↔
      random.toNat % s.drainTime.toNat < s.drainTimeCompleted.toNat := by
    rw [UInt64.lt_iff_toNat_lt, UInt64.toNat_mod, UInt32.toNat_toUInt64, UInt32.toNat_toUInt64]
  rw [drainClose, if_neg Bool.false_ne_true, if_neg htimer, if_neg h.drainTime,
    decide_eq_decide.mpr hlt]

theorem Draining.correct (h : Draining s) : Correct s where
  bounded := h.bounded
  asserted := h.asserted
  enabled := h.enabled
  completions := h.completions
  modulus := by
    intro healthCheckFailed random
    cases healthCheckFailed with
    | true => exact nofun
    | false =>
      rw [h.drainClose_eq]
      exact nofun
  increasing := by
    intro s' hstep healthCheckFailed
    obtain ⟨h', htime, hsucc⟩ := h.tick hstep
    have hclose : ∀ random, s.drainClose healthCheckFailed random = some true →
        s'.drainClose healthCheckFailed random = some true := by
      intro random
      cases healthCheckFailed with
      | true => exact fun _ => rfl
      | false =>
        rw [h.drainClose_eq, h'.drainClose_eq, htime, hsucc, some_inj, some_inj,
          decide_eq_true_eq, decide_eq_true_eq]
        omega
    refine ⟨hclose, List.countP_mono_left fun random _ hrandom => ?_⟩
    rw [decide_eq_true_eq] at hrandom ⊢
    exact hclose _ hrandom
  elapsed := by
    intro hend healthCheckFailed random
    cases healthCheckFailed with
    | true => rfl
    | false =>
      rw [h.drainClose_eq, hend, some_inj, decide_eq_true_eq]
      apply Nat.mod_lt
      exact Nat.pos_of_ne_zero fun hzero => h.drainTime (UInt32.toNat_inj.mp hzero)

theorem draining_start {drainTime : UInt32} (hne : drainTime ≠ 0) (completion : Bool) :
    Draining (startDrainSequence (create drainTime) completion) ∧
      (startDrainSequence (create drainTime) completion).drainTimeCompleted.toNat = 1 := by
  have hlt : (0 : UInt32) < drainTime := by
    apply UInt32.lt_iff_toNat_lt.mpr
    exact Nat.pos_of_ne_zero fun hzero => hne (UInt32.toNat_inj.mp hzero)
  obtain ⟨h, -, hsucc⟩ := draining_tick
    (s := { create drainTime with hasCompletion := completion, hasTimer := true }) rfl hlt rfl rfl
  exact ⟨h, hsucc⟩

theorem Draining.run {events : List Event} (h : Draining s)
    (hrun : Lib.run step s events = some s') :
    Draining s' ∧ s'.drainTimeCompleted.toNat = s.drainTimeCompleted.toNat + ticks events := by
  induction events generalizing s with
  | nil =>
    cases hrun
    exact ⟨h, rfl⟩
  | cons event events ih =>
    obtain ⟨s₁, hstep, hrest⟩ := bind_eq_some_iff.mp hrun
    cases event with
    | tick =>
      obtain ⟨h₁, -, hsucc⟩ := h.tick hstep
      obtain ⟨h', hcount⟩ := ih h₁ hrest
      refine ⟨h', ?_⟩
      rw [hcount, hsucc, ticks, ticks, List.countP_cons_of_pos rfl]
      omega
    | drainClose healthCheckFailed random =>
      obtain ⟨_, -, rfl⟩ := map_eq_some_iff.mp hstep
      obtain ⟨h', hcount⟩ := ih h hrest
      refine ⟨h', ?_⟩
      rw [hcount, ticks, ticks, List.countP_cons_of_neg (by exact nofun)]

/-- Whatever the completion and the calls are, the sequence is as it should be exactly for the drain
times other than zero. It has counted one second more than the timer has ticked. -/
theorem drainSequence_correct_iff (drainTime : UInt32) : (∀ completion events s,
      Lib.run step (startDrainSequence (create drainTime) completion) events = some s →
        Correct s ∧ s.drainTimeCompleted.toNat = 1 + ticks events) ↔ drainTime ≠ 0 := by
  constructor
  · rintro h rfl
    have hbounded := (h false [] _ rfl).1.bounded
    exact absurd hbounded (by decide)
  · intro hne completion events s hrun
    obtain ⟨h, hone⟩ := draining_start hne completion
    obtain ⟨h', hcount⟩ := h.run hrun
    rw [hone] at hcount
    exact ⟨h'.correct, hcount⟩

/-- A drain time of zero is over after a tick that has counted one second, and `drainClose` divides
by it. -/
theorem zero_drainTime : ¬ Correct (startDrainSequence (create 0) true) ∧
      (startDrainSequence (create 0) true).failed = true ∧
      (startDrainSequence (create 0) true).drainTimeCompleted = 1 ∧
      (startDrainSequence (create 0) true).drainClose false 0 = none :=
  ⟨fun h => absurd h.bounded (by decide), by decide, by decide, by decide⟩

end DrainManagerImpl

end Meliproxy.Envoy.Server
