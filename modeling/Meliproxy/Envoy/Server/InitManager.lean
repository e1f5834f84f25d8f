import Meliproxy.Lib.Runs

/-!
# The init manager

`server/init_manager_impl.cc`, on the main thread. The targets and the callback are code outside
of the manager, which may call it again before they return, so a state has the calls that are on
the stack. The iterator of the loop is at a node of the list or at its end.

`called`, `registered`, `late`, `initialized`, `completed` and `callbacks` are a history.
-/

namespace Meliproxy.Envoy.Server.InitManager

open Lib List

inductive Status where
  | notInitialized
  | initializing
  | initialized
  deriving DecidableEq

/-- A call of outside code: `initialize` of a target from the loop, which has moved its iterator
already, or from `registerTarget`, and the callback from a completion or without any targets. -/
inductive Frame (Target : Type) where
  | loop (iter : Option Target)
  | register
  | callback
  | emptyCallback

/-- `late` are the targets that were registered while the manager was initializing. -/
structure State (Target : Type) where
  status : Status
  targets : List Target
  frames : List (Frame Target)
  undefined : Bool
  called : Bool
  registered : List Target
  late : List Target
  initialized : List Target
  completed : List Target
  callbacks : Nat

inductive Event (Target : Type) where
  | initializeManager
  | register (target : Target)
  | complete (target : Target)
  | ret

variable {Target : Type}

def start : State Target := ⟨.notInitialized, [], [], false, false, [], [], [], [], 0⟩

def initializeTarget (s : State Target) (target : Target) (frame : Frame Target) : State Target :=
  { s with initialized := s.initialized ++ [target], frames := frame :: s.frames }

variable [DecidableEq Target]

def next (targets : List Target) (target : Target) : Option Target :=
  ((targets.dropWhile (· ≠ target)).drop 1).head?

variable (s : State Target)

/-- One turn of the loop, which may not use the iterator of an erased node. -/
def turn (target : Target) : State Target :=
  if target ∈ s.targets then initializeTarget s target (.loop (next s.targets target))
  else { s with undefined := true }

def initializeManager : State Target :=
  match s.targets with
  | [] => { s with frames := .emptyCallback :: s.frames, callbacks := s.callbacks + 1 }
  | target :: _ => turn { s with status := .initializing } target

def registerTarget (target : Target) : State Target :=
  let s := { s with targets := s.targets ++ [target] }
  if s.status = .initializing then
    initializeTarget { s with late := s.late ++ [target] } target .register
  else s

def complete (target : Target) : State Target :=
  let s := { s with targets := s.targets.filter (· ≠ target) }
  if s.targets = [] then
    { s with status := .initialized, frames := .callback :: s.frames, callbacks := s.callbacks + 1 }
  else s

def ret : List (Frame Target) → Option (State Target)
  | [] => none
  | .loop none :: frames => some { s with frames }
  | .loop (some target) :: frames => some (turn { s with frames } target)
  | .register :: frames => some { s with frames }
  | .callback :: frames => some { s with frames }
  | .emptyCallback :: frames => some { s with frames, status := .initialized }

/-- The manager is initialized once, a target registers once and completes as often as it was
initialized. -/
def step : Event Target → Option (State Target)
  | .initializeManager =>
    if s.undefined ∨ s.called then none else some (initializeManager { s with called := true })
  | .register target =>
    if s.undefined ∨ target ∈ s.registered then none
    else some (registerTarget { s with registered := s.registered ++ [target] } target)
  | .complete target =>
    if s.undefined = false ∧ s.completed.count target < s.initialized.count target then
      some (complete { s with completed := s.completed ++ [target] } target)
    else none
  | .ret => if s.undefined then none else ret s s.frames

/-- Every target is initialized once, at the latest when the loop is over, and the callback runs
once, when all targets have completed. -/
structure Correct : Prop where
  defined : s.undefined = false
  atMostOnce : ∀ target, s.initialized.count target ≤ 1
  onlyRegistered : ∀ target ∈ s.initialized, target ∈ s.registered
  exactlyOnce : s.called = true → (∀ iter, .loop iter ∉ s.frames) →
    ∀ target ∈ s.registered, s.initialized.count target = 1
  callback : s.callbacks =
    if s.called = true ∧ ∀ target ∈ s.registered, target ∈ s.completed then 1 else 0

/-- Nothing is registered once the manager is initialized or in the callback of an empty one, and
the loop does not move to a target that was registered while the manager was initializing. -/
def Orderly : Event Target → Prop
  | .register _ => s.called = false ∨ s.status = .initializing
  | .ret =>
    match s.frames with
    | .loop (some target) :: _ => ∀ after ∈ next s.targets target, after ∉ s.late
    | _ => True
  | _ => True

instance (e : Event Target) : Decidable (Orderly s e) := by
  cases e with
  | ret =>
    dsimp only [Orderly]
    split <;> infer_instance
  | _ => dsimp only [Orderly]; infer_instance

def iters (frames : List (Frame Target)) : List (Option Target) :=
  frames.filterMap fun
    | .loop iter => some iter
    | _ => none

/-- `early` are the targets from before the loop, and the loop has yet to come to those in
`waiting`. -/
structure Core (early waiting : List Target) : Prop where
  defined : s.undefined = false
  registered : s.registered = early ++ s.late
  nodup : s.registered.Nodup
  targets : s.targets = s.registered.filter (· ∉ s.completed)
  initializedNodup : s.initialized.Nodup
  initialized : ∀ target, target ∈ s.initialized ↔ target ∈ s.registered ∧ target ∉ waiting
  completedNodup : s.completed.Nodup
  completed : s.completed ⊆ s.initialized
  ahead : waiting <:+ early
  idle : s.called = false → s.status = .notInitialized ∧ s.late = [] ∧ waiting = early ∧
    s.frames = [] ∧ s.callbacks = 0
  phase : s.called = true →
    s.targets ≠ [] ∧ s.status = .initializing ∧ s.callbacks = 0 ∧ .emptyCallback ∉ s.frames ∨
      s.targets = [] ∧ s.status ≠ .initializing ∧ s.callbacks = 1

/-- The loop is over, or it is on the stack. -/
structure Holds (early waiting : List Target) : Prop extends Core s early waiting where
  loops : s.called = true → iters s.frames = [] ∧ waiting = [] ∨
    iters s.frames = [waiting.head?]

section Invariant

variable {s s' : State Target} {early waiting : List Target} {target : Target}

theorem holds_start : Holds (start : State Target) [] [] where
  defined := rfl
  registered := rfl
  nodup := nodup_nil
  targets := rfl
  initializedNodup := nodup_nil
  initialized := by simp [start]
  completedNodup := nodup_nil
  completed := nil_subset _
  ahead := suffix_rfl
  idle := fun _ => ⟨rfl, rfl, rfl, rfl, rfl⟩
  loops := fun h => by cases h
  phase := fun h => by cases h

section

variable (h : Core s early waiting)
include h

theorem Core.mem_targets : target ∈ s.targets ↔ target ∈ s.registered ∧ target ∉ s.completed := by
  rw [h.targets, mem_filter, decide_eq_true_eq]

theorem Core.subset_early (hmem : target ∈ waiting) : target ∈ s.registered := by
  rw [h.registered]
  exact mem_append_left _ (h.ahead.subset hmem)

theorem Core.waiting_mem (hmem : target ∈ waiting) : target ∈ s.targets := by
  apply h.mem_targets.mpr
  refine ⟨h.subset_early hmem, fun hdone => ?_⟩
  exact ((h.initialized target).mp (h.completed hdone)).2 hmem

theorem Core.targets_eq_nil_iff :
    s.targets = [] ↔ ∀ target ∈ s.registered, target ∈ s.completed := by
  rw [h.targets, filter_eq_nil_iff]
  apply forall₂_congr
  intro target _
  rw [decide_eq_true_eq, not_not]

end

theorem Holds.correct (h : Holds s early waiting) : Correct s where
  defined := h.defined
  atMostOnce := nodup_iff_count_le_one.mp h.initializedNodup
  onlyRegistered := fun target hmem => ((h.initialized target).mp hmem).1
  exactlyOnce := by
    intro hcalled hno target hmem
    rcases h.loops hcalled with ⟨-, rfl⟩ | hiters
    · exact count_eq_one_of_mem h.initializedNodup
        ((h.initialized target).mpr ⟨hmem, not_mem_nil⟩)
    · exfalso
      have hin : waiting.head? ∈ iters s.frames := by
        rw [hiters]
        exact mem_singleton_self _
      obtain ⟨frame, hframe, heq⟩ := mem_filterMap.mp hin
      cases frame with
      | loop iter => exact hno iter hframe
      | register | callback | emptyCallback => cases heq
  callback := by
    have hempty := h.targets_eq_nil_iff
    cases hcalled : s.called with
    | false =>
      rw [if_neg fun hboth => Bool.false_ne_true hboth.1]
      exact (h.idle hcalled).2.2.2.2
    | true =>
      rcases h.phase hcalled with ⟨hne, -, hzero, -⟩ | ⟨hnil, -, hone⟩
      · rw [hzero, if_neg fun hboth => hne (hempty.mpr hboth.2)]
      · rw [hone, if_pos ⟨rfl, hempty.mp hnil⟩]

theorem next_append {before after : List Target} (h : target ∉ before) :
    next (before ++ target :: after) target = after.head? := by
  rw [next, dropWhile_append_of_pos, dropWhile_cons_of_neg (by simp)]
  · rfl
  · intro other hother
    have hne : other ≠ target := fun heq => h (heq ▸ hother)
    simpa using hne

variable {rest : List Target}

theorem Core.next_eq (h : Core s early (target :: rest))
    (hlate : ∀ after ∈ next s.targets target, after ∉ s.late) :
    next s.targets target = rest.head? := by
  obtain ⟨before, hearly⟩ := h.ahead
  have hregistered : s.registered = before ++ target :: (rest ++ s.late) := by
    rw [h.registered, ← hearly, append_assoc, cons_append]
  have hdone : ∀ other ∈ target :: rest, other ∉ s.completed :=
    fun other hmem => (h.mem_targets.mp (h.waiting_mem hmem)).2
  have htargets : s.targets = before.filter (· ∉ s.completed) ++
      target :: (rest ++ s.late.filter (· ∉ s.completed)) := by
    have hrest : rest.filter (· ∉ s.completed) = rest := by
      apply filter_eq_self.mpr
      intro other hmem
      rw [decide_eq_true_eq]
      exact hdone other (mem_cons_of_mem _ hmem)
    rw [h.targets, hregistered, filter_append, filter_cons_of_pos, filter_append, hrest]
    rw [decide_eq_true_eq]
    exact hdone target mem_cons_self
  have hbefore : target ∉ before.filter (· ∉ s.completed) := by
    intro hmem
    have hnodup := h.nodup
    rw [hregistered] at hnodup
    exact (List.nodup_append.mp hnodup).2.2 target (mem_of_mem_filter hmem) target
      mem_cons_self rfl
  rw [htargets, next_append hbefore] at hlate ⊢
  cases rest with
  | cons other rest => rfl
  | nil =>
    -- what comes then is registered late
    cases hfilter : s.late.filter (· ∉ s.completed) with
    | nil => rfl
    | cons other others =>
      rw [hfilter] at hlate
      have hmem : other ∈ s.late.filter (· ∉ s.completed) := by
        rw [hfilter]
        exact mem_cons_self
      exact absurd (mem_of_mem_filter hmem) (hlate other rfl)

theorem Core.idle_lists (h : Core s early waiting) (hcalled : s.called = false) :
    s.registered = early ∧ s.targets = early ∧ s.initialized = [] ∧ s.completed = [] := by
  obtain ⟨-, hlate, rfl, -, -⟩ := h.idle hcalled
  have hregistered : s.registered = waiting := by rw [h.registered, hlate, append_nil]
  have hinitialized : s.initialized = [] := by
    apply eq_nil_iff_forall_not_mem.mpr
    intro target hmem
    obtain ⟨hin, hout⟩ := (h.initialized target).mp hmem
    exact hout (hregistered ▸ hin)
  have hcompleted : s.completed = [] := subset_nil.mp (hinitialized ▸ h.completed)
  refine ⟨hregistered, ?_, hinitialized, hcompleted⟩
  rw [h.targets, hregistered, hcompleted]
  exact filter_eq_self.mpr fun target _ => by simp

theorem Holds.register_idle (h : Holds s early waiting) (hcalled : s.called = false)
    (hnew : target ∉ s.registered) :
    Holds (registerTarget { s with registered := s.registered ++ [target] } target)
      (early ++ [target]) (early ++ [target]) := by
  obtain ⟨hstatus, hlate, hwaiting, hframes, hcallbacks⟩ := h.idle hcalled
  obtain ⟨hregistered, htargets, hinitialized, hcompleted⟩ := h.idle_lists hcalled
  have hne : s.status ≠ .initializing := by
    rw [hstatus]
    exact fun heq => by cases heq
  rw [registerTarget, if_neg hne]
  refine ⟨⟨h.defined, ?_, ?_, ?_, h.initializedNodup, ?_, h.completedNodup, h.completed,
    suffix_rfl, ?_, ?_⟩, ?_⟩
  · change s.registered ++ [target] = early ++ [target] ++ s.late
    rw [hregistered, hlate, append_nil]
  · exact List.Nodup.append h.nodup (nodup_singleton target)
      (disjoint_singleton.mpr hnew)
  · change s.targets ++ [target] = (s.registered ++ [target]).filter (· ∉ s.completed)
    rw [htargets, hregistered, hcompleted]
    exact (filter_eq_self.mpr fun target _ => by simp).symm
  · intro other
    rw [hinitialized, hregistered]
    exact iff_of_false not_mem_nil fun hboth => hboth.2 hboth.1
  · exact fun _ => ⟨hstatus, hlate, rfl, hframes, hcallbacks⟩
  · exact fun hyes => absurd (hcalled.symm.trans hyes) Bool.false_ne_true
  · exact fun hyes => absurd (hcalled.symm.trans hyes) Bool.false_ne_true

theorem Holds.register_late (h : Holds s early waiting) (hstatus : s.status = .initializing)
    (hnew : target ∉ s.registered) :
    Holds (registerTarget { s with registered := s.registered ++ [target] } target) early
      waiting := by
  have hcalled : s.called = true := by
    cases hc : s.called with
    | true => rfl
    | false =>
      have hidle := (h.idle hc).1
      rw [hstatus] at hidle
      cases hidle
  have hnotInit : target ∉ s.initialized := fun hmem => hnew ((h.initialized target).mp hmem).1
  have hnotDone : target ∉ s.completed := fun hmem => hnotInit (h.completed hmem)
  have hnotWaiting : target ∉ waiting := fun hmem => hnew (h.subset_early hmem)
  rw [registerTarget, if_pos hstatus]
  refine ⟨⟨h.defined, ?_, ?_, ?_, ?_, ?_, h.completedNodup, ?_, h.ahead, ?_, ?_⟩, h.loops⟩
  · change s.registered ++ [target] = early ++ (s.late ++ [target])
    rw [h.registered, append_assoc]
  · exact List.Nodup.append h.nodup (nodup_singleton target)
      (disjoint_singleton.mpr hnew)
  · change s.targets ++ [target] = (s.registered ++ [target]).filter (· ∉ s.completed)
    rw [filter_append, ← h.targets, filter_cons_of_pos (by simpa using hnotDone)]
    rfl
  · exact List.Nodup.append h.initializedNodup (nodup_singleton target)
      (disjoint_singleton.mpr hnotInit)
  · intro other
    change other ∈ s.initialized ++ [target] ↔ other ∈ s.registered ++ [target] ∧ other ∉ waiting
    rw [mem_append, mem_append, mem_singleton, h.initialized other]
    constructor
    · rintro (⟨hin, hout⟩ | rfl)
      · exact ⟨.inl hin, hout⟩
      · exact ⟨.inr rfl, hnotWaiting⟩
    · rintro ⟨hin | rfl, hout⟩
      · exact .inl ⟨hin, hout⟩
      · exact .inr rfl
  · exact fun done hdone => mem_append_left _ (h.completed hdone)
  · exact fun hno => absurd (hcalled.symm.trans hno) (Ne.symm Bool.false_ne_true)
  · intro _
    left
    rcases h.phase hcalled with ⟨-, -, hcallbacks, hno⟩ | ⟨-, hne, -⟩
    · refine ⟨by simp [initializeTarget], hstatus, hcallbacks, ?_⟩
      intro hmem
      rcases mem_cons.mp hmem with hmem | hmem
      · cases hmem
      · exact hno hmem
    · exact absurd hstatus hne

theorem Holds.complete (h : Holds s early waiting) (hinit : target ∈ s.initialized)
    (hnotDone : target ∉ s.completed) :
    Holds (complete { s with completed := s.completed ++ [target] } target) early waiting := by
  obtain ⟨hregistered, hnotWaiting⟩ := (h.initialized target).mp hinit
  have hmem : target ∈ s.targets := h.mem_targets.mpr ⟨hregistered, hnotDone⟩
  have hcalled : s.called = true := by
    cases hc : s.called with
    | true => rfl
    | false =>
      rw [(h.idle_lists hc).2.2.1] at hinit
      cases hinit
  obtain ⟨-, hstatus, hcallbacks, hno⟩ := (h.phase hcalled).resolve_right fun hend => by
    rw [hend.1] at hmem
    cases hmem
  have htargets : s.targets.filter (· ≠ target) =
      s.registered.filter (· ∉ s.completed ++ [target]) := by
    rw [h.targets, filter_filter]
    apply filter_congr
    intro other _
    rw [← Bool.decide_and, decide_eq_decide, mem_append, mem_singleton]
    tauto
  have hdone : (s.completed ++ [target]).Nodup := List.Nodup.append h.completedNodup
    (nodup_singleton target) (disjoint_singleton.mpr hnotDone)
  have hsubset : s.completed ++ [target] ⊆ s.initialized := by
    intro done hdone
    rcases mem_append.mp hdone with hdone | hdone
    · exact h.completed hdone
    · exact mem_singleton.mp hdone ▸ hinit
  have hidle : s.called = false → False :=
    fun hno => Bool.false_ne_true (hno.symm.trans hcalled)
  rw [InitManager.complete]
  by_cases hnil : s.targets.filter (· ≠ target) = []
  · rw [if_pos hnil]
    exact ⟨⟨h.defined, h.registered, h.nodup, htargets, h.initializedNodup, h.initialized, hdone,
      hsubset, h.ahead, fun hc => (hidle hc).elim,
      fun _ => .inr ⟨hnil, nofun, congrArg (· + 1) hcallbacks⟩⟩, h.loops⟩
  · rw [if_neg hnil]
    exact ⟨⟨h.defined, h.registered, h.nodup, htargets, h.initializedNodup, h.initialized, hdone,
      hsubset, h.ahead, fun hc => (hidle hc).elim,
      fun _ => .inl ⟨hnil, hstatus, hcallbacks, hno⟩⟩, h.loops⟩

theorem Core.turn (h : Core s early (target :: rest)) (hcalled : s.called = true)
    (hiters : iters s.frames = []) (hlate : ∀ after ∈ next s.targets target, after ∉ s.late) :
    Holds (turn s target) early rest := by
  have hmem := h.waiting_mem mem_cons_self
  have hregistered := h.subset_early mem_cons_self
  have hwaiting : (target :: rest).Nodup := by
    have hnodup := h.nodup
    rw [h.registered] at hnodup
    exact (List.nodup_append.mp hnodup).1.sublist h.ahead.sublist
  have hnotInit : target ∉ s.initialized :=
    fun hin => ((h.initialized target).mp hin).2 mem_cons_self
  rw [InitManager.turn, if_pos hmem, h.next_eq hlate]
  refine ⟨⟨h.defined, h.registered, h.nodup, h.targets, ?_, ?_, h.completedNodup, ?_,
    (suffix_cons target rest).trans h.ahead, ?_, ?_⟩, ?_⟩
  · exact List.Nodup.append h.initializedNodup (nodup_singleton target)
      (disjoint_singleton.mpr hnotInit)
  · intro other
    change other ∈ s.initialized ++ [target] ↔ other ∈ s.registered ∧ other ∉ rest
    rw [mem_append, mem_singleton, h.initialized other, mem_cons, not_or]
    constructor
    · rintro (⟨hin, -, hout⟩ | rfl)
      · exact ⟨hin, hout⟩
      · exact ⟨hregistered, (nodup_cons.mp hwaiting).1⟩
    · rintro ⟨hin, hout⟩
      by_cases heq : other = target
      · exact .inr heq
      · exact .inl ⟨hin, heq, hout⟩
  · exact fun done hdone => mem_append_left _ (h.completed hdone)
  · exact fun hno => absurd (hcalled.symm.trans hno) (Ne.symm Bool.false_ne_true)
  · intro _
    rcases h.phase hcalled with ⟨hne, hstatus, hcallbacks, hno⟩ | ⟨hnil, -, -⟩
    · left
      refine ⟨hne, hstatus, hcallbacks, ?_⟩
      intro hin
      rcases mem_cons.mp hin with hin | hin
      · cases hin
      · exact hno hin
    · rw [hnil] at hmem
      cases hmem
  · intro _
    right
    change iters (.loop rest.head? :: s.frames) = [rest.head?]
    rw [iters, filterMap_cons, ← iters, hiters]

theorem Holds.initializeManager (h : Holds s early waiting) (hcalled : s.called = false) :
    ∃ waiting', Holds (initializeManager { s with called := true }) early waiting' := by
  obtain ⟨hstatus, hlate, rfl, hframes, hcallbacks⟩ := h.idle hcalled
  obtain ⟨-, htargets, -, -⟩ := h.idle_lists hcalled
  cases waiting with
  | nil =>
    have heq : initializeManager { s with called := true } =
        { s with called := true, frames := .emptyCallback :: s.frames,
                 callbacks := s.callbacks + 1 } := by
      rw [InitManager.initializeManager]
      split
      · rfl
      · rename_i htail
        rw [htargets] at htail
        cases htail
    rw [heq]
    refine ⟨[], { h with idle := nofun, phase := fun _ => .inr ⟨htargets, ?_, ?_⟩ },
      fun _ => .inl ⟨?_, rfl⟩⟩
    · change s.status ≠ .initializing
      rw [hstatus]
      exact nofun
    · exact congrArg (· + 1) hcallbacks
    · change iters (.emptyCallback :: s.frames) = []
      rw [hframes]
      rfl
  | cons target rest =>
    have heq : initializeManager { s with called := true } =
        InitManager.turn { s with called := true, status := .initializing } target := by
      rw [InitManager.initializeManager]
      split
      · rename_i hnil
        rw [htargets] at hnil
        cases hnil
      · rename_i htail
        rw [htargets] at htail
        rw [(List.cons.inj htail).1]
    have hcall : Core { s with called := true, status := .initializing } (target :: rest)
        (target :: rest) := by
      refine { h with idle := nofun, phase := fun _ => .inl ⟨?_, rfl, hcallbacks, ?_⟩ }
      · change s.targets ≠ []
        rw [htargets]
        exact cons_ne_nil _ _
      · change _ ∉ s.frames
        rw [hframes]
        exact not_mem_nil
    rw [heq]
    refine ⟨rest, hcall.turn rfl ?_ ?_⟩
    · change iters s.frames = []
      rw [hframes]
      rfl
    · intro after _
      rw [hlate]
      exact not_mem_nil

variable {frame : Frame Target} {frames : List (Frame Target)}

theorem Core.pop (h : Core s early waiting)
    (hframes : s.frames = frame :: frames) : Core { s with frames } early waiting where
  defined := h.defined
  registered := h.registered
  nodup := h.nodup
  targets := h.targets
  initializedNodup := h.initializedNodup
  initialized := h.initialized
  completedNodup := h.completedNodup
  completed := h.completed
  ahead := h.ahead
  idle := by
    intro hcalled
    have hnil := (h.idle hcalled).2.2.2.1
    rw [hframes] at hnil
    cases hnil
  phase := by
    intro hcalled
    rcases h.phase hcalled with ⟨hne, hstatus, hcallbacks, hno⟩ | hend
    · refine .inl ⟨hne, hstatus, hcallbacks, fun hmem => hno ?_⟩
      rw [hframes]
      exact mem_cons_of_mem _ hmem
    · exact .inr hend

theorem Core.called_of_frame (h : Core s early waiting) (hframes : s.frames = frame :: frames) :
    s.called = true := by
  cases hc : s.called with
  | true => rfl
  | false =>
    have hnil := (h.idle hc).2.2.2.1
    rw [hframes] at hnil
    cases hnil

theorem Holds.pop (h : Holds s early waiting) (hframes : s.frames = frame :: frames)
    (hiters : iters (frame :: frames) = iters frames) : Holds { s with frames } early waiting where
  toCore := h.toCore.pop hframes
  loops := by
    intro hcalled
    have hloops := h.loops hcalled
    rw [hframes, hiters] at hloops
    exact hloops

theorem Holds.ret (h : Holds s early waiting) (hmeet : Orderly s .ret)
    (hstep : ret s s.frames = some s') : ∃ waiting', Holds s' early waiting' := by
  cases hframes : s.frames with
  | nil =>
    rw [hframes] at hstep
    cases hstep
  | cons frame frames =>
    have hcalled := h.toCore.called_of_frame hframes
    have hloops := h.loops hcalled
    rw [hframes] at hstep hloops
    cases frame with
    | loop iter =>
      have hcons : iters (.loop iter :: frames) = iter :: iters frames := rfl
      rw [hcons] at hloops
      obtain ⟨hiter, hrest⟩ := List.cons.inj (hloops.resolve_left fun hno => cons_ne_nil _ _ hno.1)
      cases iter with
      | none =>
        cases hstep
        obtain rfl := head?_eq_none_iff.mp hiter.symm
        exact ⟨[], h.toCore.pop hframes, fun _ => .inl ⟨hrest, rfl⟩⟩
      | some target =>
        cases hstep
        obtain ⟨rest, rfl⟩ := head?_eq_some_iff.mp hiter.symm
        have hlate : ∀ after ∈ next s.targets target, after ∉ s.late := by
          have := hmeet
          rw [Orderly, hframes] at this
          exact this
        exact ⟨rest, (h.toCore.pop hframes).turn hcalled hrest hlate⟩
    | register | callback =>
      cases hstep
      exact ⟨waiting, h.pop hframes rfl⟩
    | emptyCallback =>
      cases hstep
      have hpop := h.pop hframes rfl
      have hend : s.targets = [] ∧ s.status ≠ .initializing ∧ s.callbacks = 1 := by
        apply (h.phase hcalled).resolve_left
        rintro ⟨-, -, -, hno⟩
        rw [hframes] at hno
        exact hno mem_cons_self
      refine ⟨waiting, { hpop with
          idle := ?_, phase := fun _ => .inr ⟨hend.1, nofun, hend.2.2⟩ }, hpop.loops⟩
      exact fun hno => absurd (hcalled.symm.trans hno) (Ne.symm Bool.false_ne_true)

theorem Holds.step {e : Event Target} (h : Holds s early waiting) (hmeet : Orderly s e)
    (hstep : step s e = some s') : ∃ early' waiting', Holds s' early' waiting' := by
  cases e with
  | initializeManager =>
    obtain ⟨hno, hs⟩ := Option.ite_none_left_eq_some.mp hstep
    cases hs
    have hcalled : s.called = false := Bool.eq_false_iff.mpr fun hyes => hno (.inr hyes)
    exact ⟨early, h.initializeManager hcalled⟩
  | register target =>
    obtain ⟨hno, hs⟩ := Option.ite_none_left_eq_some.mp hstep
    cases hs
    have hnew : target ∉ s.registered := fun hmem => hno (.inr hmem)
    rcases hmeet with hcalled | hstatus
    · exact ⟨_, _, h.register_idle hcalled hnew⟩
    · exact ⟨_, _, h.register_late hstatus hnew⟩
  | complete target =>
    obtain ⟨hcount, rfl⟩ := Option.ite_some_none_eq_some.mp hstep
    have hinit : target ∈ s.initialized := count_pos_iff.mp (by omega)
    have hone := nodup_iff_count_le_one.mp h.initializedNodup target
    have hnotDone : target ∉ s.completed := fun hmem => by
      have hpos := count_pos_iff.mpr hmem
      omega
    exact ⟨_, _, h.complete hinit hnotDone⟩
  | ret =>
    rw [InitManager.step, if_neg (by rw [h.defined]; exact Bool.false_ne_true)] at hstep
    exact ⟨early, h.ret hmeet hstep⟩

end Invariant

/-- In every run whose steps are orderly. -/
theorem run_targets_correct {events : List (Event Target)} {s : State Target}
    (hmeet : AllMeet step Orderly start events) (hrun : run step start events = some s) :
    Correct s := by
  have hstep : ∀ (s : State Target) (e : Event Target) (s' : State Target),
      (∃ early waiting, Holds s early waiting) → Orderly s e → step s e = some s' →
      ∃ early waiting, Holds s' early waiting := by
    rintro s e s' ⟨early, waiting, h⟩ hmeet hstep
    exact h.step hmeet hstep
  obtain ⟨early, waiting, h⟩ := run_invariant hstep hmeet ⟨[], [], holds_start⟩ hrun
  exact h.correct

/-- The last target registers another one in its `initialize`, and both complete later. -/
def lastRegisters : List (Event Nat) :=
  [.register 1, .register 2, .initializeManager, .complete 1, .ret, .register 3, .ret, .ret,
    .complete 3, .complete 2, .ret]

theorem lastRegisters_correct : ∃ s, run step (start : State Nat) lastRegisters = some s ∧
      AllMeet step Orderly start lastRegisters ∧ s.initialized = [1, 2, 3] ∧ s.callbacks = 1 ∧
      Correct s := by
  have hmeet : AllMeet step Orderly (start : State Nat) lastRegisters := by decide
  exact ⟨_, rfl, hmeet, rfl, rfl, run_targets_correct hmeet rfl⟩

/-- The first of two targets registers another one in its `initialize`. The loop comes to that one
as well. -/
def firstRegisters : List (Event Nat) :=
  [.register 1, .register 2, .initializeManager, .register 3, .ret, .ret, .ret]

theorem firstRegisters_twice :
    ∃ s, run step (start : State Nat) firstRegisters = some s ∧ s.initialized = [1, 3, 2, 3] ∧
      ¬ Correct s := by
  refine ⟨_, rfl, rfl, fun h => ?_⟩
  exact absurd (h.atMostOnce 3) (by decide)

end Meliproxy.Envoy.Server.InitManager
