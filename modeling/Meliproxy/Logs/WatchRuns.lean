import Meliproxy.Logs.WatchRecords

/-!
# The hours in the stats collection

A run of `aggregateLogs` is collecting while files are read or the write timeout is armed,
and then writing. `Phase` is the invariant of the runs in which the write timeout fires
only after the last file, the last file leaves a write timeout behind, and `remove` does
not fail; with it, `stats_hours` says what the collection holds when nothing is outstanding.
-/

namespace Meliproxy.Logs

open Lib List Hashes

def DistinctHours (stats : List Document) : Prop := (stats.map fun d => d.record.slot).Nodup

instance (stats : List Document) : Decidable (DistinctHours stats) :=
  inferInstanceAs (Decidable (List.Nodup _))

theorem documents_slots {objects : List Record} {refs : List Nat}
    (hrefs : ∀ i ∈ refs, i < objects.length) :
    (Watch.documents objects refs).map (fun d => some d.record.slot) =
      refs.map fun i => (objects.map Record.slot)[i]? := by
  induction refs with
  | nil => rfl
  | cons i refs ih =>
    have hi := hrefs i mem_cons_self
    have hrest := ih fun j hj => hrefs j (mem_cons_of_mem i hj)
    unfold Watch.documents at hrest ⊢
    rw [filterMap_cons, getElem?_eq_getElem hi]
    simp only [Option.map_some, map_cons, hrest, getElem?_map, getElem?_eq_getElem hi]

theorem distinctHours_documents {h : Hashes} {refs : List Nat} (hd : Distinct h.slots refs) :
    DistinctHours (Watch.documents h.objects refs) := by
  have hlength : h.slots.length = h.objects.length := by simp [slots]
  have hrefs : ∀ i ∈ refs, i < h.objects.length := fun i hi => hlength ▸ hd.1 i hi
  have hnodup : ((Watch.documents h.objects refs).map fun d => some d.record.slot).Nodup := by
    rw [documents_slots hrefs]
    exact hd.2
  refine List.Nodup.of_map some ?_
  rw [map_map]
  exact hnodup

namespace Watch

variable {moment : JsString → Option Int} {s s' : Watch}

variable (s)

/-- The calls of `walk` that have not answered. -/
def outstanding : Nat := s.readdirCalls + s.statCalls + s.readFileCalls

/-- Nothing of a run is outstanding. -/
structure Quiescent : Prop where
  alive : s.exited = false
  calls : s.outstanding = 0
  timers : s.timers = []
  writes : s.writes = []

instance : Decidable s.Quiescent :=
  decidable_of_iff (s.exited = false ∧ s.outstanding = 0 ∧ s.timers = [] ∧ s.writes = [])
    ⟨fun ⟨h₁, h₂, h₃, h₄⟩ => ⟨h₁, h₂, h₃, h₄⟩, fun h => ⟨h.1, h.2, h.3, h.4⟩⟩

def Armed : Prop := ∃ t ∈ s.timers, t.2 = Timer.write

/-- The write timeout fires only after the last file, the last file leaves it armed, and
`remove` does not fail. -/
def InOrder : Event → Prop
  | .timer id _ => (id, Timer.write) ∈ s.timers → s.outstanding = 0
  | .readdir (some 0) => s.outstanding = 1 → s.Armed
  | .stat (some .other) => s.outstanding = 1 → s.Armed
  | .readFile (some data) =>
    s.outstanding = 1 → s.Armed ∨ ∃ line ∈ (Utf8.decode data).splitOn '\n', line ≠ []
  | .serverRemove _ err => err = false
  | _ => True

instance : Decidable s.Armed := inferInstanceAs (Decidable (∃ t ∈ s.timers, _))

instance (event : Event) : Decidable (s.InOrder event) := by
  unfold InOrder
  split <;> infer_instance

structure Idle : Prop where
  running : s.running = false
  calls : s.outstanding = 0
  timers : s.timers = [] ∨ ∃ id, s.timers = [(id, .rerun)] ∧ s.timeout = some id
  writes : s.writes = []
  stats : DistinctHours s.stats

/-- The only timer is the one that `writeTimeout` names. -/
def OnlyWrite : Prop := ∃ id, s.timers = [(id, .write)] ∧ s.writeTimeout = some id

structure Collecting : Prop where
  running : s.running = true
  timers : s.timers = [] ∨ s.OnlyWrite
  pending : s.timers = [] → 0 < s.outstanding
  writes : s.writes = []

/-- What a write needs to leave different hours behind. -/
def WriteReady (w : Write) : Prop :=
  match w.stage with
  | .connecting => Distinct s.hashes.slots w.finalData
  | .removing => Distinct s.hashes.slots w.finalData
  | .removed => Distinct s.hashes.slots w.finalData ∧ s.stats = []
  | .inserting rest => DistinctHours (s.stats ++ rest)
  | .rejected => True

structure Writing : Prop where
  running : s.running = true
  calls : s.outstanding = 0
  timers : s.timers = []
  write : ∃ w, s.writes = [w] ∧ s.WriteReady w

variable {s}

inductive Phase (s : Watch) : Prop where
  | idle (hk : s.hashes.Keyed) (h : s.Idle)
  | collecting (hk : s.hashes.Keyed) (h : s.Collecting)
  | writing (hk : s.hashes.Keyed) (h : s.Writing)

def Consistent (s : Watch) : Prop := s.exited = true ∨ s.Phase

theorem aggregateLogs_of_running (h : s.running = true) (now : Int) :
    s.aggregateLogs now = { s with reRunFlag := true } := by
  simp [aggregateLogs, h]

theorem phase_reRunFlag (h : s.Phase) (flag : Bool) :
    ({ s with reRunFlag := flag } : Watch).Phase := by
  cases h with
  | idle hk h => exact .idle hk { h with }
  | collecting hk h => exact .collecting hk { h with }
  | writing hk h => exact .writing hk { h with }

theorem clearRerun_fields (s : Watch) :
    s.clearRerun.running = s.running ∧ s.clearRerun.writes = s.writes ∧
      s.clearRerun.outstanding = s.outstanding := by
  unfold clearRerun
  cases s.timeout <;> exact ⟨rfl, rfl, rfl⟩

theorem timers_clearRerun
    (h : s.timers = [] ∨ ∃ id, s.timers = [(id, Timer.rerun)] ∧ s.timeout = some id) :
    s.clearRerun.timers = [] := by
  unfold clearRerun clearTimeout
  rcases h with htimers | ⟨id, htimers, htimeout⟩
  · cases s.timeout <;> simp [htimers]
  · simp [htimers, htimeout]

theorem phase_aggregateLogs_idle (h : s.Idle) (now : Int) : (s.aggregateLogs now).Phase := by
  obtain ⟨hrunning, hwrites, -⟩ := clearRerun_fields { s with running := true }
  have htimers := timers_clearRerun (s := { s with running := true }) h.timers
  simp only [aggregateLogs, h.running, Bool.false_eq_true, if_false]
  refine .collecting (keyed_fillHourGaps (keyed_reset _) now) ⟨hrunning, .inl htimers, ?_, ?_⟩
  · intro _
    simp only [outstanding]
    omega
  · exact hwrites.trans h.writes

theorem phase_aggregateLogs (h : s.Phase) (now : Int) : (s.aggregateLogs now).Phase := by
  cases h with
  | idle hk h => exact phase_aggregateLogs_idle h now
  | collecting hk h =>
    rw [aggregateLogs_of_running h.running]
    exact phase_reRunFlag (.collecting hk h) true
  | writing hk h =>
    rw [aggregateLogs_of_running h.running]
    exact phase_reRunFlag (.writing hk h) true

theorem phase_fillHourGaps (h : s.Phase) (now : Int) :
    ({ s with hashes := s.hashes.fillHourGaps now } : Watch).Phase := by
  cases h with
  | idle hk h =>
    exact .idle (keyed_fillHourGaps hk now) { h with }
  | collecting hk h =>
    exact .collecting (keyed_fillHourGaps hk now) { h with }
  | writing hk h =>
    obtain ⟨w, hw, hready⟩ := h.write
    refine .writing (keyed_fillHourGaps hk now) ⟨h.running, h.calls, h.timers, w, hw, ?_⟩
    obtain ⟨more, hmore⟩ := slots_fillHourGaps s.hashes now
    unfold WriteReady at hready ⊢
    simp only [hmore]
    cases hstage : w.stage with
    | connecting | removing =>
      simp only [hstage] at hready ⊢
      exact distinct_append hready more
    | removed =>
      simp only [hstage] at hready ⊢
      exact ⟨distinct_append hready.1 more, hready.2⟩
    | inserting rest =>
      simp only [hstage] at hready ⊢
      exact hready
    | rejected => trivial

theorem collecting_of_outstanding (h : s.Phase) (hcalls : 0 < s.outstanding) :
    s.hashes.Keyed ∧ s.Collecting := by
  cases h with
  | idle hk h => exact absurd h.calls (by omega)
  | collecting hk h => exact ⟨hk, h⟩
  | writing hk h => exact absurd h.calls (by omega)

theorem timers_ne_nil (h : s.Armed) : s.timers ≠ [] := by
  obtain ⟨t, ht, -⟩ := h
  exact ne_nil_of_mem ht

theorem consistent_stepReaddir (h : s.Phase) {files : Option Nat}
    (horder : s.InOrder (.readdir files)) (hstep : s.stepReaddir files = some s') : s'.Consistent := by
  unfold stepReaddir at hstep
  split at hstep
  · cases hstep
  · rename_i hcalls
    cases files with
    | none =>
      cases hstep
      exact .inl rfl
    | some n =>
      cases hstep
      obtain ⟨hk, hc⟩ := collecting_of_outstanding h (by unfold outstanding; omega)
      refine .inr (.collecting hk { hc with pending := ?_ })
      intro htimers
      have hpending := hc.pending htimers
      simp only [outstanding] at hpending ⊢
      cases n with
      | zero =>
        have hlast : s.outstanding ≠ 1 := fun hlast => timers_ne_nil (horder hlast) htimers
        simp only [outstanding] at hlast
        omega
      | succ n => omega

theorem consistent_stepStat (h : s.Phase) {kind : Option FileKind}
    (horder : s.InOrder (.stat kind)) (hstep : s.stepStat kind = some s') : s'.Consistent := by
  unfold stepStat at hstep
  split at hstep
  · cases hstep
  · rename_i hcalls
    obtain ⟨hk, hc⟩ := collecting_of_outstanding h (by unfold outstanding; omega)
    rcases kind with _ | kind
    · cases hstep
      exact .inl rfl
    · cases kind with
      | directory | file =>
        cases hstep
        refine .inr (.collecting hk { hc with pending := ?_ })
        intro _
        simp only [outstanding]
        omega
      | other =>
        cases hstep
        refine .inr (.collecting hk { hc with pending := ?_ })
        intro htimers
        have hlast : s.outstanding ≠ 1 := fun hlast => timers_ne_nil (horder hlast) htimers
        have hpending := hc.pending htimers
        simp only [outstanding] at hlast hpending ⊢
        omega

theorem onlyWrite_resetWriteTimeout (h : s.timers = [] ∨ s.OnlyWrite) :
    s.resetWriteTimeout.OnlyWrite := by
  refine ⟨s.nextTimer, ?_⟩
  unfold resetWriteTimeout setTimeout clearTimeout
  rcases h with htimers | ⟨id, htimers, htimeout⟩
  · cases s.writeTimeout <;> simp [htimers]
  · simp [htimers, htimeout]

theorem resetWriteTimeout_fields (s : Watch) :
    s.resetWriteTimeout.hashes = s.hashes ∧ s.resetWriteTimeout.running = s.running ∧
      s.resetWriteTimeout.writes = s.writes ∧ s.resetWriteTimeout.outstanding = s.outstanding := by
  unfold resetWriteTimeout
  cases s.writeTimeout <;> exact ⟨rfl, rfl, rfl, rfl⟩

/-- What the lines of a file leave as they find it. -/
structure SameRun (s s' : Watch) : Prop where
  running : s'.running = s.running
  writes : s'.writes = s.writes
  outstanding : s'.outstanding = s.outstanding

theorem keyed_handleLine {line : JsString} (hk : s.hashes.Keyed)
    (hline : s.handleLine moment line = .ok s') : s'.hashes.Keyed := by
  unfold handleLine at hline
  split at hline
  · cases hline
    exact hk
  · obtain ⟨parsed, hparsed, hline⟩ := ok_of_bind hline
    obtain ⟨hashes, hhashes, hline⟩ := ok_of_bind hline
    cases hline
    rw [(resetWriteTimeout_fields { s with hashes }).1]
    exact keyed_addLine hk hhashes

theorem view_handleLine (hk : s.hashes.Keyed) (line : JsString) :
    (s.handleLine moment line).map (·.hashes.view) = s.hashes.view.handleLine moment line := by
  unfold handleLine ByHour.handleLine
  split
  · rfl
  · cases parseLine moment line with
    | error e => rfl
    | ok parsed =>
      change (s.hashes.addLine parsed >>= _).map _ = s.hashes.view.addLine parsed
      rw [← view_addLine hk parsed]
      cases s.hashes.addLine parsed with
      | error e => rfl
      | ok hashes =>
        exact congrArg (fun h : Hashes => Except.ok h.view)
          (resetWriteTimeout_fields { s with hashes }).1

/-- The lines of a file change the objects as they change the records of `ByHour`. -/
theorem keyed_handleLines {lines : List JsString} (hk : s.hashes.Keyed)
    (hlines : lines.foldlM (handleLine moment) s = .ok s') :
    s'.hashes.Keyed ∧ lines.foldlM (ByHour.handleLine moment) s.hashes.view = .ok s'.hashes.view :=
    by
  induction lines generalizing s with
  | nil =>
    cases hlines
    exact ⟨hk, rfl⟩
  | cons line lines ih =>
    rw [foldlM_cons] at hlines
    obtain ⟨s₁, h₁, hrest⟩ := ok_of_bind hlines
    rw [foldlM_cons, ← view_handleLine hk, h₁]
    exact ih (keyed_handleLine hk h₁) hrest

theorem handleLine_ok {line : JsString} (htimers : s.timers = [] ∨ s.OnlyWrite)
    (hline : s.handleLine moment line = .ok s') :
    SameRun s s' ∧ (line = [] ∧ s' = s ∨ s'.OnlyWrite) := by
  unfold handleLine at hline
  split at hline
  · rename_i hempty
    cases hline
    exact ⟨⟨rfl, rfl, rfl⟩, .inl ⟨hempty, rfl⟩⟩
  · obtain ⟨parsed, hparsed, hline⟩ := ok_of_bind hline
    obtain ⟨hashes, hhashes, hline⟩ := ok_of_bind hline
    cases hline
    obtain ⟨-, hrunning, hwrites, hcalls⟩ := resetWriteTimeout_fields { s with hashes }
    exact ⟨⟨hrunning, hwrites, hcalls⟩, .inr (onlyWrite_resetWriteTimeout htimers)⟩

theorem handleLines_ok {lines : List JsString} (htimers : s.timers = [] ∨ s.OnlyWrite)
    (hlines : lines.foldlM (handleLine moment) s = .ok s') :
    SameRun s s' ∧ ((∀ line ∈ lines, line = []) ∧ s' = s ∨ s'.OnlyWrite) := by
  induction lines generalizing s with
  | nil =>
    cases hlines
    exact ⟨⟨rfl, rfl, rfl⟩, .inl ⟨by simp, rfl⟩⟩
  | cons line lines ih =>
    rw [foldlM_cons] at hlines
    obtain ⟨s₁, h₁, hrest⟩ := ok_of_bind hlines
    obtain ⟨hsame₁, htimers₁⟩ := handleLine_ok htimers h₁
    rcases htimers₁ with ⟨hempty, rfl⟩ | hwrite
    · obtain ⟨hsame, hend⟩ := ih htimers hrest
      exact ⟨hsame, hend.imp_left fun hall => ⟨forall_mem_cons.mpr ⟨hempty, hall.1⟩, hall.2⟩⟩
    · obtain ⟨hsame, hend⟩ := ih (.inr hwrite) hrest
      refine ⟨⟨hsame.running.trans hsame₁.running, hsame.writes.trans hsame₁.writes,
        hsame.outstanding.trans hsame₁.outstanding⟩, .inr ?_⟩
      rcases hend with ⟨-, rfl⟩ | hend
      · exact hwrite
      · exact hend

theorem onlyWrite_ne_nil (h : s.OnlyWrite) : s.timers ≠ [] := by
  obtain ⟨id, htimers, -⟩ := h
  simp [htimers]

theorem consistent_stepReadFile (h : s.Phase) {data : Option Bytes}
    (horder : s.InOrder (.readFile data)) (hstep : s.stepReadFile moment data = some s') :
    s'.Consistent := by
  unfold stepReadFile at hstep
  split at hstep
  · cases hstep
  · rename_i hcalls
    obtain ⟨hk, hc⟩ := collecting_of_outstanding h (by unfold outstanding; omega)
    cases data with
    | none =>
      cases hstep
      exact .inl rfl
    | some data =>
      cases hstep
      unfold handleFile
      split
      · rename_i s₁ hlines
        obtain ⟨hsame, hend⟩ :=
          handleLines_ok (s := { s with readFileCalls := s.readFileCalls - 1 }) hc.timers hlines
        refine .inr (.collecting (keyed_handleLines (by exact hk) hlines).1
        ⟨hsame.running.trans hc.running, ?_, ?_, hsame.writes.trans hc.writes⟩)
        · rcases hend with ⟨-, rfl⟩ | hend
          · exact hc.timers
          · exact .inr hend
        · intro htimers
          rcases hend with ⟨hall, rfl⟩ | hend
          · have hlast : s.outstanding ≠ 1 := by
              intro hlast
              rcases horder hlast with harmed | ⟨line, hline, hne⟩
              · exact timers_ne_nil harmed htimers
              · exact hne (hall line hline)
            have hpending := hc.pending htimers
            simp only [outstanding] at hlast hpending ⊢
            omega
          · exact absurd htimers (onlyWrite_ne_nil hend)
      · exact .inl rfl

theorem lookup_singleton {id id' : Nat} {timer timer' : Timer}
    (h : [(id', timer')].lookup id = some timer) : id' = id ∧ timer' = timer := by
  obtain ⟨l, l', heq, -⟩ := lookup_eq_some_iff.mp h
  have hmem : (id, timer) ∈ [(id', timer')] := by simp [heq]
  simpa [eq_comm] using hmem

theorem timers_clearTimeout {id : Nat} {timer : Timer} (h : s.timers = [(id, timer)]) :
    (s.clearTimeout id).timers = [] := by
  simp [clearTimeout, h]

theorem consistent_stepTimer (h : s.Phase) {id : Nat} {now : Int}
    (horder : s.InOrder (.timer id now)) (hstep : s.stepTimer id now = some s') :
    s'.Consistent := by
  obtain ⟨timer, htimer, rfl⟩ := Option.map_eq_some_iff.mp hstep
  cases h with
  | idle hk h =>
    rcases h.timers with htimers | ⟨id', htimers, -⟩
    · simp [htimers] at htimer
    · rw [htimers] at htimer
      obtain ⟨rfl, rfl⟩ := lookup_singleton htimer
      refine .inr (phase_aggregateLogs_idle ?_ now)
      exact { h with timers := .inl (timers_clearTimeout htimers) }
  | collecting hk h =>
    rcases h.timers with htimers | ⟨id', htimers, -⟩
    · simp [htimers] at htimer
    · rw [htimers] at htimer
      obtain ⟨rfl, rfl⟩ := lookup_singleton htimer
      have hcalls := horder (by simp [htimers])
      refine .inr (.writing hk ⟨h.running, hcalls, timers_clearTimeout htimers,
        ⟨s.hashes.finalData, .connecting⟩, ?_, finalData_distinct hk⟩)
      simp [fire, clearTimeout, h.writes]
  | writing hk h => simp [h.timers] at htimer

variable {event : Event}

theorem stepWrite_cases {i : Nat} (hstep : s.stepWrite i event = some s') :
    ∃ w, s.writes[i]? = some w ∧ (s'.exited = true ∨
      (w.stage = .connecting ∧ s' = s.setStage i .removing) ∨
      (w.stage = .removing ∧ ∃ j err, event = .serverRemove j err ∧
        s' = { s.setStage i .removed with stats := if err then s.stats else [] }) ∨
      (w.stage = .removed ∧
        s' = s.setStage i (.inserting (documents s.hashes.objects w.finalData))) ∨
      (∃ d rest, w.stage = .inserting (d :: rest) ∧ s' = s.insertNext i d rest) ∨
      (w.stage = .inserting [] ∧ s' = s.finish i)) := by
  cases hw : s.writes[i]? with
  | none => simp [stepWrite, stageOf, hw] at hstep
  | some w =>
    refine ⟨w, rfl, ?_⟩
    simp only [stepWrite, stageOf, hw, Option.map_some] at hstep
    split at hstep
    · rename_i j err hstage
      cases hstep
      cases err with
      | true => exact .inl rfl
      | false => exact .inr (.inl ⟨Option.some.inj hstage, rfl⟩)
    · rename_i j err hstage
      cases hstep
      exact .inr (.inr (.inl ⟨Option.some.inj hstage, j, err, rfl, rfl⟩))
    · rename_i j hstage
      cases hstep
      exact .inr (.inr (.inr (.inl ⟨Option.some.inj hstage, rfl⟩)))
    · rename_i j d rest hstage
      cases hstep
      exact .inr (.inr (.inr (.inr (.inl ⟨d, rest, Option.some.inj hstage, rfl⟩))))
    · rename_i j hstage
      cases hstep
      exact .inr (.inr (.inr (.inr (.inr ⟨Option.some.inj hstage, rfl⟩))))
    · cases hstep
      exact .inl rfl
    · cases hstep
      exact .inl rfl
    · cases hstep

theorem writes_setStage {w : Write} (h : s.writes = [w]) (stage : Stage) :
    (s.setStage 0 stage).writes = [{ w with stage }] := by
  simp [setStage, h]

theorem Writing.setStage {w : Write} (hw : s.Writing) (h : s.writes = [w]) {stage : Stage}
    {stats : List Document} (hready : ({ s with stats } : Watch).WriteReady { w with stage }) :
    ({ s.setStage 0 stage with stats } : Watch).Writing :=
  ⟨hw.running, hw.calls, hw.timers, _, writes_setStage h stage, hready⟩

theorem idle_finish {w : Write} (hw : s.Writing) (h : s.writes = [w])
    (hstats : DistinctHours s.stats) : (s.finish 0).Idle := by
  have hwrites : s.writes.eraseIdx 0 = [] := by rw [h]; rfl
  simp only [finish]
  split
  · refine ⟨rfl, hw.calls, .inr ⟨s.nextTimer, ?_, rfl⟩, hwrites, hstats⟩
    simp [setTimeout, hw.timers]
  · exact ⟨rfl, hw.calls, .inl hw.timers, hwrites, hstats⟩

theorem hashes_finish (s : Watch) (i : Nat) : (s.finish i).hashes = s.hashes := by
  unfold finish
  simp only
  split <;> rfl

theorem consistent_stepWrite (h : s.Phase) {i : Nat} (horder : s.InOrder event)
    (hstep : s.stepWrite i event = some s') : s'.Consistent := by
  have hwriting : s.hashes.Keyed ∧ s.Writing := by
    cases h with
    | idle hk h => simp [stepWrite, stageOf, h.writes] at hstep
    | collecting hk h => simp [stepWrite, stageOf, h.writes] at hstep
    | writing hk h => exact ⟨hk, h⟩
  obtain ⟨hk, hw⟩ := hwriting
  obtain ⟨w, hwrites, hready⟩ := hw.write
  obtain ⟨w', hw', hcases⟩ := stepWrite_cases hstep
  obtain ⟨rfl, rfl⟩ : i = 0 ∧ w = w' := by
    rw [hwrites] at hw'
    cases i with
    | zero => exact ⟨rfl, by simpa using hw'⟩
    | succ i => simp at hw'
  unfold WriteReady at hready
  rcases hcases with hexited | ⟨hstage, rfl⟩ | ⟨hstage, j, err, rfl, rfl⟩ | ⟨hstage, rfl⟩ |
    ⟨d, rest, hstage, rfl⟩ | ⟨hstage, rfl⟩
  · exact .inl hexited
  · simp only [hstage] at hready
    exact .inr (.writing hk (hw.setStage hwrites hready))
  · simp only [hstage] at hready
    obtain rfl : err = false := horder
    exact .inr (.writing hk (hw.setStage hwrites ⟨hready, rfl⟩))
  · simp only [hstage] at hready
    refine .inr (.writing hk (hw.setStage hwrites ?_))
    change DistinctHours (s.stats ++ _)
    rw [hready.2]
    exact distinctHours_documents hready.1
  · simp only [hstage] at hready
    unfold insertNext
    split
    · exact .inr (.writing hk (hw.setStage hwrites trivial))
    · refine .inr (.writing hk (hw.setStage hwrites ?_))
      change DistinctHours ((s.stats ++ [d]) ++ rest)
      rw [append_assoc]
      exact hready
  · simp only [hstage, append_nil] at hready
    refine .inr (.idle ?_ (idle_finish hw hwrites hready))
    rw [hashes_finish]
    exact hk

theorem consistent_step (h : s.Consistent) (horder : s.InOrder event)
    (hstep : s.step moment event = some s') : s'.Consistent := by
  unfold step at hstep
  split at hstep
  · cases hstep
  · rename_i halive
    have hphase := h.resolve_left halive
    cases event with
    | fsEvent now =>
      cases hstep
      exact .inr (phase_aggregateLogs hphase now)
    | interval now =>
      cases hstep
      exact .inr (phase_fillHourGaps hphase now)
    | readdir files => exact consistent_stepReaddir hphase horder hstep
    | stat kind => exact consistent_stepStat hphase horder hstep
    | readFile data => exact consistent_stepReadFile hphase horder hstep
    | timer id now => exact consistent_stepTimer hphase horder hstep
    | connected | serverRemove | removed | serverInsert | inserted =>
      exact consistent_stepWrite hphase horder hstep

theorem consistent_start (now : Int) (stats : List Document) : (start now stats).Consistent := by
  refine .inr (.collecting (keyed_fillHourGaps (keyed_reset _) now) ⟨rfl, .inl rfl, ?_, rfl⟩)
  intro _
  exact Nat.one_pos

/-- The next file-system event starts a new aggregation. -/
def StartsAggregation (s : Watch) : Prop :=
  s.running = false ∧ ∀ now, (s.aggregateLogs now).readdirCalls = s.readdirCalls + 1

theorem startsAggregation_of_idle (h : s.Idle) : s.StartsAggregation := by
  refine ⟨h.running, ?_⟩
  intro now
  simp only [aggregateLogs, h.running, Bool.false_eq_true, if_false]
  unfold clearRerun
  cases s.timeout <;> rfl

/-- Once nothing is outstanding, the collection has at most one document for each hour and
the process is ready for the next event. -/
theorem stats_hours {now : Int} {stats : List Document} {events : List Event}
    (horder : AllMeet (step moment) InOrder (start now stats) events)
    (hrun : run (step moment) (start now stats) events = some s) (hq : s.Quiescent) :
    DistinctHours s.stats ∧ s.StartsAggregation := by
  have hend : s.Consistent :=
    run_invariant (fun _ _ _ h ho hs => consistent_step h ho hs) horder (consistent_start now stats) hrun
  rcases hend with hexited | hphase
  · exact absurd hexited (by simp [hq.alive])
  · cases hphase with
    | idle hk h => exact ⟨h.stats, startsAggregation_of_idle h⟩
    | collecting hk h =>
      rcases h.timers with htimers | htimers
      · exact absurd hq.calls (Nat.pos_iff_ne_zero.mp (h.pending htimers))
      · exact absurd hq.timers (onlyWrite_ne_nil htimers)
    | writing hk h =>
      obtain ⟨w, hw, -⟩ := h.write
      cases hq.writes.symm.trans hw

def sampleFile (times : String) : Bytes :=
  ascii "[2017-11-01T00:10:00.250Z] \"GET / HTTP/1.1\" 200 - 0 12 " ++ ascii times ++
    ascii " \"-\" \"curl\"\n"

def sampleMoment (text : JsString) : Option Int :=
  if text = Utf8.decode (ascii "2017-11-01T00:10:00.250Z") then some 600250 else none

def sampleRun : List Event :=
  [.readdir (some 1), .stat (some .file), .readFile (some (sampleFile "10 7")), .timer 0 1,
    .connected 0 false, .serverRemove 0 false, .removed 0, .serverInsert 0, .inserted 0 false]

theorem stats_hours_one_file :
    ∃ s, run (step sampleMoment) (start 1 []) sampleRun = some s ∧ s.Quiescent ∧
      DistinctHours s.stats ∧ s.StartsAggregation := by
  have horder : AllMeet (step sampleMoment) InOrder (start 1 []) sampleRun := by decide +kernel
  have hend : ∃ s ∈ run (step sampleMoment) (start 1 []) sampleRun, s.Quiescent := by decide +kernel
  obtain ⟨s, hrun, hq⟩ := hend
  exact ⟨s, hrun, hq, stats_hours horder hrun hq⟩

/-- The first write starts between two files. The second file then starts another write,
and a new run writes at the same time. -/
def overlappingRun : List Event :=
  [.readdir (some 2), .stat (some .file), .stat (some .file),
    .readFile (some (sampleFile "10 7")), .timer 0 1, .connected 0 false,
    .serverRemove 0 false, .removed 0, .serverInsert 0, .inserted 0 false,
    .readFile (some (sampleFile "10 7")), .timer 1 1, .connected 0 false,
    .fsEvent 1, .readdir (some 1), .stat (some .file),
    .readFile (some (sampleFile "10 7")), .timer 2 1, .connected 1 false,
    .serverRemove 0 false, .serverRemove 1 false, .removed 0, .removed 1,
    .serverInsert 0, .serverInsert 1, .inserted 0 false, .inserted 0 false]

/-- A directory without files leaves the process running for ever, and two writes that
overlap leave two documents for one hour. -/
theorem stats_hours_fails : (∃ s ∈ run (step sampleMoment) (start 1 []) [.readdir (some 0)],
      s.Quiescent ∧ s.running = true) ∧ (∃ s ∈ run (step sampleMoment) (start 1 []) overlappingRun,
      s.Quiescent ∧ ¬ DistinctHours s.stats) := by
  refine ⟨?_, ?_⟩ <;> decide +kernel

/-- The event leaves the collection of the objects to the files: no hour is added, and no
aggregation starts. -/
def Keeps (s : Watch) : Event → Prop
  | .fsEvent _ => s.running = true
  | .interval _ => False
  | .timer id _ => s.timers.lookup id ≠ some .rerun
  | _ => True

instance (s : Watch) (event : Event) : Decidable (s.Keeps event) := by
  unfold Keeps
  split <;> infer_instance

def fileRead : Event → Option Bytes
  | .readFile data => data
  | _ => none

theorem hashes_stepWrite {i : Nat} (hstep : s.stepWrite i event = some s')
    (hup : s'.exited = false) : s'.hashes = s.hashes := by
  obtain ⟨w, -, hexited | ⟨-, rfl⟩ | ⟨-, j, err, -, rfl⟩ | ⟨-, rfl⟩ | ⟨d, rest, -, rfl⟩ | ⟨-, rfl⟩⟩
  :=
    stepWrite_cases hstep
  · cases hexited.symm.trans hup
  · rfl
  · rfl
  · rfl
  · unfold insertNext
    split <;> rfl
  · exact hashes_finish s i

/-- A step changes the objects as `ByHour.handleFile` changes the records for the file it reads. -/
theorem view_step (hk : s.hashes.Keyed) (hkeeps : s.Keeps event)
    (hstep : s.step moment event = some s') (hup : s'.exited = false) :
    s'.hashes.Keyed ∧ (fileRead event).toList.foldlM (ByHour.handleFile moment) s.hashes.view =
      .ok s'.hashes.view := by
  have hsame (h : s'.hashes = s.hashes) : s'.hashes.Keyed ∧
      [].foldlM (ByHour.handleFile moment) s.hashes.view = .ok s'.hashes.view := by
    rw [h]
    exact ⟨hk, rfl⟩
  unfold step at hstep
  split at hstep
  · cases hstep
  cases event with
  | fsEvent now =>
    cases hstep
    exact hsame (by rw [aggregateLogs_of_running hkeeps])
  | interval now => exact hkeeps.elim
  | readdir | stat =>
    simp only [stepReaddir, stepStat] at hstep
    exact hsame (by grind [throw])
  | readFile data =>
    simp only [stepReadFile] at hstep
    split at hstep
    · cases hstep
    cases data with
    | none =>
      cases hstep
      cases hup
    | some data =>
      cases hstep
      simp only [handleFile] at hup ⊢
      split at hup
      · rename_i s₁ hlines
        obtain ⟨hk', hview⟩ := keyed_handleLines (by exact hk) hlines
        refine ⟨hk', ?_⟩
        change ByHour.handleFile moment s.hashes.view data >>= pure = _
        rw [bind_pure]
        exact hview
      · cases hup
  | timer id now =>
    obtain ⟨timer, htimer, rfl⟩ := Option.map_eq_some_iff.mp hstep
    cases timer with
    | write => exact hsame rfl
    | rerun => exact absurd htimer hkeeps
  | connected | serverRemove | removed | serverInsert | inserted =>
    exact hsame (hashes_stepWrite hstep hup)

/-- However the callbacks interleave, the objects are what `ByHour.aggregateLogs` makes of the files
read since the aggregation started. -/
theorem run_aggregates {now : Int} {events : List Event} (hidle : s.running = false)
    (hkeeps : AllMeet (step moment) Keeps (s.aggregateLogs now) events)
    (hrun : run (step moment) (s.aggregateLogs now) events = some s') (hup : s'.exited = false) :
    ByHour.aggregateLogs moment now (events.filterMap fileRead) = .ok s'.hashes.view := by
  have hhashes : (s.aggregateLogs now).hashes =
      ({ s with running := true }).clearRerun.hashes.reset.fillHourGaps now := by
    simp [aggregateLogs, hidle]
  -- what is kept is about the files read so far
  have hread := run_simulates (fun files event => files ++ (fileRead event).toList)
    (R := fun s files => s.exited = false → s.hashes.Keyed ∧
      ByHour.aggregateLogs moment now files = .ok s.hashes.view)
    (fun s files event s' h hkeeps hstep hup => ?_) hkeeps (t := []) (fun _ => ?_) hrun hup
  · rw [foldl_append_eq_append, nil_append, ← flatMap_def,
      ← filterMap_eq_flatMap_toList] at hread
    exact hread.2
  · have halive : s.exited = false := by
      unfold step at hstep
      split at hstep
      · cases hstep
      · rename_i halive
        exact Bool.eq_false_iff.mpr halive
    obtain ⟨hk, hview⟩ := h halive
    obtain ⟨hk', hview'⟩ := view_step hk hkeeps hstep hup
    refine ⟨hk', ?_⟩
    rw [ByHour.aggregateLogs, foldlM_append, ← ByHour.aggregateLogs, hview]
    exact hview'
  · rw [hhashes, view_fillHourGaps]
    exact ⟨keyed_fillHourGaps (keyed_reset _) now, rfl⟩

/-- The second file is read after the write of the first. -/
theorem run_aggregates_sample : ∃ s,
    run (step sampleMoment) ((boot 1 []).aggregateLogs 1) (overlappingRun.take 12) = some s ∧
    ByHour.aggregateLogs sampleMoment 1 [sampleFile "10 7", sampleFile "10 7"] =
      .ok s.hashes.view := by
  obtain ⟨s, hrun, hup⟩ : ∃ s ∈ run (step sampleMoment) ((boot 1 []).aggregateLogs 1)
    (overlappingRun.take 12), s.exited = false := by decide +kernel
  exact ⟨s, hrun, run_aggregates (s := boot 1 []) rfl (by decide +kernel) hrun hup⟩

end Watch

end Meliproxy.Logs
