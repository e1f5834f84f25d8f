import Meliproxy.Lib.Runs
import Meliproxy.Logs.Aggregate
import Mathlib.Data.List.Sort

/-!
# The watcher of the log files

`watch.js` as one process: the variables of the module, the calls of `walk` that have not
answered, the timers, the writes on their way to the database, and the `stats` collection
there. Every callback is an event, and so is each step of the server for a write. The
records are objects: `byHour` and the `finalData` of a write refer to them, and the
database driver gives an object its `_id` once, at its first insertion.
-/

namespace Meliproxy.Logs

open Lib

/-- `byHour`: its keys in the order of their insertion, and every record built so far. -/
structure Hashes where
  days : List Int
  entries : List (Slot × Nat)
  objects : List Record

namespace Hashes

variable (h : Hashes)

def reset : Hashes := { h with days := [], entries := [] }

def find (slot : Slot) : Option Nat := h.entries.lookup slot

def addDay (day : Int) : Hashes :=
  if day ∈ h.days then h else { h with days := h.days ++ [day] }

def create (slot : Slot) (record : Record) : Hashes :=
  { h with
    entries := h.entries ++ [(slot, h.objects.length)]
    objects := h.objects ++ [record] }

def fill (cursor : Int) : Hashes :=
  let h := h.addDay (slotOf cursor).day
  if (h.find (slotOf cursor)).isSome then h
  else h.create (slotOf cursor) (getEmptyRecord cursor)

/-- The number of full hours from the first day that begin before `now`. -/
def hoursBefore (now : Int) : Nat := ((now + hourMs - 1) / hourMs).toNat

def fillHourGaps (now : Int) : Hashes :=
  (List.range (hoursBefore now)).foldl (fun h (n : Nat) => h.fill (n * hourMs)) h

def addLine (line : Line) : Except Failure Hashes :=
  match line.datetimeMoment with
  | none => .error .typeError
  | some m =>
    if (slotOf m).day ∈ h.days then
      match h.find (slotOf m) with
      | some i => .ok { h with objects := h.objects.modify i (·.add line) }
      | none => .ok (h.create (slotOf m) ((getEmptyRecord m).add line))
    else .error .typeError

/-- `Object.keys` of the hash of a day: the keys from `10` on are array indices and come
first and in order, the keys from `00` to `09` come in the order of their insertion. -/
def objectKeys (entries : List (Slot × Nat)) : List (Slot × Nat) :=
  (entries.filter fun e => 10 ≤ e.1.hour).insertionSort (fun e e' => e.1.hour ≤ e'.1.hour) ++
    entries.filter fun e => e.1.hour < 10

def finalData : List Nat :=
  h.days.flatMap fun day => (objectKeys (h.entries.filter fun e => e.1.day = day)).map Prod.snd

end Hashes

structure Document where
  id : Nat
  record : Record

/-- How far a write is. The reply to `remove` is on its way in `removed`, and the reply to
`insertMany` in `inserting []` and in `rejected`. -/
inductive Stage where
  | connecting
  | removing
  | removed
  | inserting (rest : List Document)
  | rejected

structure Write where
  finalData : List Nat
  stage : Stage

inductive Timer where
  | write
  | rerun
  deriving DecidableEq

structure Watch where
  hashes : Hashes
  timeout : Option Nat
  writeTimeout : Option Nat
  running : Bool
  reRunFlag : Bool
  readdirCalls : Nat
  statCalls : Nat
  readFileCalls : Nat
  timers : List (Nat × Timer)
  nextTimer : Nat
  writes : List Write
  stats : List Document
  exited : Bool

inductive FileKind where
  | directory
  | file
  | other

/-- The callbacks, with `none` or `true` for an error, and the two steps of the server. -/
inductive Event where
  | fsEvent (now : Int)
  | interval (now : Int)
  | readdir (files : Option Nat)
  | stat (kind : Option FileKind)
  | readFile (data : Option Bytes)
  | timer (id : Nat) (now : Int)
  | connected (i : Nat) (err : Bool)
  | serverRemove (i : Nat) (err : Bool)
  | removed (i : Nat)
  | serverInsert (i : Nat)
  | inserted (i : Nat) (err : Bool)

namespace Watch

variable (s : Watch)

def throw : Watch := { s with exited := true }

def clearTimeout (id : Nat) : Watch :=
  { s with timers := s.timers.filter fun t => t.1 ≠ id }

def setTimeout (timer : Timer) : Watch :=
  { s with timers := s.timers ++ [(s.nextTimer, timer)], nextTimer := s.nextTimer + 1 }

def clearRerun : Watch :=
  match s.timeout with
  | some id => { s.clearTimeout id with timeout := none }
  | none => s

def aggregateLogs (now : Int) (s : Watch) : Watch :=
  if s.running then { s with reRunFlag := true }
  else
    let s := ({ s with running := true }).clearRerun
    { s with
      hashes := s.hashes.reset.fillHourGaps now
      readdirCalls := s.readdirCalls + 1 }

def resetWriteTimeout : Watch :=
  let s := match s.writeTimeout with
    | some id => { s.clearTimeout id with writeTimeout := none }
    | none => s
  { s.setTimeout .write with writeTimeout := some s.nextTimer }

variable (moment : JsString → Option Int)

def handleLine (s : Watch) (line : JsString) : Except Failure Watch :=
  if line = [] then .ok s
  else do
    let line ← parseLine moment line
    let hashes ← s.hashes.addLine line
    .ok ({ s with hashes }).resetWriteTimeout

def handleFile (s : Watch) (data : Bytes) : Watch :=
  match ((Utf8.decode data).splitOn '\n').foldlM (handleLine moment) s with
  | .ok s => s
  | .error _ => s.throw

def fire (now : Int) (s : Watch) : Timer → Watch
  | .write => { s with writes := s.writes ++ [⟨s.hashes.finalData, .connecting⟩] }
  | .rerun => s.aggregateLogs now

def setStage (i : Nat) (stage : Stage) : Watch :=
  { s with writes := s.writes.modify i fun w => { w with stage } }

def documents (objects : List Record) (finalData : List Nat) : List Document :=
  finalData.filterMap fun i => objects[i]?.map (Document.mk i)

/-- The callback of `insertMany` without an error. -/
def finish (i : Nat) : Watch :=
  let s := { s with writes := s.writes.eraseIdx i, running := false }
  if s.reRunFlag then
    { s.setTimeout .rerun with timeout := some s.nextTimer, reRunFlag := false }
  else s

/-- The server inserts the next document of a write, unless its `_id` is taken. -/
def insertNext (i : Nat) (d : Document) (rest : List Document) : Watch :=
  if ∃ d' ∈ s.stats, d'.id = d.id then s.setStage i .rejected
  else { s.setStage i (.inserting rest) with stats := s.stats ++ [d] }

def stageOf (i : Nat) : Option Stage := s.writes[i]?.map Write.stage

def stepWrite (i : Nat) (event : Event) : Option Watch :=
  match event, s.stageOf i with
  | .connected _ err, some .connecting => some (if err then s.throw else s.setStage i .removing)
  | .serverRemove _ err, some .removing =>
    some { s.setStage i .removed with stats := if err then s.stats else [] }
  | .removed _, some .removed =>
    s.writes[i]?.map fun w => s.setStage i (.inserting (documents s.hashes.objects w.finalData))
  | .serverInsert _, some (.inserting (d :: rest)) => some (s.insertNext i d rest)
  | .inserted _ false, some (.inserting []) => some (s.finish i)
  | .inserted _ true, some (.inserting _) => some s.throw
  | .inserted _ true, some .rejected => some s.throw
  | _, _ => none

def stepTimer (id : Nat) (now : Int) : Option Watch :=
  (s.timers.lookup id).map fun timer => (s.clearTimeout id).fire now timer

def stepReaddir (files : Option Nat) : Option Watch :=
  if s.readdirCalls = 0 then none
  else
    let s := { s with readdirCalls := s.readdirCalls - 1 }
    match files with
    | none => some s.throw
    | some n => some { s with statCalls := s.statCalls + n }

/-- An error leaves no `stats` object to ask. -/
def stepStat (kind : Option FileKind) : Option Watch :=
  if s.statCalls = 0 then none
  else
    let s := { s with statCalls := s.statCalls - 1 }
    match kind with
    | none => some s.throw
    | some .directory => some { s with readdirCalls := s.readdirCalls + 1 }
    | some .file => some { s with readFileCalls := s.readFileCalls + 1 }
    | some .other => some s

def stepReadFile (s : Watch) (data : Option Bytes) : Option Watch :=
  if s.readFileCalls = 0 then none
  else
    let s := { s with readFileCalls := s.readFileCalls - 1 }
    match data with
    | none => some s.throw
    | some data => some (s.handleFile moment data)

def step (s : Watch) (event : Event) : Option Watch :=
  if s.exited then none
  else
    match event with
    | .fsEvent now => some (s.aggregateLogs now)
    | .interval now => some { s with hashes := s.hashes.fillHourGaps now }
    | .readdir files => s.stepReaddir files
    | .stat kind => s.stepStat kind
    | .readFile data => s.stepReadFile moment data
    | .timer id now => s.stepTimer id now
    | .connected i _ => s.stepWrite i event
    | .serverRemove i _ => s.stepWrite i event
    | .removed i => s.stepWrite i event
    | .serverInsert i => s.stepWrite i event
    | .inserted i _ => s.stepWrite i event

/-- The module before its last line, at the time `now`. -/
def boot (now : Int) (stats : List Document) : Watch where
  hashes := Hashes.fillHourGaps ⟨[], [], []⟩ now
  timeout := none
  writeTimeout := none
  running := false
  reRunFlag := false
  readdirCalls := 0
  statCalls := 0
  readFileCalls := 0
  timers := []
  nextTimer := 0
  writes := []
  stats := stats
  exited := false

def start (now : Int) (stats : List Document) : Watch := (boot now stats).aggregateLogs now

end Watch

end Meliproxy.Logs
