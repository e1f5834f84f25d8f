import Meliproxy.Envoy.Runtime.Snapshot

/-!
# What a reload of the runtime makes visible

The walk as a list of operations. The first one that throws ends it, and what was read up to
there is the new snapshot; the files behind it are in the directory all the same.
-/

namespace Meliproxy.Envoy.Runtime

open Lib List Option

/-- A file that is read, an operation that throws, and an override directory that is passed
over. -/
inductive Operation where
  | read (key content : Bytes) (cut : Option Nat)
  | throws (error : Bytes)
  | skips

structure File where
  key : Bytes
  content : Bytes

def Operation.isRead : Operation → Bool
  | .read _ _ _ => true
  | _ => false

def Operation.file : Operation → Option File
  | .read key content _ => some ⟨key, content⟩
  | _ => none

def Operation.fileRead : Operation → Option File
  | .read key content cut => some ⟨key, fileReadToEnd content cut⟩
  | _ => none

def needs (works : Bool) (error : Bytes) : List Operation :=
  if works then [] else [.throws error]

def Entries.operations (path parent : Bytes) : Entries → List Operation
  | .done ends => needs ends (unableToIterate path)
  | .file entry opens content cut rest =>
    needs entry.lists (unableToIterate path) ++
      needs entry.stats (unableToStat (fullPath path entry.name)) ++
      needs opens (unableToRead (fullPath path entry.name)) ++
      .read (fullPrefix parent entry.name) content cut :: rest.operations path parent
  | .directory entry opens children rest =>
    needs entry.lists (unableToIterate path) ++
      needs entry.stats (unableToStat (fullPath path entry.name)) ++
      (if isDots entry.name then [] else
        needs opens (unableToOpen (fullPath path entry.name)) ++
          children.operations (fullPath path entry.name) (fullPrefix parent entry.name)) ++
      rest.operations path parent
  | .other entry rest =>
    needs entry.lists (unableToIterate path) ++
      needs entry.stats (unableToStat (fullPath path entry.name)) ++ rest.operations path parent

def Directory.operations (path : Bytes) (directory : Directory) : List Operation :=
  needs directory.opens (unableToOpen path) ++ directory.entries.operations path []

def overrideOperations (path : Bytes) : Option OverrideDirectory → List Operation
  | none => []
  | some override =>
    (if override.found then [] else [.skips]) ++ override.directory.operations path

def perform : List Operation → Values → Walk
  | [], values => ⟨values, none⟩
  | .read key content cut :: rest, values =>
    perform rest (values.insert key (Entry.ofString (fileReadToEnd content cut)))
  | .throws error :: _, values => ⟨values, some error⟩
  | .skips :: _, values => ⟨values, none⟩

def Entries.files (parent : Bytes) : Entries → List File
  | .done _ => []
  | .file entry _ content _ rest =>
    ⟨fullPrefix parent entry.name, content⟩ :: rest.files parent
  | .directory entry _ children rest =>
    (if isDots entry.name then [] else children.files (fullPrefix parent entry.name)) ++
      rest.files parent
  | .other _ rest => rest.files parent

def overlay (values : Values) (files : List File) : Values :=
  files.foldl (fun values file => values.insert file.key (Entry.ofString file.content)) values

def overrideFiles : Option OverrideDirectory → List File
  | none => []
  | some override => override.directory.entries.files []

variable (rootPath overridePath : Bytes) (root : Directory) (override : Option OverrideDirectory)

def completeValues : Values :=
  overlay (overlay ∅ (root.entries.files [])) (overrideFiles override)

def latest (files : List File) (key : Bytes) : Option Entry :=
  (files.reverse.find? (·.key = key)).map fun file => Entry.ofString file.content

theorem latest_append (files₁ files₂ : List File) (key : Bytes) :
    latest (files₁ ++ files₂) key = (latest files₂ key).or (latest files₁ key) := by
  unfold latest
  rw [reverse_append, find?_append, map_or]

theorem lookup_overlay (values : Values) (files : List File) (key : Bytes) :
    (overlay values files).lookup key = (latest files key).or (values.lookup key) := by
  induction files generalizing values with
  | nil => rfl
  | cons file files ih =>
    have hcons : latest (file :: files) key = (latest files key).or (latest [file] key) :=
      latest_append [file] files key
    have hstep : (overlay values (file :: files)).lookup key =
        (latest files key).or
          ((values.insert file.key (Entry.ofString file.content)).lookup key) := ih _
    rw [hstep, hcons, Option.or_assoc]
    congr 1
    by_cases hkey : file.key = key
    · subst hkey
      rw [AList.lookup_insert]
      simp [latest]
    · rw [AList.lookup_insert_ne fun h => hkey h.symm]
      simp [latest, hkey]

theorem lookup_completeValues (key : Bytes) : (completeValues root override).lookup key =
      latest (root.entries.files [] ++ overrideFiles override) key := by
  rw [completeValues, lookup_overlay, lookup_overlay, latest_append, AList.lookup_empty, or_none]

theorem perform_append {operations : List Operation} (hskips : .skips ∉ operations)
    (operations' : List Operation) (values : Values) : perform (operations ++ operations') values =
      match (perform operations values).error with
      | some error => ⟨(perform operations values).values, some error⟩
      | none => perform operations' (perform operations values).values := by
  induction operations generalizing values with
  | nil => rfl
  | cons operation operations ih =>
    have hrest : .skips ∉ operations := fun h => hskips (mem_cons_of_mem _ h)
    cases operation with
    | read key content cut => exact ih hrest _
    | throws error => rfl
    | skips => exact absurd mem_cons_self hskips

variable (works : Bool) (error : Bytes) (entries : Entries)

theorem perform_needs (operations : List Operation)
    (values : Values) : perform (needs works error ++ operations) values =
      if works then perform operations values else ⟨values, some error⟩ := by
  cases works <;> rfl

theorem skips_notMem_needs : .skips ∉ needs works error := by
  cases works <;> simp [needs]

theorem Entries.skips_notMem (path parent : Bytes) : .skips ∉ entries.operations path parent := by
  induction entries generalizing path parent with
  | done ends => exact skips_notMem_needs _ _
  | file entry opens content cut rest ih =>
    simp [operations, skips_notMem_needs, ih]
  | directory entry opens children rest ihchildren ih =>
    simp only [operations, mem_append, skips_notMem_needs, ih, or_false, false_or]
    split
    · simp
    · simp [skips_notMem_needs, ihchildren]
  | other entry rest ih => simp [operations, skips_notMem_needs, ih]

theorem walkEntries_eq_perform (path parent : Bytes) (values : Values) :
    walkEntries path parent entries values = perform (entries.operations path parent) values := by
  induction entries generalizing path parent values with
  | done ends => cases ends <;> rfl
  | file entry opens content cut rest ih =>
    rw [walkEntries, Entries.operations, append_assoc, append_assoc, perform_needs,
      perform_needs, perform_needs, ih]
    cases entry.lists <;> cases entry.stats <;> cases opens <;> rfl
  | directory entry opens children rest ihchildren ih =>
    rw [walkEntries, Entries.operations, append_assoc, append_assoc, perform_needs, perform_needs]
    cases entry.lists with
    | false => rfl
    | true =>
      cases entry.stats with
      | false => rfl
      | true =>
        cases hdots : isDots entry.name with
        | true => simpa using ih path parent values
        | false =>
          simp only [not_true_eq_false, if_false, if_true, Bool.false_eq_true, append_assoc,
            perform_needs, ihchildren, ih]
          cases opens with
          | false => rfl
          | true =>
            rw [if_pos rfl, perform_append (children.skips_notMem _ _)]
            rfl
  | other entry rest ih =>
    rw [walkEntries, Entries.operations, append_assoc, perform_needs, perform_needs, ih]
    cases entry.lists <;> cases entry.stats <;> rfl

theorem walkDirectory_eq_perform (path : Bytes) (directory : Directory) (values : Values) :
    walkDirectory path directory values = perform (directory.operations path) values := by
  rw [walkDirectory, Directory.operations, perform_needs, walkEntries_eq_perform]

theorem Directory.skips_notMem (directory : Directory) (path : Bytes) :
    .skips ∉ directory.operations path := by
  simp [operations, skips_notMem_needs, Entries.skips_notMem]

def reloadOperations : List Operation :=
  root.operations rootPath ++ overrideOperations overridePath override

theorem snapshotImpl_eq_perform : snapshotImpl rootPath overridePath root override =
      perform (reloadOperations rootPath overridePath root override) ∅ := by
  rw [reloadOperations, perform_append (root.skips_notMem rootPath), ← walkDirectory_eq_perform]
  unfold snapshotImpl
  obtain ⟨values, error⟩ := walkDirectory rootPath root ∅
  cases error with
  | some error => rfl
  | none =>
    cases override with
    | none => rfl
    | some override =>
      dsimp only [overrideOperations]
      rw [walkDirectory_eq_perform]
      cases override.found <;> rfl

def readFiles (operations : List Operation) : List File :=
  (operations.takeWhile Operation.isRead).filterMap Operation.fileRead

def reachedFiles (operations : List Operation) : List File :=
  (operations.takeWhile Operation.isRead).filterMap Operation.file

def unreadFiles (operations : List Operation) : List File :=
  (operations.dropWhile Operation.isRead).filterMap Operation.file

theorem perform_values (operations : List Operation) (values : Values) :
    (perform operations values).values = overlay values (readFiles operations) := by
  induction operations generalizing values with
  | nil => rfl
  | cons operation operations ih =>
    cases operation with
    | read key content cut => exact ih _
    | throws | skips => rfl

theorem reached_append_unread (operations : List Operation) :
    reachedFiles operations ++ unreadFiles operations = operations.filterMap Operation.file := by
  rw [reachedFiles, unreadFiles, ← filterMap_append, takeWhile_append_dropWhile]

theorem file_needs : (needs works error).filterMap Operation.file = [] := by
  cases works <;> rfl

theorem Entries.file_operations (path parent : Bytes) :
    (entries.operations path parent).filterMap Operation.file = entries.files parent := by
  induction entries generalizing path parent with
  | done ends => exact file_needs _ _
  | file entry opens content cut rest ih =>
    simp [operations, files, filterMap_append, file_needs, ih, Operation.file]
  | directory entry opens children rest ihchildren ih =>
    simp only [operations, files, filterMap_append, file_needs, ih, nil_append]
    split
    · rfl
    · rw [filterMap_append, file_needs, ihchildren, nil_append]
  | other entry rest ih =>
    simp [operations, files, filterMap_append, file_needs, ih]

theorem Directory.file_operations (directory : Directory) (path : Bytes) :
    (directory.operations path).filterMap Operation.file = directory.entries.files [] := by
  rw [operations, filterMap_append, file_needs, Entries.file_operations, nil_append]

theorem file_overrideOperations (override : Option OverrideDirectory) (path : Bytes) :
    (overrideOperations path override).filterMap Operation.file = overrideFiles override := by
  cases override with
  | none => rfl
  | some override =>
    rw [overrideOperations, filterMap_append, Directory.file_operations, overrideFiles]
    cases override.found <;> rfl

theorem file_reloadOperations :
    (reloadOperations rootPath overridePath root override).filterMap Operation.file =
      root.entries.files [] ++ overrideFiles override := by
  rw [reloadOperations, filterMap_append, Directory.file_operations, file_overrideOperations]

/-- Every reader of the runtime finds the same under each key. -/
def SameValues (values values' : Values) : Prop := ∀ key, values.lookup key = values'.lookup key

def Loader.AllOrNothing (loader : Loader) (root : Directory)
    (override : Option OverrideDirectory) : Prop :=
  SameValues (loader.onSymlinkSwap root override).snapshot (completeValues root override) ∨
    SameValues (loader.onSymlinkSwap root override).snapshot loader.snapshot

def Loader.operations (loader : Loader) (root : Directory)
    (override : Option OverrideDirectory) : List Operation :=
  reloadOperations loader.rootPath loader.overridePath root override

/-- A file behind the end of the walk repeats the last one read under its key, and a file that
was cut short says the same as a whole or has another one with its key behind it. -/
structure Redundant (operations : List Operation) : Prop where
  unread : ∀ key, (latest (unreadFiles operations) key).isSome →
    latest (readFiles operations) key = latest (unreadFiles operations) key
  cut : ∀ key, (latest (unreadFiles operations) key).isNone →
    latest (readFiles operations) key = latest (reachedFiles operations) key

/-- The files read say what the snapshot before said. -/
def Repeats (operations : List Operation) (snapshot : Values) : Prop :=
  ∀ key, latest (readFiles operations) key = snapshot.lookup key

variable {loader : Loader} {root : Directory} {override : Option OverrideDirectory}

theorem lookup_onSymlinkSwap (loader : Loader) (root : Directory)
    (override : Option OverrideDirectory) (key : Bytes) :
    (loader.onSymlinkSwap root override).snapshot.lookup key =
      latest (readFiles (loader.operations root override)) key := by
  rw [Loader.onSymlinkSwap, snapshotImpl_eq_perform, perform_values, lookup_overlay,
    AList.lookup_empty, or_none]
  rfl

theorem redundant_iff (operations : List Operation) :
    Redundant operations ↔ ∀ key, latest (readFiles operations) key =
      latest (reachedFiles operations ++ unreadFiles operations) key := by
  constructor
  · intro h key
    rw [latest_append]
    cases hunread : latest (unreadFiles operations) key with
    | some entry => exact (h.unread key (by rw [hunread]; rfl)).trans hunread
    | none => exact h.cut key (by rw [hunread]; rfl)
  · intro h
    refine ⟨fun key hsome => ?_, fun key hnone => ?_⟩
    · obtain ⟨entry, hentry⟩ := isSome_iff_exists.mp hsome
      rw [h key, latest_append, hentry, some_or]
    · rw [h key, latest_append, isNone_iff_eq_none.mp hnone, none_or]

theorem sameValues_completeValues_iff :
    SameValues (loader.onSymlinkSwap root override).snapshot (completeValues root override) ↔
      Redundant (loader.operations root override) := by
  rw [redundant_iff, reached_append_unread, Loader.operations, file_reloadOperations]
  refine forall_congr' fun key => ?_
  rw [lookup_onSymlinkSwap, lookup_completeValues]
  rfl

/-- A partial snapshot is installed unless what is missing in it makes no difference. -/
theorem onSymlinkSwap_allOrNothing_iff (loader : Loader) (root : Directory)
    (override : Option OverrideDirectory) : loader.AllOrNothing root override ↔
      Redundant (loader.operations root override) ∨
        Repeats (loader.operations root override) loader.snapshot := by
  refine or_congr sameValues_completeValues_iff (forall_congr' fun key => ?_)
  rw [lookup_onSymlinkSwap]

def killSwitchTree : Directory :=
  { opens := true
    entries :=
      .file ⟨ascii "health_check", true, true⟩ true (ascii "1") none
        (.file ⟨ascii "fault", true, true⟩ false (ascii "0\n") none (.done true)) }

def oldLoader : Loader :=
  { rootPath := ascii "/srv/runtime/v"
    overridePath := ascii "/srv/runtime/o"
    snapshot := (∅ : Values).insert (ascii "fault") (Entry.ofString (ascii "0"))
    stats := ⟨0, 0, 1, 1, 1⟩ }

theorem killSwitch_not_allOrNothing : ¬ oldLoader.AllOrNothing killSwitchTree none := by
  rintro (h | h)
  · exact absurd (h (ascii "fault")) (by decide +kernel)
  · exact absurd (h (ascii "health_check")) (by decide +kernel)

end Meliproxy.Envoy.Runtime
