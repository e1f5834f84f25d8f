import Meliproxy.Envoy.Common.StringUtil
import Mathlib.Data.List.AList

/-!
# Runtime snapshots

`SnapshotImpl` and `LoaderImpl` of `runtime/runtime_impl.cc`. A directory is what its operations
answer: each call of `readdir`, `stat`, `opendir` and of the constructor of `std::ifstream` may
fail, and a read may end early without an error.
-/

namespace Meliproxy.Envoy

open Lib

namespace Runtime

/-- An entry of a directory, and whether `readdir` gives it and `stat` then works. -/
structure DirEntry where
  name : Bytes
  lists : Bool
  stats : Bool

/-- The entries of a directory in the order of `readdir`, which may fail at the end as well. -/
inductive Entries where
  | done (ends : Bool)
  | file (entry : DirEntry) (opens : Bool) (content : Bytes) (cut : Option Nat) (rest : Entries)
  | directory (entry : DirEntry) (opens : Bool) (children rest : Entries)
  | other (entry : DirEntry) (rest : Entries)

structure Directory where
  opens : Bool
  entries : Entries

/-- `found` is what `directoryExists` answers, which tries to open the directory. -/
structure OverrideDirectory where
  found : Bool
  directory : Directory

structure Entry where
  stringValue : Bytes
  uintValue : Option Nat
  deriving DecidableEq

abbrev Values := AList fun _ : Bytes => Entry

/-- What the walk has put into `values_`, and the text of an exception. -/
structure Walk where
  values : Values
  error : Option Bytes

/-- `errno` was cleared before `readdir`. -/
def Entry.ofString (content : Bytes) : Entry :=
  ⟨StringUtil.rtrim content, StringUtil.atoul false (StringUtil.rtrim content) 10⟩

def fileReadToEnd (content : Bytes) : Option Nat → Bytes
  | none => content
  | some cut => content.take cut

def fullPath (path name : Bytes) : Bytes := path ++ 47 :: name

def fullPrefix (parent name : Bytes) : Bytes := if parent = [] then name else parent ++ 46 :: name

variable (path : Bytes)

def unableToIterate : Bytes := ascii "unable to iterate directory: " ++ path

def unableToStat : Bytes := ascii "unable to stat file: '" ++ path ++ ascii "'"

def unableToRead : Bytes := ascii "unable to read file: " ++ path

def unableToOpen : Bytes := ascii "unable to open directory: " ++ path

def isDots (name : Bytes) : Bool := name = ascii "." || name = ascii ".."

def walkEntries (path parent : Bytes) : Entries → Values → Walk
  | .done ends, values => ⟨values, if ends then none else some (unableToIterate path)⟩
  | .file entry opens content cut rest, values =>
    if ¬ entry.lists then ⟨values, some (unableToIterate path)⟩
    else if ¬ entry.stats then ⟨values, some (unableToStat (fullPath path entry.name))⟩
    else if ¬ opens then ⟨values, some (unableToRead (fullPath path entry.name))⟩
    else walkEntries path parent rest
      (values.insert (fullPrefix parent entry.name) (Entry.ofString (fileReadToEnd content cut)))
  | .directory entry opens children rest, values =>
    if ¬ entry.lists then ⟨values, some (unableToIterate path)⟩
    else if ¬ entry.stats then ⟨values, some (unableToStat (fullPath path entry.name))⟩
    else if isDots entry.name then walkEntries path parent rest values
    else if ¬ opens then ⟨values, some (unableToOpen (fullPath path entry.name))⟩
    else
      let walk :=
        walkEntries (fullPath path entry.name) (fullPrefix parent entry.name) children values
      match walk.error with
      | some error => ⟨walk.values, some error⟩
      | none => walkEntries path parent rest walk.values
  | .other entry rest, values =>
    if ¬ entry.lists then ⟨values, some (unableToIterate path)⟩
    else if ¬ entry.stats then ⟨values, some (unableToStat (fullPath path entry.name))⟩
    else walkEntries path parent rest values

def walkDirectory (path : Bytes) (directory : Directory) (values : Values) : Walk :=
  if directory.opens then walkEntries path [] directory.entries values
  else ⟨values, some (unableToOpen path)⟩

structure RuntimeStats where
  loadError : Nat
  overrideDirNotExists : Nat
  overrideDirExists : Nat
  loadSuccess : Nat
  numKeys : Nat

def overrideFound : Option OverrideDirectory → Bool
  | none => false
  | some override => override.found

/-- The values of a new snapshot; the exceptions of the walk end in the constructor. -/
def snapshotImpl (rootPath overridePath : Bytes) (root : Directory)
    (override : Option OverrideDirectory) : Walk :=
  let walk := walkDirectory rootPath root ∅
  match walk.error, override with
  | none, some override =>
    if override.found then walkDirectory overridePath override.directory walk.values else walk
  | _, _ => walk

def RuntimeStats.load (stats : RuntimeStats) (rootLoaded found : Bool) (walk : Walk) :
    RuntimeStats :=
  let stats := { stats with numKeys := walk.values.entries.length }
  match walk.error with
  | some _ => { stats with
      loadError := stats.loadError + 1
      overrideDirNotExists := stats.overrideDirNotExists + if rootLoaded && !found then 1 else 0 }
  | none => { stats with
      overrideDirExists := stats.overrideDirExists + if found then 1 else 0
      overrideDirNotExists := stats.overrideDirNotExists + if found then 0 else 1
      loadSuccess := stats.loadSuccess + 1 }

structure Loader where
  rootPath : Bytes
  overridePath : Bytes
  snapshot : Values
  stats : RuntimeStats

def Loader.onSymlinkSwap (loader : Loader) (root : Directory)
    (override : Option OverrideDirectory) : Loader :=
  let walk := snapshotImpl loader.rootPath loader.overridePath root override
  { loader with
    snapshot := walk.values
    stats := loader.stats.load (walkDirectory loader.rootPath root ∅).error.isNone
      (overrideFound override) walk }

end Runtime

end Meliproxy.Envoy
