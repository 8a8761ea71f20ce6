import DaxMigration.CommandLine.Run
import DaxMigration.Migration.Calendar

/-!
# The command

Gathers the files that a command line speaks of, lets it run on them, and puts what it leaves back on
the disk.
-/

namespace DaxMigration.CommandLine

open Storage (FileTree Location Entry)

def diskPath : Location → String
  | [] => "."
  | "/" :: names => "/" ++ "/".intercalate names
  | names => "/".intercalate names

def entryOnDisk? (l : Location) : IO (Option Entry) := do
  let path := (← IO.currentDir) / diskPath l
  if ← path.isDir then return some .directory
  if ← path.pathExists then return some (.file (← IO.FS.readBinFile path))
  return none

/-- Adds a location that is not known yet. -/
def gatherAt (files : FileTree) (l : Location) : IO FileTree := do
  if (files.entryAt? l).isSome then return files
  match ← entryOnDisk? l with
  | some e => return files.put l e
  | none => return files

/-- Adds what is in a directory, and in the directories in it down to a depth. -/
def gatherBelow (files : FileTree) (l : Location) : Nat → IO FileTree
  | 0 => return files
  | depth + 1 => do
    let path := (← IO.currentDir) / diskPath l
    if !(← path.isDir) then return files
    let mut files := files
    for e in ← path.readDir do
      let inner := l ++ [e.fileName]
      files ← gatherAt files inner
      files ← gatherBelow files inner depth
    return files

def gather (depth : Nat) (files : FileTree) (path : String) : IO FileTree := do
  let mut files := files
  let mut l := FileTree.origin path
  for part in Storage.pathParts path do
    l := FileTree.stepInto l part
    files ← gatherAt files l
  gatherBelow files l depth

/-- How many directories deep a tree is followed. -/
def maxDepth : Nat := 256

/-- The files that a run can read or replace. -/
def gatherAll (o : Options) : IO FileTree := do
  let files ← gather maxDepth .empty o.outputDir
  let files ← o.configDir.toList.foldlM (gather 1) files
  let files ← (o.logFile.toList ++ o.report.toList).foldlM (gather 0) files
  o.inputs.foldlM (gather (if o.recursive then maxDepth else 1)) files

def restore (changes : List (Location × Entry)) : IO Unit := do
  for (l, e) in changes do
    if let .directory := e then IO.FS.createDirAll (diskPath l)
  for (l, e) in changes do
    if let .file bytes := e then IO.FS.writeBinFile (diskPath l) bytes

/-- The present second: that of a file just made. -/
def presentSecond : IO Nat := do
  let (_, path) ← IO.FS.createTempFile
  let second := (← path.metadata).modified.sec.toNat
  IO.FS.removeFile path
  return second

def runOnDisk (words : List String) : IO UInt32 := do
  let started ← IO.monoMsNow
  let session := Migration.Session.begin (← presentSecond) (← IO.getRandomBytes 4).toList
  let files ← match Options.ofWords words with
    | .ok o => gatherAll o
    | .error _ => pure .empty
  let outcome := run words session files
  restore (outcome.files.changesFrom files)
  for line in outcome.said do IO.eprintln line
  for line in outcome.printed ((← IO.monoMsNow) - started) do IO.println line
  return UInt32.ofNat outcome.exit

end DaxMigration.CommandLine

def main (words : List String) : IO UInt32 :=
  DaxMigration.CommandLine.runOnDisk words
