import DaxMigration.Storage.FileTree

/-!
# Changes

Files are replaced or made, and directories made, along paths. A directory can be asked for with all
those above it that are missing; if it cannot be made, those that were made stay.
-/

namespace DaxMigration.Storage

/-- A change that may fail; what it has done before that stays. -/
abbrev Change := ExceptT FileFault (StateM FileTree)

namespace Change

open FileTree (longestName)

def locating {α : Type} (f : FileTree → Except FileFault α) : Change α := do
  match f (← get) with
  | .ok a => return a
  | .error fault => throw fault

/-- The place of a name in a directory. -/
def placeIn (holder : Location) (name : String) : Change Location :=
  if longestName < name.utf8ByteSize then throw .tooLong else return holder ++ [name]

/-- Replaces a file or makes it. A path that ends in a slash or dots names a directory, even if there
is none. -/
def write (path : String) (bytes : ByteArray) : Change Unit := do
  let holder ← locating (·.holder path)
  match if endsInSlash path then none else endName? path with
  | none => throw .isDirectory
  | some name =>
    let at_ ← placeIn holder name
    if (← get).isDirectoryAt at_ then throw .isDirectory
    modify (·.put at_ (.file bytes))

def makeDirectory (path : String) : Change Unit := do
  let holder ← locating (·.holder path)
  match endName? path with
  | none => throw .exists_
  | some name =>
    let at_ ← placeIn holder name
    if ((← get).entryAt? at_).isSome then throw .exists_
    modify (·.put at_ .directory)

/-- Makes a directory unless it is there. -/
def ensureDirectory (path : String) : Change Unit :=
  tryCatch (makeDirectory path) fun fault => do
    if fault ≠ .exists_ || !(← get).isDirectory path then throw fault

/-- Makes the first of some directories, each in the next; the next are made only where it cannot be
made without them. -/
def ensureLineage : List String → Change Unit
  | [] => return
  | path :: rest =>
    tryCatch (ensureDirectory path) fun fault => do
      if fault ≠ .notFound then throw fault
      ensureLineage rest
      ensureDirectory path

/-- Makes a directory, and those above it that are missing. -/
def makeDirectories (path : String) : Change Unit :=
  ensureLineage (lineage path)

end Change

end DaxMigration.Storage
