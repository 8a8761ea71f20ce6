import DaxMigration.Storage.Path

/-!
# File trees

Files and directories by location. A path is followed one part at a time: what it goes through must
be a directory, and only its last name may be missing. Whatever holds a file or directory is itself
a directory. Names and paths are limited in length.
-/

namespace DaxMigration.Storage

/-- The names from the directory down that paths start from. A location above it begins with `..`,
and that of an absolute path with `/`. -/
abbrev Location := List String

inductive Entry where
  | file (bytes : ByteArray)
  | directory

/-- Files are the same when their bytes are. -/
instance : BEq Entry where
  beq
    | .file a, .file b => a.data == b.data
    | .directory, .directory => true
    | _, _ => false

inductive FileFault where
  | notFound
  | notDirectory
  | isDirectory
  | exists_
  | tooLong
  | nullInPath
  | notText
deriving DecidableEq

def FileFault.message : FileFault → String
  | notFound => "No such file or directory (os error 2)"
  | exists_ => "File exists (os error 17)"
  | notDirectory => "Not a directory (os error 20)"
  | isDirectory => "Is a directory (os error 21)"
  | tooLong => "File name too long (os error 36)"
  | nullInPath => "file name contained an unexpected NUL byte"
  | notText => "stream did not contain valid UTF-8"

/-- What reading an entry gives. -/
def Entry.content : Entry → Except FileFault ByteArray
  | .file bytes => .ok bytes
  | .directory => .error .isDirectory

structure FileTree where
  entries : List (Location × Entry)

namespace FileTree

/-- Nothing but the directory that paths start from, the one above it and the root. -/
def empty : FileTree := ⟨[([], .directory), ([".."], .directory), (["/"], .directory)]⟩

def entryAt? (t : FileTree) (at_ : Location) : Option Entry :=
  t.entries.lookup at_

def put (t : FileTree) (at_ : Location) (e : Entry) : FileTree :=
  ⟨(at_, e) :: t.entries.filter (·.1 != at_)⟩

def isDirectoryAt (t : FileTree) (at_ : Location) : Bool :=
  match t.entryAt? at_ with
  | some .directory => true
  | _ => false

def above : Location → Location
  | [] => [".."]
  | ["/"] => ["/"]
  | at_ => if at_.getLast? == some ".." then at_ ++ [".."] else at_.dropLast

/-- One part of a path, from a location that must be a directory. -/
def stepInto (at_ : Location) (part : String) : Location :=
  if part = "" || part = "." then at_
  else if part = ".." then above at_
  else at_ ++ [part]

def longestName : Nat := 255

def longestPath : Nat := 4095

def follow (t : FileTree) (at_ : Location) : List String → Except FileFault Location
  | [] => .ok at_
  | part :: rest =>
    match t.entryAt? at_ with
    | some .directory =>
      if longestName < part.utf8ByteSize then .error .tooLong
      else follow t (stepInto at_ part) rest
    | some (.file _) => .error .notDirectory
    | none => .error .notFound

def origin (path : String) : Location :=
  if isAbsolute path then ["/"] else []

def followPath (t : FileTree) (path : String) (parts : List String) : Except FileFault Location :=
  if path.toList.contains (Char.ofNat 0) then .error .nullInPath
  else if path = "" then .error .notFound
  else if longestPath < path.utf8ByteSize then .error .tooLong
  else t.follow (origin path) parts

def locate (t : FileTree) (path : String) : Except FileFault Location :=
  t.followPath path (pathParts path)

/-- The directory in which the end of a path lies. -/
def holder (t : FileTree) (path : String) : Except FileFault Location :=
  t.followPath path ((partsToEnd path).dropLast ++ [""])

def find? (t : FileTree) (path : String) : Option Entry :=
  match t.locate path with
  | .ok at_ => t.entryAt? at_
  | .error _ => none

def contains (t : FileTree) (path : String) : Bool :=
  (t.find? path).isSome

def isDirectory (t : FileTree) (path : String) : Bool :=
  match t.find? path with
  | some .directory => true
  | _ => false

def isFile (t : FileTree) (path : String) : Bool :=
  match t.find? path with
  | some (.file _) => true
  | _ => false

def read (t : FileTree) (path : String) : Except FileFault ByteArray := do
  match t.entryAt? (← t.locate path) with
  | some (.file bytes) => return bytes
  | some .directory => .error .isDirectory
  | none => .error .notFound

/-- Writes bytes into a file at an offset, up to which zeros fill it. -/
def overwrite (t : FileTree) (at_ : Location) (offset : Nat) (bytes : ByteArray) : FileTree :=
  match t.entryAt? at_ with
  | some (.file old) =>
    let zeros : ByteArray := ⟨Array.replicate (offset - old.size) 0⟩
    let rest := old.extract (offset + bytes.size) old.size
    t.put at_ (.file (old.extract 0 offset ++ zeros ++ bytes ++ rest))
  | _ => t

/-- The order of a listing that goes through each directory by name. -/
def locationLess (a b : Location) : Bool :=
  decide (a < b)

/-- Whether the names lead down all the way. -/
def descends (names : List String) : Bool :=
  match names.head? with
  | some name => name != ".." && name != "/"
  | none => false

/-- The names below a directory of all files in it, or of those directly in it, in the order of a
listing. -/
def filesBelow (t : FileTree) (at_ : Location) (recursive : Bool) : List Location :=
  let inside := t.entries.filterMap fun (l, e) =>
    match e with
    | .file _ =>
      let names := l.drop at_.length
      if at_.isPrefixOf l && descends names && (recursive || names.length == 1) then some names
      else none
    | .directory => none
  inside.mergeSort fun a b => !locationLess b a

def listFiles (t : FileTree) (path : String) (recursive : Bool) : List String :=
  match t.locate path with
  | .ok at_ => (t.filesBelow at_ recursive).map (·.foldl joinPath path)
  | .error _ => []

/-- The entries that are new, or not as they were before. -/
def changesFrom (t before : FileTree) : List (Location × Entry) :=
  t.entries.filter fun (l, e) => before.entryAt? l != some e

theorem entryAt?_put (t : FileTree) (a b : Location) (e : Entry) :
    (t.put a e).entryAt? b = if b = a then some e else t.entryAt? b := by
  unfold put entryAt?
  rw [List.lookup_cons]
  by_cases h : b = a
  · simp [h]
  · have hb : (b == a) = false := by simpa using h
    simp only [hb, h, if_false]
    induction t.entries with
    | nil => rfl
    | cons x rest ih =>
      obtain ⟨l, v⟩ := x
      by_cases hl : l = a
      · subst hl; simp [List.lookup_cons, hb, ih]
      · rw [List.filter_cons_of_pos (by simpa using hl), List.lookup_cons, List.lookup_cons, ih]

/-! ## Finding and reading -/

section

variable {t : FileTree} {path : String}

theorem isDirectory_eq_not_isFile (h : t.contains path = true) :
    t.isDirectory path = !t.isFile path := by
  unfold contains at h
  unfold isDirectory isFile
  generalize t.find? path = entry at h ⊢
  cases entry with
  | none => cases h
  | some entry => cases entry <;> rfl

theorem contains_of_isDirectory (h : t.isDirectory path = true) : t.contains path = true := by
  unfold isDirectory at h
  unfold contains
  grind

theorem read_of_find?_none (h : t.find? path = none) :
    ∃ fault, t.read path = .error fault := by
  unfold find? at h
  unfold read
  cases hAt : t.locate path with
  | error fault => exact ⟨fault, rfl⟩
  | ok at_ =>
    simp only [hAt] at h
    exact ⟨.notFound, by simp [bind, Except.bind, h]⟩

theorem read_of_find?_some {e : Entry} (h : t.find? path = some e) : t.read path = e.content := by
  unfold find? at h
  unfold read
  cases hAt : t.locate path with
  | error fault => simp [hAt] at h
  | ok at_ =>
    simp only [hAt] at h
    cases e <;> simp [bind, Except.bind, h] <;> rfl

theorem find?_of_read {bytes : ByteArray} (h : t.read path = .ok bytes) :
    t.find? path = some (.file bytes) := by
  cases hFind : t.find? path with
  | none =>
    obtain ⟨fault, hRead⟩ := read_of_find?_none hFind
    rw [hRead] at h
    cases h
  | some e =>
    rw [read_of_find?_some hFind] at h
    cases e with
    | file old => rw [Except.ok.inj h]
    | directory => cases h

end

end FileTree

end DaxMigration.Storage
