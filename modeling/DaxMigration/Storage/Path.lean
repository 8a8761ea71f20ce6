import DaxMigration.Text.Case

/-!
# Paths

Texts of names parted by slashes. Repeated slashes and single dots inside a path say nothing; the
extension of a name is what follows its last dot, unless that dot is its first character.
-/

namespace DaxMigration.Storage

def splitOn (sep : Char) : List Char → List (List Char)
  | [] => [[]]
  | c :: rest =>
    if c = sep then [] :: splitOn sep rest
    else
      match splitOn sep rest with
      | [] => [[c]]
      | part :: parts => (c :: part) :: parts

theorem splitOn_ne_nil (sep : Char) (cs : List Char) : splitOn sep cs ≠ [] := by
  cases cs with
  | nil => simp [splitOn]
  | cons c rest =>
    unfold splitOn
    split
    · simp
    · split <;> simp

/-- The parts between slashes, empty ones included. -/
def pathParts (path : String) : List String :=
  (splitOn '/' path.toList).map String.ofList

/-- The parts that name something. -/
def pathNames (path : String) : List String :=
  (pathParts path).filter fun part => part ≠ "" && part ≠ "."

def isAbsolute (path : String) : Bool :=
  path.toList.head? == some '/'

def endsInSlash (path : String) : Bool :=
  path.toList.getLast? == some '/'

/-- The parts without those at the end that satisfy `p`. -/
def dropLastParts (p : String → Bool) (parts : List String) : List String :=
  (parts.reverse.dropWhile p).reverse

/-- The parts without the empty ones behind a slash at the end. -/
def partsToEnd (path : String) : List String :=
  dropLastParts (· == "") (pathParts path)

/-- The name that a path ends in; none if it ends in one dot or two, or names nothing. -/
def endName? (path : String) : Option String :=
  ((partsToEnd path).getLast?).filter fun part => part ≠ "" && part ≠ "." && part ≠ ".."

/-- `name` below `path`; an absolute name stands for itself. -/
def joinPath (path name : String) : String :=
  if isAbsolute name || path = "" then name
  else if endsInSlash path then path ++ name
  else path ++ "/" ++ name

def fileName? (path : String) : Option String :=
  match (pathNames path).getLast? with
  | some name => if name = ".." then none else some name
  | none => none

/-- A part that says nothing inside a path. -/
def isIdle (part : String) : Bool :=
  part = "" || part = "."

/-- The beginning of a path without its last name, and what says nothing around that. -/
def aboveLast? (parts : List String) : Option (List String) :=
  match dropLastParts isIdle parts with
  | [] => none
  | named => some (dropLastParts isIdle named.dropLast)

/-- The path of the directory that a path lies in, as it is written there. It is empty for a single
name and for a dot, and none for a root. -/
def parent? (path : String) : Option String :=
  let joined := fun parts => "/".intercalate parts
  match pathParts path with
  | "" :: parts => (aboveLast? parts).map fun front => "/" ++ joined front
  | "." :: parts => some (((aboveLast? parts).map fun front => joined ("." :: front)).getD "")
  | parts => (aboveLast? parts).map joined

/-- A path and those above it that lie in another, from below. There are no more of them than the
path has characters. -/
def lineage (path : String) : List String :=
  go (path.length + 1) path
where
  go : Nat → String → List String
    | 0, _ => []
    | steps + 1, path =>
      match parent? path with
      | some up => path :: go steps up
      | none => []

/-- A name without its extension, and the extension without its dot. -/
def splitExtension (name : String) : String × Option String :=
  let parts := splitOn '.' name.toList
  match parts.getLast?, parts.dropLast with
  | some last, first :: others =>
    let stem := ['.'].intercalate (first :: others)
    if stem.isEmpty then (name, none) else (String.ofList stem, some (String.ofList last))
  | _, _ => (name, none)

/-- The extension in lower case with its dot, or nothing. -/
def extensionOf (path : String) : String :=
  match (fileName? path).bind fun name => (splitExtension name).2 with
  | some e => "." ++ String.ofList (Text.lower e.toList)
  | none => ""

def fileStem? (path : String) : Option String :=
  (fileName? path).map fun name => (splitExtension name).1

end DaxMigration.Storage
