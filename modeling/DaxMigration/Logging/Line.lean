import DaxMigration.Text.Case

/-!
# Log lines

What is said about the progress of a run, with the part of the program that says it.
-/

namespace DaxMigration.Logging

inductive Level where
  | error
  | warn
  | info
  | debug
  | trace
deriving DecidableEq

namespace Level

def name : Level → String
  | error => "ERROR"
  | warn => "WARN"
  | info => "INFO"
  | debug => "DEBUG"
  | trace => "TRACE"

/-- Higher levels say more. -/
def rank : Level → Nat
  | error => 1
  | warn => 2
  | info => 3
  | debug => 4
  | trace => 5

def all : List Level :=
  [error, warn, info, debug, trace]

def ofName? (name : String) : Option Level :=
  all.find? fun l => Text.equalAsciiCase l.name.toList name.toList

end Level

/-- The least urgent level that is shown; none at all when off. -/
structure Verbosity where
  level : Option Level
deriving DecidableEq

namespace Verbosity

def name (v : Verbosity) : String :=
  (v.level.map Level.name).getD "OFF"

def shows (v : Verbosity) (l : Level) : Bool :=
  v.level.any fun most => l.rank ≤ most.rank

def ofText (text : String) : Except String Verbosity :=
  let word := String.ofList (Text.lower text.toList)
  if word = "warning" then .ok ⟨some .warn⟩
  else if word = "off" then .ok ⟨none⟩
  else
    match Level.all.find? fun l => String.ofList (Text.lower l.name.toList) == word with
    | some l => .ok ⟨some l⟩
    | none => .error ("Unknown verbosity: " ++ word)

end Verbosity

structure Line where
  level : Level
  target : String
  message : String
deriving DecidableEq

namespace Line

def text (l : Line) : String :=
  l.level.name ++ "|" ++ l.target ++ "|" ++ l.message

def numbered (n : Nat) (l : Line) : String :=
  toString n ++ "|" ++ l.text

end Line

/-- The lines that are shown, numbered from one. -/
def Verbosity.render (v : Verbosity) (lines : List Line) : List String :=
  ((lines.filter fun l => v.shows l.level).zipIdx 1).map fun (l, n) => l.numbered n

end DaxMigration.Logging
