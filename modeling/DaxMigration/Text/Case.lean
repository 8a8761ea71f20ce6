import DaxMigration.Text.CaseTable
import DaxMigration.Text.CaseContext

/-!
# Letter case

Full upper and lower case, where one character may become several, and comparison up to the case
of ASCII letters. Lower case is the one map that looks around: a capital sigma at the end of a word
takes its final form.
-/

namespace DaxMigration.Text

def runImage? (runs : List CaseRun) (n : Nat) : Option Nat :=
  runs.findSome? (·.image? n)

def mapCase (runs : List CaseRun) (expansions : List (Nat × List Nat)) (c : Char) : List Char :=
  match runImage? runs c.toNat with
  | some n => [Char.ofNat n]
  | none =>
    match expansions.lookup c.toNat with
    | some ns => ns.map Char.ofNat
    | none => [c]

def upperChar (c : Char) : List Char :=
  if c.toNat < 0x80 then [c.toUpper] else mapCase upperRuns upperExpansions c

def upper (cs : List Char) : List Char :=
  cs.flatMap upperChar

def lowerChar (c : Char) : List Char :=
  if c.toNat < 0x80 then [c.toLower] else mapCase lowerRuns lowerExpansions c

/-- A sigma ends its word when a cased character stands before it and none after it, the
case-ignorable characters in between not counting. -/
def endsWord (before after : List Char) : Bool :=
  ((before.dropWhile isCaseIgnorable).head?.any isCased) &&
    !((after.dropWhile isCaseIgnorable).head?.any isCased)

/-- Lower case of `cs`, where `before` is the text in front of it, last character first. -/
def lowerAfter (before : List Char) : List Char → List Char
  | [] => []
  | c :: rest =>
    (if c = 'Σ' then [if endsWord before rest then 'ς' else 'σ'] else lowerChar c) ++
      lowerAfter (c :: before) rest

def lower (cs : List Char) : List Char :=
  lowerAfter [] cs

def equalAsciiCase (a b : List Char) : Bool :=
  a.map Char.toLower == b.map Char.toLower

theorem equalAsciiCase_iff {a b : List Char} :
    equalAsciiCase a b = true ↔ a.map Char.toLower = b.map Char.toLower := by
  simp [equalAsciiCase]

end DaxMigration.Text
