import DaxMigration.Formula.Lexer
import DaxMigration.Formula.Recognize

/-!
# Kinds of formulas

A formula is of the first kind it shows signs of: a level-of-detail block, then a conditional, then
a call of a table calculation, and otherwise standard. Its facts hold for every kind: the functions
it calls, its fields and its literals.
-/

namespace DaxMigration.Formula

open Text

/-- Functions whose value depends on the order of the rows around. -/
inductive TableCalc where
  | rank
  | runningSum
  | runningAvg
  | windowSum
  | windowAvg
  | lookup
  | previousValue
deriving DecidableEq

namespace TableCalc

def name : TableCalc → String
  | rank => "RANK"
  | runningSum => "RUNNING_SUM"
  | runningAvg => "RUNNING_AVG"
  | windowSum => "WINDOW_SUM"
  | windowAvg => "WINDOW_AVG"
  | lookup => "LOOKUP"
  | previousValue => "PREVIOUS_VALUE"

/-- In the order in which a formula is searched for them. -/
def all : List TableCalc :=
  [rank, runningSum, runningAvg, windowSum, windowAvg, lookup, previousValue]

def ofName? (name : List Char) : Option TableCalc :=
  all.find? fun f => f.name.toList == name

end TableCalc

inductive Kind where
  | standard
  /-- What the first level-of-detail block says. -/
  | lod (keyword : LodKeyword) (dimensions : List (List Char)) (inner : List Char)
  | tableCalc (function : TableCalc)
  | conditional (form : Form)
deriving DecidableEq

def Kind.name : Kind → String
  | standard => "standard"
  | lod _ _ _ => "lod_expression"
  | tableCalc _ => "table_calculation"
  | conditional _ => "conditional"

def dimensionName (ls : List Lexeme) (s : Span) : List Char :=
  match (s.slice ls).filter fun l => !l.isComment with
  | [⟨.field name, _, _⟩] => name
  | _ => stripBoth (fun c => c == '[' || c == ']') (render (s.slice ls))

/-- The names called anywhere, left to right. -/
def calledNames : List Lexeme → List (List Char)
  | [] => []
  | l :: rest =>
    match l.token with
    | .identifier name =>
      if followedByParen rest then name :: calledNames rest else calledNames rest
    | _ => calledNames rest

def classify (ls : List Lexeme) : Kind :=
  match (lodBlocks ls).head? with
  | some b => .lod b.keyword (b.dimensions.map (dimensionName ls)) (render (b.inner.slice ls))
  | none =>
    match (conditionals ls).head? with
    | some c => .conditional c.form
    | none =>
      match TableCalc.all.find? fun f => (calledNames ls).contains f.name.toList with
      | some f => .tableCalc f
      | none => .standard

structure Facts where
  /-- Functions called, without repeats. -/
  functions : List (List Char)
  /-- Fields referred to, without repeats. -/
  fields : List (List Char)
  strings : List (List Char)
  numbers : List (List Char)

def fieldName? : Token → Option (List Char)
  | .field name => some name
  | _ => none

def stringContent? : Token → Option (List Char)
  | .string s | .singleQuoted s => some s
  | _ => none

def numberDigits? : Token → Option (List Char)
  | .number digits => some digits
  | _ => none

def facts (ls : List Lexeme) : Facts where
  functions := (calledNames ls).eraseDups
  fields := (ls.filterMap (fieldName? ·.token)).eraseDups
  strings := ls.filterMap (stringContent? ·.token)
  numbers := ls.filterMap (numberDigits? ·.token)

end DaxMigration.Formula
