import DaxMigration.Dax.Division
import DaxMigration.Dax.Reference
import DaxMigration.Formula.Nesting

/-!
# Standard rules

The rules that every formula goes through: functions take their DAX names, operators and literals
their DAX spelling, bare fields a table, and quotients become calls. Spliced text is left alone.
-/

namespace DaxMigration.Dax

open Formula Text

/-- Functions that converted text calls of its own accord. -/
def generatedFunctions : List String :=
  ["ALL", "ALLEXCEPT", "ALLSELECTED", "AVERAGE", "CALCULATE", "DISTINCTCOUNT", "DIVIDE", "EARLIER",
    "FILTER", "IF", "MOD", "OFFSET", "ORDERBY", "RANKX", "SWITCH", "VALUES"]

def isGenerated (name : List Char) : Bool :=
  generatedFunctions.any (·.toList == name)

/-- The name with which a lexeme in front of `rest` calls a function. -/
def calledName? (l : Lexeme) (rest : List Lexeme) : Option (List Char) :=
  match l.token with
  | .identifier name => if followedByParen rest then some name else none
  | _ => none

def mapFunctions (t : Target) : List Lexeme → List Lexeme
  | [] => []
  | l :: rest =>
    match (calledName? l rest).bind t.function? with
    | some text => { l with text } :: mapFunctions t rest
    | none => l :: mapFunctions t rest

/-- Functions called that the target does not have, in order and with repeats. -/
def unsupportedCalls (t : Target) : List Lexeme → List (List Char)
  | [] => []
  | l :: rest =>
    match calledName? l rest with
    | some name =>
      if (t.function? name).isNone && !isGenerated name then name :: unsupportedCalls t rest
      else unsupportedCalls t rest
    | none => unsupportedCalls t rest

/-- Text in single quotes names a table when a field follows it without white space. -/
def namesTable (rest : List Lexeme) : Bool :=
  match rest with
  | next :: _ => next.isAttached && next.token.isField
  | [] => false

/-- DAX spelling of operators and literals. -/
def normalize : List Lexeme → List Lexeme
  | [] => []
  | l :: rest =>
    (match l.token with
      | .notEqual => { l with text := ['<', '>'] }
      | .doubleEquals => { l with token := .equals, text := ['='] }
      | .singleQuoted s =>
        if namesTable rest then l
        else { l with token := .string s, text := '"' :: double '"' s ++ ['"'] }
      | _ => l) :: normalize rest

/-- A field directly after this token belongs to the table that the token names. -/
def isTableName : Token → Bool
  | .identifier _ | .singleQuoted _ => true
  | _ => false

/-- Gives every bare field the target's table; `previous` is the token in front. -/
def qualify (t : Target) (previous : Option Token) : List Lexeme → List Lexeme
  | [] => []
  | l :: rest =>
    (match l.token with
      | .field name =>
        if l.isAttached && previous.any isTableName then l else { l with text := t.column name }
      | _ => l) :: qualify t (some l.token) rest

def qualified (t : Target) (ls : List Lexeme) : List Char :=
  render (qualify t none (normalize ls))

def standard (t : Target) (ls : List Lexeme) : List Char :=
  trim (convertDivision (qualify t none (normalize (mapFunctions t ls))))

end DaxMigration.Dax
