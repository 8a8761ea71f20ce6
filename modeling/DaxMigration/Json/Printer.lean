import DaxMigration.Json.Basic
import DaxMigration.Text.Quoted

/-!
# Writing JSON

A compact form on one line and an indented form with one item on each line and two spaces for each
level. An empty array or object is written without a line of its own in both.
-/

namespace DaxMigration.Json

open Text

/-- A control character in the shortest escape it has. -/
def escapeChar (c : Char) : List Char :=
  if c = '"' || c = '\\' then ['\\', c]
  else if c.toNat = 0x08 then ['\\', 'b']
  else if c.toNat = 0x09 then ['\\', 't']
  else if c.toNat = 0x0A then ['\\', 'n']
  else if c.toNat = 0x0C then ['\\', 'f']
  else if c.toNat = 0x0D then ['\\', 'r']
  else if c.toNat < 0x20 then
    ['\\', 'u', '0', '0', hexDigit (c.toNat / 16), hexDigit (c.toNat % 16)]
  else [c]

def quoted (s : String) : String :=
  String.ofList ('"' :: s.toList.flatMap escapeChar ++ ['"'])

def floatText (x : Decimal.Binary64) : String :=
  x.text?.getD "null"

mutual

def compact : Json → String
  | null => "null"
  | bool true => "true"
  | bool false => "false"
  | integer n => toString n
  | float x => floatText x
  | string s => quoted s
  | array items => "[" ++ ",".intercalate (compactItems items) ++ "]"
  | object members => "\x7b" ++ ",".intercalate (compactMembers members) ++ "\x7d"

def compactItems : List Json → List String
  | [] => []
  | j :: rest => compact j :: compactItems rest

def compactMembers : List (String × Json) → List String
  | [] => []
  | (k, j) :: rest => (quoted k ++ ":" ++ compact j) :: compactMembers rest

end

def indent (level : Nat) : String :=
  String.ofList (List.replicate (2 * level) ' ')

def block (level : Nat) (opening closing : String) (items : List String) : String :=
  if items.isEmpty then opening ++ closing
  else
    let line := "\n" ++ indent (level + 1)
    opening ++ line ++ ("," ++ line).intercalate items ++ "\n" ++ indent level ++ closing

mutual

def prettyAt (level : Nat) : Json → String
  | array items => block level "[" "]" (prettyItems (level + 1) items)
  | object members => block level "\x7b" "\x7d" (prettyMembers (level + 1) members)
  | j => compact j

def prettyItems (level : Nat) : List Json → List String
  | [] => []
  | j :: rest => prettyAt level j :: prettyItems level rest

def prettyMembers (level : Nat) : List (String × Json) → List String
  | [] => []
  | (k, j) :: rest => (quoted k ++ ": " ++ prettyAt level j) :: prettyMembers level rest

end

def pretty (j : Json) : String :=
  prettyAt 0 j

end DaxMigration.Json
