import DaxMigration.Formula.Span
import DaxMigration.Formula.Token

/-!
# Constructs of a formula

Level-of-detail blocks, conditionals and calls, given by the spans of their parts, and the reasons
why a construct is not recognized.
-/

namespace DaxMigration.Formula

open Text

inductive LodKeyword where
  | fixed
  | including
  | excluding
  /-- Anything else that stands where the keyword belongs. -/
  | other (text : List Char)
deriving DecidableEq

namespace LodKeyword

def ofName (name : List Char) : LodKeyword :=
  if name = "FIXED".toList then fixed
  else if name = "INCLUDE".toList then including
  else if name = "EXCLUDE".toList then excluding
  else other name

def spelling : LodKeyword → List Char
  | fixed => "FIXED".toList
  | including => "INCLUDE".toList
  | excluding => "EXCLUDE".toList
  | other text => text

theorem spelling_ofName (name : List Char) : (ofName name).spelling = name := by
  unfold ofName
  split
  next h => exact h.symm
  split
  next h => exact h.symm
  split
  next h => exact h.symm
  rfl

end LodKeyword

/-- A block in curly brackets: a keyword with dimensions, a colon, and the expression inside. -/
structure LodBlock where
  span : Span
  keyword : LodKeyword
  dimensions : List Span
  inner : Span
deriving DecidableEq

structure Branch where
  condition : Span
  value : Span
deriving DecidableEq

/-- The branches of a conditional, of which there is at least one, and its fallback. -/
structure Clauses where
  first : Branch
  others : List Branch
  otherwise : Option Span
deriving DecidableEq

def Clauses.branches (c : Clauses) : List Branch :=
  c.first :: c.others

inductive Form where
  | ifForm
  | caseForm
deriving DecidableEq

inductive Conditional where
  | ifBlock (span : Span) (clauses : Clauses)
  | caseBlock (span subject : Span) (clauses : Clauses)
deriving DecidableEq

namespace Conditional

def span : Conditional → Span
  | ifBlock span _ => span
  | caseBlock span _ _ => span

def clauses : Conditional → Clauses
  | ifBlock _ clauses => clauses
  | caseBlock _ _ clauses => clauses

def form : Conditional → Form
  | ifBlock _ _ => .ifForm
  | caseBlock _ _ _ => .caseForm

def isMultiBranch (c : Conditional) : Bool :=
  !c.clauses.others.isEmpty

end Conditional

structure Call where
  span : Span
  name : List Char
  args : List Span
deriving DecidableEq

inductive Keyword where
  | thenWord
  | elseifWord
  | elseWord
  | whenWord
  | endWord
deriving DecidableEq

namespace Keyword

def spelling : Keyword → String
  | thenWord => "THEN"
  | elseifWord => "ELSEIF"
  | elseWord => "ELSE"
  | whenWord => "WHEN"
  | endWord => "END"

def all : List Keyword :=
  [thenWord, elseifWord, elseWord, whenWord, endWord]

def ofName? (name : List Char) : Option Keyword :=
  all.find? fun k => k.spelling.toList == name

end Keyword

/-- A part of a conditional that must hold something besides comments. -/
inductive Part where
  | subject
  | condition (form : Form)
  | value (form : Form)
  | fallback
deriving DecidableEq

inductive BlockError where
  | unclosedLod
  | emptyLod
  | lodWithoutExpression
  | missing (part : Part)
  | unexpected (keyword : Keyword) (position : Nat) (form : Form)
  | unbalanced
  | withoutEnd
  /-- A call was sought where this token stands, or at the end of the formula. -/
  | notName (found : Option Token)
  | withoutParen (name : List Char)
  | unclosedCall (name : List Char)
deriving DecidableEq

def Form.name : Form → String
  | .ifForm => "IF"
  | .caseForm => "CASE"

def Part.name : Part → String
  | .subject => "CASE subject"
  | .condition .ifForm => "IF condition"
  | .condition .caseForm => "WHEN value"
  | .value .ifForm => "THEN value"
  | .value .caseForm => "THEN result"
  | .fallback => "ELSE value"

def BlockError.reason : BlockError → String
  | unclosedLod => "Unclosed level-of-detail block"
  | emptyLod => "Empty level-of-detail block"
  | lodWithoutExpression => "Level-of-detail block has no expression"
  | missing part => "Missing " ++ part.name
  | unexpected keyword position form =>
    "Unexpected " ++ keyword.spelling ++ " at position " ++ toString position ++ " in " ++
      form.name ++ " block"
  | unbalanced => "Unbalanced delimiter inside block"
  | withoutEnd => "Block is missing END"
  | notName found =>
    "Expected function name, found " ++ (found.map (String.ofList ·.describe)).getD "EOF"
  | withoutParen name => "Expected '(' after " ++ String.ofList name
  | unclosedCall name => "Unclosed call to " ++ String.ofList name

def BlockError.message (e : BlockError) : String :=
  "Parse error: " ++ e.reason

end DaxMigration.Formula
