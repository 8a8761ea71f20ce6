import DaxMigration.Dax.Reference
import DaxMigration.Formula.Kind

/-!
# Verdicts

Structural checks of a DAX text: that it is not blank, that its delimiters balance in number, and
that no single equals sign stands outside all brackets. An unclosed square bracket takes in the rest
of the text, which is then counted as if it stood outside.
-/

namespace DaxMigration.Dax

open Formula Text

inductive Issue where
  | empty
  | unbalancedParens
  | unbalancedBrackets
  | assignment
deriving DecidableEq

def Issue.text : Issue → String
  | empty => "Empty formula"
  | unbalancedParens => "Unbalanced parentheses"
  | unbalancedBrackets => "Unbalanced brackets"
  | assignment => "Assignment operator found - may need to be comparison"

/-- Opening less closing delimiters. -/
structure Tally where
  parens : Int
  brackets : Int
deriving DecidableEq

instance : Add Tally := ⟨fun a b => ⟨a.parens + b.parens, a.brackets + b.brackets⟩⟩

def Tally.zero : Tally := ⟨0, 0⟩

def isClosedField (l : Lexeme) (name : List Char) : Bool :=
  l.text == bracketed name

def tally (cs : List Char) : Tally :=
  (tokenize cs).attach.foldl (fun acc ⟨l, _⟩ =>
    acc + match l.token with
      | .lparen => ⟨1, 0⟩
      | .rparen => ⟨-1, 0⟩
      | .illegal ']' => ⟨0, -1⟩
      | .field name => if isClosedField l name then .zero else ⟨0, 1⟩ + tally l.text.tail
      | _ => .zero) .zero
termination_by cs.length
decreasing_by
  have h := text_of_mem_tokenize ‹l ∈ tokenize cs›
  simp only [List.length_tail]
  omega

/-- A single equals sign stands outside all brackets, and not at the very start. -/
def hasAssignment (cs : List Char) : Bool :=
  (topLevelFrom (· == .equals) 0 0 (tokenize cs)).any (0 < ·)

def issues (cs : List Char) : List Issue :=
  if allBlank cs then [.empty]
  else
    (if (tally cs).parens = 0 then [] else [.unbalancedParens]) ++
      (if (tally cs).brackets = 0 then [] else [.unbalancedBrackets]) ++
      (if hasAssignment cs then [.assignment] else [])

def isValid (cs : List Char) : Bool :=
  (issues cs).isEmpty

theorem isValid_iff {cs : List Char} :
    isValid cs = true ↔ allBlank cs = false ∧ (tally cs).parens = 0 ∧ (tally cs).brackets = 0 ∧
      hasAssignment cs = false := by
  unfold isValid issues
  cases allBlank cs <;> simp

end DaxMigration.Dax
