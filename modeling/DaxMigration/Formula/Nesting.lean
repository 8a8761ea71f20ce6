import DaxMigration.Formula.Span
import DaxMigration.Formula.Token

/-!
# Nesting of delimiters

Round and curly brackets nest in one another and are counted together. A closing bracket is matched
by depth alone; outside all brackets a stray one is passed over where a list is split and ends the
search where a match is sought.
-/

namespace DaxMigration.Formula

/-- Position of the first lexeme at or after `i` that is no comment. -/
def nextSignificant (ls : List Lexeme) (i : Nat) : Option Nat :=
  let j := i + ((ls.drop i).takeWhile Lexeme.isComment).length
  if j < ls.length then some j else none

/-- The span holds something besides comments. -/
def isFilled (ls : List Lexeme) (s : Span) : Bool :=
  (s.slice ls).any fun l => !l.isComment

def followedByParen (rest : List Lexeme) : Bool :=
  ((rest.dropWhile Lexeme.isComment).head?.map Lexeme.token) == some .lparen

/-- An identifier stands at `i`, and the next lexeme besides comments is an opening parenthesis. -/
def isCallAt (ls : List Lexeme) (i : Nat) : Bool :=
  match ls.drop i with
  | l :: rest => l.token.isIdentifier && followedByParen rest
  | [] => false

/-- Position of the bracket that brings the depth back to zero, where the list starts at position
`i` and depth `depth`. -/
def closeFrom : (depth i : Nat) → List Lexeme → Option Nat
  | _, _, [] => none
  | depth, i, l :: rest =>
    if l.token.opens then closeFrom (depth + 1) (i + 1) rest
    else if l.token.closes then
      match depth with
      | 0 => none
      | 1 => some i
      | depth + 2 => closeFrom (depth + 1) (i + 1) rest
    else closeFrom depth (i + 1) rest

def matchingClose (ls : List Lexeme) (i : Nat) : Option Nat :=
  closeFrom 0 i (ls.drop i)

/-- Positions of the tokens that satisfy `p` outside all brackets opened before them. -/
def topLevelFrom (p : Token → Bool) : (depth i : Nat) → List Lexeme → List Nat
  | _, _, [] => []
  | depth, i, l :: rest =>
    if l.token.opens then topLevelFrom p (depth + 1) (i + 1) rest
    else if l.token.closes then topLevelFrom p (depth - 1) (i + 1) rest
    else if depth = 0 && p l.token then i :: topLevelFrom p depth (i + 1) rest
    else topLevelFrom p depth (i + 1) rest

def topLevel (p : Token → Bool) (ls : List Lexeme) (s : Span) : List Nat :=
  topLevelFrom p 0 s.start (s.slice ls)

/-- The spans between separators, the separators left out. -/
def pieces (start stop : Nat) : List Nat → List Span
  | [] => [⟨start, stop⟩]
  | i :: rest => ⟨start, i⟩ :: pieces (i + 1) stop rest

/-- The span cut at its commas outside brackets. A span of comments only has no pieces. -/
def splitTopLevel (ls : List Lexeme) (s : Span) : List Span :=
  if isFilled ls s then pieces s.start s.stop (topLevel (· == .comma) ls s) else []

@[simp]
theorem isFilled_iff {ls : List Lexeme} {s : Span} :
    isFilled ls s = true ↔ ∃ l ∈ s.slice ls, l.isComment = false := by
  simp [isFilled]

theorem length_pieces (start stop : Nat) (seps : List Nat) :
    (pieces start stop seps).length = seps.length + 1 := by
  induction seps generalizing start with
  | nil => rfl
  | cons i rest ih => simp [pieces, ih]

theorem closeFrom_bounds {depth i j : Nat} {ls : List Lexeme} (h : closeFrom depth i ls = some j) :
    i ≤ j ∧ j < i + ls.length := by
  fun_induction closeFrom depth i ls with
  | case1 => simp at h
  | case2 _ _ _ _ _ ih => have := ih h; simp; omega
  | case3 => simp at h
  | case4 => simp_all
  | case5 _ _ _ _ _ _ ih => have := ih h; simp; omega
  | case6 _ _ _ _ _ _ ih => have := ih h; simp; omega

theorem matchingClose_bounds {ls : List Lexeme} {i j : Nat} (h : matchingClose ls i = some j) :
    i ≤ j ∧ j < ls.length := by
  have := closeFrom_bounds h
  simp only [List.length_drop] at this
  omega

end DaxMigration.Formula
