import DaxMigration.Formula.Group
import DaxMigration.Text.Blank

/-!
# Division

Every quotient `a / b` with both operands becomes the call `DIVIDE(a, b, 0)`, inside brackets as
well. An operand is a run of lexemes between operators; a term is a run of operands joined by the
operators of one precedence, which associate to the left; and a term ends where an operator binds
looser.
-/

namespace DaxMigration.Dax

open Formula Text

inductive UnitKind where
  | operand
  | boundary
  | multiply
  | divide
deriving DecidableEq

/-- A lexeme, or a whole group, already converted inside. -/
structure TermUnit where
  leading : List Char
  text : List Char
  kind : UnitKind
deriving DecidableEq

namespace TermUnit

def written (u : TermUnit) : List Char :=
  u.leading ++ u.text

def isBoundary (u : TermUnit) : Bool :=
  u.kind == .boundary

def isOperator (u : TermUnit) : Bool :=
  u.kind == .multiply || u.kind == .divide

def isDivide (u : TermUnit) : Bool :=
  u.kind == .divide

end TermUnit

def join (us : List TermUnit) : List Char :=
  us.flatMap TermUnit.written

/-- What a token is to the term around it, given the kind of the last unit besides comments. A sign
that opens an operand binds tighter than the operators, and so does a negation after one. -/
def unitKind (previous : Option UnitKind) (t : Token) : UnitKind :=
  let afterOperator := previous == some .multiply || previous == some .divide
  match t with
  | .slash => .divide
  | .asterisk | .percent => .multiply
  | .comment _ => .boundary
  | .plus | .minus =>
    if afterOperator || previous == none || previous == some .boundary then .operand
    else .boundary
  | t =>
    if afterOperator && t.isWord "NOT" then .operand
    else if t.isDivisionBoundary then .boundary
    else .operand

/-- The list cut at the elements that satisfy `p`: what comes before the first of them, and each of
them with what follows it. -/
def cutAt (p : TermUnit → Bool) :
    List TermUnit → List TermUnit × List (TermUnit × List TermUnit)
  | [] => ([], [])
  | u :: us =>
    let (before, parts) := cutAt p us
    if p u then ([], (u, before) :: parts) else (u :: before, parts)

/-- One more operator with its right operand. A quotient that lacks an operand stays as it is. -/
def applyOperator (acc : List Char) (operator : TermUnit) (factor : List TermUnit) : List Char :=
  let rhs := join factor
  if operator.isDivide && !acc.isEmpty && !(trim rhs).isEmpty then
    "DIVIDE(".toList ++ acc ++ ", ".toList ++ trim rhs ++ ", 0)".toList
  else acc ++ operator.written ++ rhs

def foldTerm (term : List TermUnit) : List Char :=
  if term.any TermUnit.isDivide then
    let (first, factors) := cutAt TermUnit.isOperator term
    let leading := (first.head?.map TermUnit.leading).getD []
    leading ++ factors.foldl (fun acc f => applyOperator acc f.1 f.2) (trim (join first))
  else join term

def foldTerms (us : List TermUnit) : List Char :=
  let (first, parts) := cutAt TermUnit.isBoundary us
  foldTerm first ++ parts.flatMap fun p => p.1.written ++ foldTerm p.2

/-- The kind of the last unit besides comments, after a piece. -/
def kindAfter (previous : Option UnitKind) : Piece → Option UnitKind
  | .leaf l => if l.isComment then previous else some (unitKind previous l.token)
  | .group _ _ _ => some .operand

mutual

def unitOf (previous : Option UnitKind) : Piece → TermUnit
  | .leaf l => ⟨l.leading, l.text, unitKind previous l.token⟩
  | .group opening inner closing =>
    ⟨opening.leading, opening.text ++ foldTerms (units none inner) ++ closing.written, .operand⟩

def units (previous : Option UnitKind) : List Piece → List TermUnit
  | [] => []
  | p :: rest => unitOf previous p :: units (kindAfter previous p) rest

end

def convertDivision (ls : List Lexeme) : List Char :=
  foldTerms (units none (group ls))

theorem join_cutAt (p : TermUnit → Bool) (us : List TermUnit) :
    join (cutAt p us).1 ++ (cutAt p us).2.flatMap (fun q => q.1.written ++ join q.2) = join us := by
  induction us with
  | nil => rfl
  | cons u us ih =>
    by_cases h : p u <;> simp_all [cutAt, join]

/-- What holds of the elements of a list holds of the elements of its parts. -/
theorem forall_cutAt {P : TermUnit → Prop} (p : TermUnit → Bool) {us : List TermUnit}
    (h : ∀ u ∈ us, P u) :
    (∀ u ∈ (cutAt p us).1, P u) ∧ ∀ q ∈ (cutAt p us).2, P q.1 ∧ ∀ u ∈ q.2, P u := by
  induction us with
  | nil => simp [cutAt]
  | cons u us ih =>
    obtain ⟨hFirst, hRest⟩ := List.forall_mem_cons.1 h
    obtain ⟨hBefore, hParts⟩ := ih hRest
    cases hCut : p u with
    | true =>
      simp only [cutAt, hCut, if_true]
      exact ⟨by simp, List.forall_mem_cons.2 ⟨⟨hFirst, hBefore⟩, hParts⟩⟩
    | false =>
      simp only [cutAt, hCut, Bool.false_eq_true, if_false]
      exact ⟨List.forall_mem_cons.2 ⟨hFirst, hBefore⟩, hParts⟩

end DaxMigration.Dax
