import DaxMigration.Dax.Standard
import DaxMigration.Formula.Kind

/-!
# Splicing constructs

Level-of-detail blocks, conditionals and table calculations are converted from the inside out, and
each is replaced in place by its text. The number of levels is bounded: a conversion fails exactly
when it would enter one level too many.
-/

namespace DaxMigration.Dax

open Formula Text

/-- Deepest nesting of constructs of one sort in one another. -/
def maxNesting : Nat := 64

inductive Remark where
  | lodWithoutDimensions (keyword : LodKeyword)
  | unknownLodKeyword (keyword : List Char)
  | withoutEquivalent (function : TableCalc)
  | wrongArity (function : TableCalc) (args : Nat)
  | runningOrder (column : List Char)
  | offsetOrder (column : List Char)
  | nestedBranches (count : Nat)
  | switchArms (count : Nat)
  | unsupported (function : List Char)
deriving DecidableEq

def Remark.text : Remark → String
  | lodWithoutDimensions keyword =>
    String.ofList keyword.spelling ++ " expression without dimensions keeps the view's filter context"
  | unknownLodKeyword keyword =>
    "Unknown LOD keyword '" ++ String.ofList keyword ++
      "': inner expression converted without context"
  | withoutEquivalent function =>
    "Table calculation " ++ function.name ++
      " has no direct DAX equivalent; converted with the standard rules"
  | wrongArity function args =>
    function.name ++ " called with " ++ toString args ++
      " argument(s); converted with the standard rules"
  | runningOrder column => "Running total ordered by " ++ String.ofList column
  | offsetOrder column => "LOOKUP offset evaluated along " ++ String.ofList column
  | nestedBranches count => "IF with " ++ toString count ++ " branches converted to nested IF calls"
  | switchArms count => "CASE with " ++ toString count ++ " WHEN arms converted to one SWITCH"
  | unsupported function => "Unsupported function: " ++ String.ofList function

/-- A conversion that collects remarks, and has no result where constructs nest too deep. -/
abbrev Splicing := StateT (List Remark) Option

def remark {m : Type → Type} [MonadStateOf (List Remark) m] (r : Remark) : m Unit :=
  modify (· ++ [r])

/-- The standard rules, with a remark on each function that the target lacks. -/
def standardRemarked (t : Target) (ls : List Lexeme) : Splicing (List Char) := do
  modify (· ++ (unsupportedCalls t ls).map .unsupported)
  return standard t ls

def commaSeparated (parts : List (List Char)) : List Char :=
  [',', ' '].intercalate parts

def callText (name : String) (args : List (List Char)) : List Char :=
  name.toList ++ '(' :: commaSeparated args ++ [')']

structure Replacement where
  span : Span
  lexemes : List Lexeme

/-- The lexemes from `cursor` on with the replacements, which come in order, made. -/
def replaceFrom (ls : List Lexeme) (cursor : Nat) : List Replacement → List Lexeme
  | [] => ls.drop cursor
  | r :: rest => (Span.mk cursor r.span.start).slice ls ++ r.lexemes ++ replaceFrom ls r.span.stop rest

def replaceSpans (ls : List Lexeme) (rs : List Replacement) : List Lexeme :=
  replaceFrom ls 0 rs

/-- Converted text in place of a span, with the white space in front of the span. -/
def Replacement.verbatim (ls : List Lexeme) (span : Span) (text : List Char) : Replacement :=
  ⟨span, [.verbatim text ((ls[span.start]?.map Lexeme.leading).getD [])]⟩

/-! ## Conditionals -/

-- The texts are made wherever remarks are collected, whatever else may end the conversion of a part.
section Texts

variable {m : Type → Type} [Monad m] [MonadStateOf (List Remark) m]

/-- The call of `IF` for the branches given last first, around the fallback converted already. -/
def nestBranches (branch : Span → m (List Char)) :
    Option (List Char) → List Branch → m (Option (List Char))
  | acc, [] => return acc
  | acc, b :: rest => do
    let condition ← branch b.condition
    let value ← branch b.value
    nestBranches branch (some (callText "IF" ([condition, value] ++ acc.toList))) rest

def armArguments (branch : Span → m (List Char)) :
    List Branch → m (List (List Char))
  | [] => return []
  | b :: rest => do
    let condition ← branch b.condition
    let value ← branch b.value
    return condition :: value :: (← armArguments branch rest)

def optionalBranch (branch : Span → m (List Char)) :
    Option Span → m (Option (List Char))
  | some s => some <$> branch s
  | none => return none

def convertConditional (branch : Span → m (List Char)) :
    Conditional → m (List Char)
  | .ifBlock _ clauses => do
    let otherwise ← optionalBranch branch clauses.otherwise
    let text ← nestBranches branch otherwise clauses.branches.reverse
    if !clauses.others.isEmpty then remark (.nestedBranches clauses.branches.length)
    return text.getD []
  | .caseBlock _ subject clauses => do
    let subject ← branch subject
    let arms ← armArguments branch clauses.branches
    let otherwise ← optionalBranch branch clauses.otherwise
    if !clauses.others.isEmpty then remark (.switchArms clauses.branches.length)
    return callText "SWITCH" (subject :: arms ++ otherwise.toList)

end Texts

/-- Replaces the conditionals, where `room` more levels may be entered. -/
def spliceConditionals (t : Target) : (room : Nat) → List Lexeme → Splicing (List Lexeme)
  | 0, _ => failure
  | room + 1, ls => do
    let branch (s : Span) : Splicing (List Char) := do
      return qualified t (← spliceConditionals t room (s.slice ls))
    let replacements ← (conditionals ls).mapM fun c => do
      return Replacement.verbatim ls c.span (← convertConditional branch c)
    return replaceSpans ls replacements

/-! ## Table calculations -/

/-- The numbers of arguments with which a table calculation is converted. -/
def TableCalc.arities : TableCalc → List Nat
  | .rank => [1, 2]
  | .runningSum => [1]
  | .lookup => [2]
  | _ => []

def asksAscending (ls : List Lexeme) (s : Span) : Bool :=
  (s.slice ls).any fun l => (stringContent? l.token).any fun c => equalAsciiCase c "asc".toList

/-- The text of a table calculation, or none if the call is to be kept. -/
def convertTableCalc {m : Type → Type} [Monad m] [MonadStateOf (List Remark) m] (t : Target)
    (ls : List Lexeme) (argument : Span → m (List Char)) (call : Call) :
    m (Option (List Char)) := do
  match Formula.TableCalc.ofName? call.name with
  | none => return none
  | some function =>
    if (TableCalc.arities function).isEmpty then
      remark (.withoutEquivalent function)
      return none
    if !(TableCalc.arities function).contains call.args.length then
      remark (.wrongArity function call.args.length)
      return none
    match function, call.args with
    | .rank, expression :: order =>
      let e ← argument expression
      let rows := callText "ALL" [t.tableText]
      if order.any (asksAscending ls) then
        return some (callText "RANKX" [rows, e, [], "ASC".toList])
      else return some (callText "RANKX" [rows, e])
    | .runningSum, expression :: _ =>
      let e ← argument expression
      remark (.runningOrder t.orderText)
      let upToHere := t.orderText ++ " <= ".toList ++ callText "EARLIER" [t.orderText]
      return some (callText "CALCULATE"
        [e, callText "FILTER" [callText "ALL" [t.tableText], upToHere]])
    | .lookup, [expression, offset] =>
      let e ← argument expression
      let n ← argument offset
      remark (.offsetOrder t.orderText)
      return some (callText "CALCULATE" [e, callText "OFFSET"
        [n, callText "ALLSELECTED" [t.orderText], callText "ORDERBY" [t.orderText]]])
    | _, _ => return none

/-- Replaces the table calculations, where `room` more levels may be entered. A call that is kept
has those among its arguments replaced. -/
def spliceTableCalcs (t : Target) : (room : Nat) → List Lexeme → Splicing (List Lexeme)
  | 0, _ => failure
  | room + 1, ls => do
    let argument (s : Span) : Splicing (List Char) := do
      standardRemarked t (← spliceTableCalcs t room (s.slice ls))
    let isTableCalc (name : List Char) := (Formula.TableCalc.ofName? name).isSome
    let replacements ← (calls isTableCalc ls).mapM fun call => do
      match ← convertTableCalc t ls argument call with
      | some text => return Replacement.verbatim ls call.span text
      | none =>
        let opening := (nextSignificant ls (call.span.start + 1)).getD (call.span.start + 1)
        let closing := call.span.stop - 1
        let inner ← spliceTableCalcs t room ((Span.mk (opening + 1) closing).slice ls)
        return ⟨call.span, (Span.mk call.span.start (opening + 1)).slice ls ++ inner ++
          (Span.mk closing call.span.stop).slice ls⟩
    return replaceSpans ls replacements

/-! ## Level of detail -/

/-- A level-of-detail block with its inner expression converted already. -/
def convertLod (t : Target) (ls : List Lexeme) (inner : List Char) (b : LodBlock) :
    Splicing (List Char) := do
  let dimensions := b.dimensions.map fun d => t.column (dimensionName ls d)
  let eachIn (filter : String) := dimensions.map fun d => callText filter [d]
  match b.keyword, dimensions with
  | .fixed, [] => return callText "CALCULATE" [inner, callText "ALL" [t.tableText]]
  | .fixed, _ =>
    return callText "CALCULATE" [inner, callText "ALLEXCEPT" (t.tableText :: dimensions)]
  | .including, [] | .excluding, [] => remark (.lodWithoutDimensions b.keyword); return inner
  | .including, _ => return callText "CALCULATE" (inner :: eachIn "VALUES")
  | .excluding, _ => return callText "CALCULATE" (inner :: eachIn "ALL")
  | .other keyword, _ => remark (.unknownLodKeyword keyword); return inner

/-- Replaces the level-of-detail blocks, where `room` more levels may be entered. Inside a block
all three constructs are replaced. -/
def spliceLods (t : Target) : (room : Nat) → List Lexeme → Splicing (List Lexeme)
  | 0, _ => failure
  | room + 1, ls => do
    let replacements ← (lodBlocks ls).mapM fun b => do
      let spliced ← spliceLods t room (b.inner.slice ls)
      let spliced ← spliceConditionals t room spliced
      let spliced ← spliceTableCalcs t room spliced
      let inner ← standardRemarked t spliced
      return Replacement.verbatim ls b.span (← convertLod t ls inner b)
    return replaceSpans ls replacements

/-! ## Whole formulas -/

/-- The text of a formula of the given kind. A conditional goes through spelling and qualification
only, the other kinds through all standard rules. -/
def daxText (t : Target) (kind : Kind) (ls : List Lexeme) : Splicing (List Char) := do
  match kind with
  | .standard => standardRemarked t ls
  | .conditional _ => return qualified t (← spliceConditionals t maxNesting ls)
  | .tableCalc _ => standardRemarked t (← spliceTableCalcs t maxNesting ls)
  | .lod _ _ _ =>
    let spliced ← spliceLods t maxNesting ls
    let spliced ← spliceConditionals t maxNesting spliced
    standardRemarked t (← spliceTableCalcs t maxNesting spliced)

end DaxMigration.Dax
