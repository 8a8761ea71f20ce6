import DaxMigration.Formula.Block
import DaxMigration.Formula.Nesting

/-!
# Recognizing constructs

A level-of-detail block runs from a curly bracket to the one that closes it. A conditional runs from
its first word to the `END` of the same nesting: keywords count only outside brackets, and an inner
conditional is passed over with its own keywords. A call is a name with a parenthesis that closes.
-/

namespace DaxMigration.Formula

def tokenAt (ls : List Lexeme) (i : Nat) : Option Token :=
  ls[i]?.map Lexeme.token

/-! ## Level of detail -/

/-- Keyword and dimensions, from the lexemes between the opening bracket and the colon. Without
any the block is fixed to the whole table. -/
def lodHead (ls : List Lexeme) (s : Span) : LodKeyword × List Span :=
  match nextSignificant ls s.start with
  | none => (.fixed, [])
  | some i =>
    if s.stop ≤ i then (.fixed, [])
    else
      match tokenAt ls i with
      | some (.identifier name) => (.ofName name, splitTopLevel ls ⟨i + 1, s.stop⟩)
      | _ => (.other (render (s.slice ls)), [])

def parseLod (ls : List Lexeme) (start : Nat) : Except BlockError LodBlock :=
  match matchingClose ls start with
  | none => .error .unclosedLod
  | some close =>
    if tokenAt ls close ≠ some .rbrace then .error .unclosedLod
    else
      let body : Span := ⟨start + 1, close⟩
      match topLevel (· == .colon) ls body with
      | [] =>
        if isFilled ls body then .ok ⟨⟨start, close + 1⟩, .fixed, [], body⟩ else .error .emptyLod
      | colon :: _ =>
        let inner : Span := ⟨colon + 1, close⟩
        if isFilled ls inner then
          let (keyword, dimensions) := lodHead ls ⟨start + 1, colon⟩
          .ok ⟨⟨start, close + 1⟩, keyword, dimensions.filter (isFilled ls), inner⟩
        else .error .lodWithoutExpression

def lodAt? (ls : List Lexeme) (i : Nat) : Option LodBlock :=
  if tokenAt ls i = some .lbrace then (parseLod ls i).toOption else none

def lodBlocks (ls : List Lexeme) : List LodBlock :=
  outermost (lodAt? ls) (·.span.stop) ls.length

/-! ## Conditionals -/

/-- What a token means to the search for keywords. -/
inductive Role where
  | opens
  | closes
  /-- The first word of an inner conditional. -/
  | begins
  | keyword (k : Keyword)
  | plain
deriving DecidableEq

def roleOf (t : Token) : Role :=
  if t.opens then .opens
  else if t.closes then .closes
  else
    match t with
    | .identifier name =>
      if name = "IF".toList || name = "CASE".toList then .begins
      else
        match Keyword.ofName? name with
        | some k => .keyword k
        | none => .plain
    | _ => .plain

structure Mark where
  keyword : Keyword
  position : Nat
deriving DecidableEq

/-- The keywords of one conditional in order, and what is wrong if they do not suffice. -/
structure Outline where
  marks : List Mark
  failure : BlockError

def Outline.push (m : Mark) (o : Outline) : Outline :=
  ⟨m :: o.marks, o.failure⟩

/-- The outline of a list that starts at position `i`, inside `depth` brackets and `nested` inner
conditionals. -/
def outlineFrom : (depth nested i : Nat) → List Lexeme → Outline
  | _, _, _, [] => ⟨[], .withoutEnd⟩
  | depth, nested, i, l :: rest =>
    match roleOf l.token with
    | .opens => outlineFrom (depth + 1) nested (i + 1) rest
    | .closes =>
      match depth with
      | 0 => ⟨[], .unbalanced⟩
      | depth + 1 => outlineFrom depth nested (i + 1) rest
    | .begins =>
      if depth = 0 then outlineFrom depth (nested + 1) (i + 1) rest
      else outlineFrom depth nested (i + 1) rest
    | .keyword k =>
      if depth = 0 then
        if nested = 0 then (outlineFrom depth nested (i + 1) rest).push ⟨k, i⟩
        else if k = .endWord then outlineFrom depth (nested - 1) (i + 1) rest
        else outlineFrom depth nested (i + 1) rest
      else outlineFrom depth nested (i + 1) rest
    | .plain => outlineFrom depth nested (i + 1) rest

def outline (ls : List Lexeme) (start : Nat) : Outline :=
  outlineFrom 0 0 start (ls.drop start)

/-- The keyword that opens a further branch. -/
def Form.again : Form → Keyword
  | .ifForm => .elseifWord
  | .caseForm => .whenWord

def require (ls : List Lexeme) (part : Part) (s : Span) : Except BlockError Unit :=
  if isFilled ls s then .ok () else .error (.missing part)

/-- The fallback from `start` up to `END`, with the position of the latter. -/
def readFallback (ls : List Lexeme) (form : Form) (failure : BlockError) (start : Nat) :
    List Mark → Except BlockError (Span × Nat)
  | [] => .error failure
  | m :: _ =>
    if m.keyword = .endWord then do
      require ls .fallback ⟨start, m.position⟩
      return (⟨start, m.position⟩, m.position)
    else .error (.unexpected m.keyword m.position form)

/-- The branches from `start` on, with the position of `END`. -/
def readClauses (ls : List Lexeme) (form : Form) (failure : BlockError) (start : Nat) :
    List Mark → Except BlockError (Clauses × Nat)
  | [] => .error failure
  | m :: marks => do
    if m.keyword ≠ .thenWord then .error (.unexpected m.keyword m.position form)
    let condition : Span := ⟨start, m.position⟩
    require ls (.condition form) condition
    match marks with
    | [] => .error failure
    | n :: marks =>
      let value : Span := ⟨m.position + 1, n.position⟩
      if n.keyword = form.again then
        require ls (.value form) value
        let (c, stop) ← readClauses ls form failure (n.position + 1) marks
        return (⟨⟨condition, value⟩, c.branches, c.otherwise⟩, stop)
      else if n.keyword = .elseWord then
        require ls (.value form) value
        let (otherwise, stop) ← readFallback ls form failure (n.position + 1) marks
        return (⟨⟨condition, value⟩, [], some otherwise⟩, stop)
      else if n.keyword = .endWord then
        require ls (.value form) value
        return (⟨⟨condition, value⟩, [], none⟩, n.position)
      else .error (.unexpected n.keyword n.position form)

def parseIf (ls : List Lexeme) (start : Nat) : Except BlockError Conditional := do
  let o := outline ls (start + 1)
  let (clauses, stop) ← readClauses ls .ifForm o.failure (start + 1) o.marks
  return .ifBlock ⟨start, stop + 1⟩ clauses

def parseCase (ls : List Lexeme) (start : Nat) : Except BlockError Conditional := do
  let o := outline ls (start + 1)
  match o.marks with
  | [] => .error o.failure
  | m :: marks =>
    if m.keyword = .whenWord then
      let subject : Span := ⟨start + 1, m.position⟩
      require ls .subject subject
      let (clauses, stop) ← readClauses ls .caseForm o.failure (m.position + 1) marks
      return .caseBlock ⟨start, stop + 1⟩ subject clauses
    else .error (.unexpected m.keyword m.position .caseForm)

def conditionalAt? (ls : List Lexeme) (i : Nat) : Option Conditional :=
  match tokenAt ls i with
  | some t =>
    if t.isWord "IF" then (parseIf ls i).toOption
    else if t.isWord "CASE" then (parseCase ls i).toOption
    else none
  | none => none

def conditionals (ls : List Lexeme) : List Conditional :=
  outermost (conditionalAt? ls) (·.span.stop) ls.length

/-! ## Calls -/

def parseCall (ls : List Lexeme) (start : Nat) : Except BlockError Call :=
  match tokenAt ls start with
  | some (.identifier name) =>
    if isCallAt ls start then
      let opening := (nextSignificant ls (start + 1)).getD (start + 1)
      match matchingClose ls opening with
      | some close =>
        if tokenAt ls close = some .rparen then
          .ok ⟨⟨start, close + 1⟩, name, splitTopLevel ls ⟨opening + 1, close⟩⟩
        else .error (.unclosedCall name)
      | none => .error (.unclosedCall name)
    else .error (.withoutParen name)
  | found => .error (.notName found)

def callAt? (wanted : List Char → Bool) (ls : List Lexeme) (i : Nat) : Option Call :=
  match tokenAt ls i with
  | some (.identifier name) => if wanted name then (parseCall ls i).toOption else none
  | _ => none

def calls (wanted : List Char → Bool) (ls : List Lexeme) : List Call :=
  outermost (callAt? wanted ls) (·.span.stop) ls.length

end DaxMigration.Formula
