import DaxMigration.Proofs.Dax.Terms
import DaxMigration.Proofs.Formula.Expression

/-!
# Quotients of an expression

What one pass makes of the tokens of an expression, and when that is the expression with its
quotients made calls. A sign directly after a power or another sign is taken for an operator between
terms, which cuts its operand in two; where the operand belongs to a quotient, the call takes in
only a part of it.
-/

namespace DaxMigration.Formula

/-! ## Quotients as calls -/

def divideWord : List Char := "DIVIDE".toList

def zeroArgs : Args :=
  .last (.term (.operand (.atom (.number ['0']))))

mutual

def Atom.divided : Atom → Atom
  | .call name args => .call name args.divided
  | .group e => .group e.divided
  | .number digits => .number digits
  | .text s => .text s
  | .quoted s => .quoted s
  | .field name => .field name
  | .constant name => .constant name

def Operand.divided : Operand → Operand
  | .atom a => .atom a.divided
  | .signed s x => .signed s x.divided
  | .power a x => .power a.divided x.divided

def Term.divided : Term → Term
  | .operand x => .operand x.divided
  | .product t .over x =>
    .operand (.atom (.call divideWord (.more (.term t.divided)
      (.more (.term (.operand x.divided)) zeroArgs))))
  | .product t op x => .product t.divided op x.divided

def Expr.divided : Expr → Expr
  | .term t => .term t.divided
  | .negation e => .negation e.divided
  | .loose t op e => .loose t.divided op e.divided

def Args.divided : Args → Args
  | .last e => .last e.divided
  | .more e rest => .more e.divided rest.divided

end

/-- Outside brackets, no sign stands directly after a power or another sign. -/
def Operand.isWhole : (atHead : Bool) → Operand → Bool
  | _, .atom _ => true
  | atHead, .signed _ x => atHead && x.isWhole false
  | _, .power _ x => x.isWhole false

def Term.isWhole : Term → Bool
  | .operand x => x.isWhole true
  | .product t _ x => t.isWhole && x.isWhole true

mutual

def Atom.isSound : Atom → Bool
  | .call _ args => args.isSound
  | .group e => e.isSound
  | _ => true

def Operand.isSound : Operand → Bool
  | .atom a => a.isSound
  | .signed _ x => x.isSound
  | .power a x => a.isSound && x.isSound

def Term.isSound : Term → Bool
  | .operand x => x.isSound
  | .product t op x =>
    t.isSound && x.isSound && (op != .over || t.isWhole && x.isWhole true)

def Expr.isSound : Expr → Bool
  | .term t => t.isSound
  | .negation e => e.isSound
  | .loose t _ e => t.isSound && e.isSound

def Args.isSound : Args → Bool
  | .last e => e.isSound
  | .more e rest => e.isSound && rest.isSound

end

end DaxMigration.Formula

namespace DaxMigration.Dax

open Formula

instance : Divisible Token where
  token := id
  quotient left right := .identifier divideWord :: .lparen ::
    (left ++ .comma :: (right ++ [.comma, .number ['0'], .rparen]))

open Divisible

@[simp]
theorem token_token (t : Token) : token t = t := rfl

/-! ## What the pass makes of an expression -/

/-- An operand with the signs that are taken for operators: what belongs to the term in front, and
what stands from the first such sign to the last and after the last. -/
structure Cut where
  first : List Token
  rest : Option (List Token × List Token)

namespace Cut

def before (ts : List Token) (c : Cut) : Cut :=
  ⟨ts ++ c.first, c.rest⟩

def split (t : Token) (c : Cut) : Cut :=
  match c.rest with
  | none => ⟨[], some ([t], c.first)⟩
  | some (middle, last) => ⟨[], some (t :: (c.first ++ middle), last)⟩

def after (c : Cut) (done value : List Token) : List Token × List Token :=
  match c.rest with
  | none => (done, value)
  | some (middle, last) => (done ++ value ++ middle, last)

end Cut

end DaxMigration.Dax

namespace DaxMigration.Formula

open Dax

variable (table : Option Token)

mutual

def Atom.out : Atom → List Token
  | .call name args => .identifier name :: .lparen :: (args.out ++ [.rparen])
  | .group e => .lparen :: (e.out ++ [.rparen])
  | .number digits => [.number digits]
  | .text s => [.string s]
  | .quoted s => [.singleQuoted s]
  | .field name => table.toList ++ [.field name]
  | .constant name => [.identifier name, .lparen, .rparen]

def Operand.cut : (atHead : Bool) → Operand → Cut
  | _, .atom a => ⟨a.out, none⟩
  | true, .signed s x => (x.cut false).before [s.token]
  | false, .signed s x => (x.cut true).split s.token
  | _, .power a x => (x.cut false).before (a.out ++ [.caret])

def Term.out : Term → List Token × List Token
  | .operand x => (x.cut true).after [] (x.cut true).first
  | .product t op x => (x.cut true).after t.out.1 (combine t.out.2 op.token (x.cut true).first)

def Expr.out : Expr → List Token
  | .term t => t.out.1 ++ t.out.2
  | .negation e => negationWord :: e.out
  | .loose t op e => t.out.1 ++ t.out.2 ++ op.token :: e.out

def Args.out : Args → List Token
  | .last e => e.out
  | .more e rest => e.out ++ .comma :: rest.out

end

end DaxMigration.Formula

namespace DaxMigration.Dax

open Formula Divisible

/-! ## The pass -/

theorem Terms.result_group_nil (f : Terms Token) : (f.group []).result = f.result := by
  simp [Terms.group, Terms.result, Terms.value]

theorem unitKind_of_plain {t : Token} (hBoundary : t.isDivisionBoundary = false)
    (hOther : isFactorSign t = false) (hComment : t.isComment = false) (k : Option UnitKind) :
    unitKind k t = .operand := by
  unfold unitKind
  extract_lets afterOperator
  split
  · cases hOther
  · cases hOther
  · cases hOther
  · cases hComment
  · cases hBoundary
  · cases hBoundary
  · simp [hBoundary]

theorem isDivisionBoundary_of_isKeyword {name : List Char} (h : isKeyword name = false) :
    (Token.identifier name).isDivisionBoundary = false := by
  refine Bool.eq_false_iff.2 fun hLoose => ?_
  obtain ⟨word, hMem, hSame⟩ := List.any_eq_true.1 hLoose
  have hWords : ∀ word ∈ Token.looseWords, isKeyword word.toList = true := by decide
  have hWord := hWords word hMem
  rw [beq_iff_eq.1 hSame, h] at hWord
  cases hWord

def isLiteral : Token → Bool
  | .number _ | .string _ | .singleQuoted _ | .field _ => true
  | _ => false

theorem isPlainToken_literal {t : Token} (h : isLiteral t = true) : IsPlainToken t := by
  unfold isLiteral at h
  split at h
  case h_5 => cases h
  all_goals exact ⟨rfl, rfl, rfl, fun k => unitKind_of_plain rfl rfl rfl k⟩

theorem isPlainToken_name {name : List Char} (h : isKeyword name = false) :
    IsPlainToken (.identifier name) :=
  ⟨rfl, rfl, rfl, unitKind_of_plain (isDivisionBoundary_of_isKeyword h) rfl rfl⟩

theorem isPlainToken_table {t : Token} (h : IsTable t) : IsPlainToken t := by
  cases h with
  | name hName => exact isPlainToken_name hName
  | quoted name => exact isPlainToken_literal rfl

theorem isPlainToken_caret : IsPlainToken .caret :=
  ⟨rfl, rfl, rfl, unitKind_of_plain rfl rfl rfl⟩

theorem unitKind_sign (s : Sign) (k : Option UnitKind) :
    unitKind k s.token = if k = some .operand then .boundary else .operand := by
  cases s <;> (cases k with | none => rfl | some k => cases k <;> rfl)

def Terms.operandRead (f : Terms Token) (c : Cut) : Terms Token :=
  match c.rest with
  | none => f.group c.first
  | some (middle, last) => ⟨(f.group c.first).result ++ middle, none, last, some .operand⟩

theorem Terms.operandRead_before (f : Terms Token) (ts : List Token) (c : Cut) :
    (f.group ts).operandRead c = f.operandRead (c.before ts) := by
  obtain ⟨first, rest⟩ := c
  cases rest <;> simp [operandRead, Cut.before, group_group]

theorem Terms.operandRead_split (f : Terms Token) (t : Token) (c : Cut) :
    (Terms.mk (f.result ++ [t]) none [] (some .boundary)).operandRead c =
      f.operandRead (c.split t) := by
  obtain ⟨first, rest⟩ := c
  have hResult := f.result_group_nil
  cases rest with
  | none =>
    simp only [operandRead, Cut.split]
    rw [hResult]
    rfl
  | some rest =>
    simp only [operandRead, Cut.split]
    rw [hResult]
    simp [Terms.group, Terms.result, Terms.value]

def AtStart (k : Option UnitKind) : Prop :=
  k = none ∨ k = some .boundary

theorem AtStart.not_operand {k : Option UnitKind} (h : AtStart k) : k ≠ some .operand := by
  rcases h with rfl | rfl <;> simp

theorem step_boundary {t : Token} {f : Terms Token} (hOpens : t.opens = false)
    (hCloses : t.closes = false) (hComment : t.isComment = false)
    (hKind : unitKind f.last t = .boundary) (frames : List (Token × Terms Token)) :
    Pass.step ⟨frames, f⟩ t = ⟨frames, ⟨f.result ++ [t], none, [], some .boundary⟩⟩ := by
  have hLeaf : f.leaf t = ⟨f.result ++ [t], none, [], some .boundary⟩ := by
    rw [Terms.leaf_of_boundary hKind, Terms.lastAfter, token_token, hComment, hKind]
    rfl
  simp [Pass.step, hOpens, hCloses, hLeaf]

theorem step_loose {f : Terms Token} (hLast : f.last = some .operand) (op : Loose)
    (frames : List (Token × Terms Token)) : Pass.step ⟨frames, f⟩ op.token =
      ⟨frames, ⟨f.result ++ [op.token], none, [], some .boundary⟩⟩ := by
  refine step_boundary ?_ ?_ ?_ ?_ frames
  · cases op <;> rfl
  · cases op <;> rfl
  · cases op <;> rfl
  · rw [hLast]
    cases op <;> decide

theorem step_comma (f : Terms Token) (frames : List (Token × Terms Token)) :
    Pass.step ⟨frames, f⟩ .comma = ⟨frames, ⟨f.result ++ [.comma], none, [], some .boundary⟩⟩ := by
  refine step_boundary rfl rfl rfl ?_ frames
  simp [unitKind, Token.isWord, Token.isDivisionBoundary]

theorem step_negation {f : Terms Token} (hLast : AtStart f.last)
    (frames : List (Token × Terms Token)) : Pass.step ⟨frames, f⟩ negationWord =
      ⟨frames, ⟨f.result ++ [negationWord], none, [], some .boundary⟩⟩ := by
  refine step_boundary rfl rfl rfl ?_ frames
  rcases hLast with hLast | hLast <;> rw [hLast] <;> decide

theorem step_factor (f : Terms Token) (op : Factor) (frames : List (Token × Terms Token)) :
    ∃ k, k ≠ some .operand ∧ Pass.step ⟨frames, f⟩ op.token =
      ⟨frames, ⟨f.done, some (f.value, op.token), [], k⟩⟩ := by
  cases op with
  | times => exact ⟨some .multiply, by simp, rfl⟩
  | «over» => exact ⟨some .divide, by simp, rfl⟩
  | modulo => exact ⟨some .multiply, by simp, rfl⟩

theorem step_lparen (f : Terms Token) (frames : List (Token × Terms Token)) :
    Pass.step ⟨frames, f⟩ .lparen = ⟨(.lparen, f) :: frames, .start⟩ := rfl

theorem step_rparen (outer f : Terms Token) (frames : List (Token × Terms Token)) :
    Pass.step ⟨(.lparen, outer) :: frames, f⟩ .rparen =
      ⟨frames, outer.group (.lparen :: (f.result ++ [.rparen]))⟩ := rfl

/-- The pass over what stands in brackets, where what stands inside is read to an end. -/
theorem run_bracketed {ts out : List Token}
    (h : ∀ frames : List (Token × Terms Token), ∃ g, Pass.run ⟨frames, .start⟩ ts = ⟨frames, g⟩ ∧
      g.result = out) (frames : List (Token × Terms Token)) (f : Terms Token) :
    Pass.run ⟨frames, f⟩ (.lparen :: (ts ++ [.rparen])) =
      ⟨frames, f.group (.lparen :: (out ++ [.rparen]))⟩ := by
  obtain ⟨g, hRun, hResult⟩ := h ((.lparen, f) :: frames)
  rw [Pass.run_cons, step_lparen, Pass.run_append, hRun, Pass.run_cons, step_rparen, hResult]
  rfl

theorem run_called {name : List Char} (hName : isKeyword name = false) {ts out : List Token}
    (h : ∀ (frames : List (Token × Terms Token)) f, Pass.run ⟨frames, f⟩ ts = ⟨frames, f.group out⟩)
    (frames : List (Token × Terms Token)) (f : Terms Token) :
    Pass.run ⟨frames, f⟩ (.identifier name :: ts) = ⟨frames, f.group (.identifier name :: out)⟩ := by
  rw [Pass.run_cons, Pass.step_plain (isPlainToken_name hName), h, Terms.group_group]
  rfl

end DaxMigration.Dax

namespace DaxMigration.Formula

open Dax

variable {table : Option Token}

mutual

theorem Atom.run_tokens (hTable : ∀ t ∈ table, IsTable t) (a : Atom)
    (h : ∀ name ∈ a.names, isKeyword name = false) (frames : List (Token × Terms Token))
    (f : Terms Token) :
    Pass.run ⟨frames, f⟩ (a.tokens table) = ⟨frames, f.group (a.out table)⟩ := by
  cases a with
  | number digits => exact Pass.step_plain (a := Token.number digits) (isPlainToken_literal rfl) frames f
  | text s => exact Pass.step_plain (a := Token.string s) (isPlainToken_literal rfl) frames f
  | quoted s => exact Pass.step_plain (a := Token.singleQuoted s) (isPlainToken_literal rfl) frames f
  | field name =>
    have hField : IsPlainToken (.field name) := isPlainToken_literal rfl
    rw [Atom.tokens, Atom.out]
    cases table with
    | none => exact Pass.step_plain hField frames f
    | some t =>
      have hFirst : IsPlainToken t := isPlainToken_table (hTable t rfl)
      rw [Option.toList, List.singleton_append, Pass.run_cons, Pass.step_plain hFirst, Pass.run_cons,
        Pass.step_plain hField, Terms.group_group]
      rfl
  | constant name =>
    have hEmpty : ∀ (frames : List (Token × Terms Token)) f,
        Pass.run ⟨frames, f⟩ [.lparen, .rparen] = ⟨frames, f.group [.lparen, .rparen]⟩ :=
      fun _ _ => rfl
    exact run_called (h name List.mem_cons_self) hEmpty frames f
  | call name args =>
    refine run_called (h name List.mem_cons_self) (fun frames f => ?_) frames f
    refine run_bracketed (fun frames => ?_) frames f
    obtain ⟨g, hRun, hResult, _⟩ := args.run_tokens hTable
      (fun n hn => h n (List.mem_cons_of_mem _ hn)) frames [] none (.inl rfl)
    exact ⟨g, hRun, hResult⟩
  | group e =>
    refine run_bracketed (fun frames => ?_) frames f
    obtain ⟨g, hRun, hResult, _⟩ := e.run_tokens hTable h frames [] none (.inl rfl)
    exact ⟨g, hRun, hResult⟩

theorem Operand.run_tokens (hTable : ∀ t ∈ table, IsTable t) (x : Operand)
    (h : ∀ name ∈ x.names, isKeyword name = false) (frames : List (Token × Terms Token))
    (f : Terms Token) (atHead : Bool) (hHead : f.last = some .operand ↔ atHead = false) :
    Pass.run ⟨frames, f⟩ (x.tokens table) = ⟨frames, f.operandRead (x.cut table atHead)⟩ := by
  cases x with
  | atom a =>
    rw [Operand.tokens, a.run_tokens hTable h, Operand.cut]
    rfl
  | signed s x =>
    have hOpens : s.token.opens = false := by cases s <;> rfl
    have hCloses : s.token.closes = false := by cases s <;> rfl
    have hComment : s.token.isComment = false := by cases s <;> rfl
    rw [Operand.tokens, Pass.run_cons]
    cases atHead with
    | true =>
      have hKind : unitKind f.last s.token = .operand := by
        rw [unitKind_sign, if_neg (by simp [hHead])]
      rw [Pass.step_operand (a := s.token) hOpens hCloses hComment hKind,
        x.run_tokens hTable h frames (f.group [s.token]) false (by simp [Terms.group]),
        Terms.operandRead_before, Operand.cut]
    | false =>
      have hKind : unitKind f.last s.token = .boundary := by
        rw [unitKind_sign, if_pos (by simp [hHead])]
      rw [step_boundary hOpens hCloses hComment hKind,
        x.run_tokens hTable h frames _ true (by simp), Terms.operandRead_split,
        Operand.cut]
  | power a x =>
    have ha := a.run_tokens hTable (fun n hn => h n (List.mem_append_left _ hn)) frames f
    have hx := x.run_tokens hTable (fun n hn => h n (List.mem_append_right _ hn)) frames
      ((f.group (a.out table)).group [.caret]) false (by simp [Terms.group])
    rw [Operand.tokens, Pass.run_append, ha, Pass.run_cons, Pass.step_plain isPlainToken_caret, hx,
      Terms.group_group, Terms.operandRead_before]
    cases atHead <;> rw [Operand.cut]

theorem Term.run_tokens (hTable : ∀ t ∈ table, IsTable t) (t : Term)
    (h : ∀ name ∈ t.names, isKeyword name = false) (frames : List (Token × Terms Token))
    (done : List Token) {k : Option UnitKind} (hStart : AtStart k) :
    ∃ g, Pass.run ⟨frames, ⟨done, none, [], k⟩⟩ (t.tokens table) = ⟨frames, g⟩ ∧
      g.done = done ++ (t.out table).1 ∧ g.value = (t.out table).2 ∧ g.last = some .operand := by
  cases t with
  | operand x =>
    have hRun := x.run_tokens hTable h frames ⟨done, none, [], k⟩ true
      (by simp [hStart.not_operand])
    refine ⟨_, hRun, ?_⟩
    rw [Term.out]
    obtain ⟨first, rest⟩ := x.cut table true
    cases rest <;> simp [Terms.operandRead, Cut.after, Terms.group, Terms.value, Terms.result]
  | product t op x =>
    obtain ⟨g, hRun, hDone, hValue, _⟩ := t.run_tokens hTable
      (fun n hn => h n (List.mem_append_left _ hn)) frames done hStart
    obtain ⟨l, hLast, hStep⟩ := step_factor g op frames
    have hOperand := x.run_tokens hTable (fun n hn => h n (List.mem_append_right _ hn)) frames
      ⟨g.done, some (g.value, op.token), [], l⟩ true (by simp [hLast])
    refine ⟨_, by rw [Term.tokens, Pass.run_append, hRun, Pass.run_cons, hStep, hOperand], ?_⟩
    rw [Term.out, hDone, hValue]
    obtain ⟨first, rest⟩ := x.cut table true
    cases rest <;> simp [Terms.operandRead, Cut.after, Terms.group, Terms.value, Terms.result]

/-- The pass over an expression, which stands where a term may begin. -/
theorem Expr.run_tokens (hTable : ∀ t ∈ table, IsTable t) (e : Expr)
    (h : ∀ name ∈ e.names, isKeyword name = false) (frames : List (Token × Terms Token))
    (done : List Token) (k : Option UnitKind) (hStart : AtStart k) :
    ∃ g, Pass.run ⟨frames, ⟨done, none, [], k⟩⟩ (e.tokens table) = ⟨frames, g⟩ ∧
      g.result = done ++ e.out table ∧ g.last = some .operand := by
  cases e with
  | term t =>
    obtain ⟨g, hRun, hDone, hValue, hLast⟩ := t.run_tokens hTable h frames done hStart
    exact ⟨g, hRun, by rw [Terms.result, hDone, hValue, Expr.out, List.append_assoc], hLast⟩
  | negation e =>
    obtain ⟨g, hRun, hResult, hLast⟩ := e.run_tokens hTable h frames (done ++ [negationWord])
      (some .boundary) (.inr rfl)
    refine ⟨g, ?_, by rw [hResult, Expr.out]; simp, hLast⟩
    rw [Expr.tokens, Pass.run_cons, step_negation hStart, ← hRun]
    simp [Terms.result, Terms.value]
  | loose t op e =>
    obtain ⟨g, hRun, hDone, hValue, hLast⟩ := t.run_tokens hTable
      (fun n hn => h n (List.mem_append_left _ hn)) frames done hStart
    obtain ⟨g', hRun', hResult, hLast'⟩ := e.run_tokens hTable
      (fun n hn => h n (List.mem_append_right _ hn)) frames (g.result ++ [op.token])
      (some .boundary) (.inr rfl)
    refine ⟨g', ?_, ?_, hLast'⟩
    · rw [Expr.tokens, Pass.run_append, hRun, Pass.run_cons, step_loose hLast, hRun']
    · rw [hResult, Terms.result, hDone, hValue, Expr.out]
      simp

theorem Args.run_tokens (hTable : ∀ t ∈ table, IsTable t) (args : Args)
    (h : ∀ name ∈ args.names, isKeyword name = false) (frames : List (Token × Terms Token))
    (done : List Token) (k : Option UnitKind) (hStart : AtStart k) :
    ∃ g, Pass.run ⟨frames, ⟨done, none, [], k⟩⟩ (args.tokens table) = ⟨frames, g⟩ ∧
      g.result = done ++ args.out table ∧ g.last = some .operand := by
  cases args with
  | last e => exact e.run_tokens hTable h frames done k hStart
  | more e rest =>
    obtain ⟨g, hRun, hResult, _⟩ := e.run_tokens hTable
      (fun n hn => h n (List.mem_append_left _ hn)) frames done k hStart
    obtain ⟨g', hRun', hResult', hLast'⟩ := rest.run_tokens hTable
      (fun n hn => h n (List.mem_append_right _ hn)) frames (g.result ++ [.comma])
      (some .boundary) (.inr rfl)
    refine ⟨g', ?_, ?_, hLast'⟩
    · rw [Args.tokens, Pass.run_append, hRun, Pass.run_cons, step_comma, hRun']
    · rw [hResult', hResult, Args.out]
      simp

end

/-- What the pass leaves of an expression. -/
theorem Expr.divided_tokens (hTable : ∀ t ∈ table, IsTable t) {e : Expr} (h : e.IsProper) :
    Dax.divided (e.tokens table) = e.out table ∧
      (Pass.start.run (e.tokens table)).frames = [] := by
  obtain ⟨g, hRun, hResult, _⟩ := e.run_tokens hTable h [] [] none (.inl rfl)
  have hRun : Pass.start.run (e.tokens table) = ⟨[], g⟩ := hRun
  constructor
  · rw [Dax.divided, hRun]
    exact hResult
  · rw [hRun]

end DaxMigration.Formula
