import DaxMigration.Proofs.Dax.Passage
import DaxMigration.Proofs.Dax.Quotients
import DaxMigration.Proofs.Dax.Spelling

/-!
# Respelled expressions

The rules for single lexemes change an expression only in its function names, in the spelling of
its operators, in its quotes, and in the tables of its fields. A field with its table is written as
one lexeme and read as two.
-/

namespace DaxMigration.Dax

open Formula Text Divisible

def rename (t : Target) (name : List Char) : List Char :=
  match t.function? name with
  | some text => upper text
  | none => name

def Target.tableToken (t : Target) : Token :=
  if isPlainName t.table then nameToken t.table else .singleQuoted t.table

/-- Names of the target are read as names, and keywords stand for keywords only. -/
structure Target.IsReadable (t : Target) : Prop where
  whole : Whole ⟨t.tableToken, t.tableText, []⟩
  table : IsTable t.tableToken
  function {name text : List Char} (h : t.function? name = some text) :
    isNameText text = true ∧ nameToken text = .identifier (upper text)
  keyword {name text : List Char} (h : t.function? name = some text)
    (hName : isKeyword name = false) : isKeyword (upper text) = false
  word {name text : List Char} (h : t.function? name = some text)
    (hWord : (Token.identifier name).isOperatorWord = true) : upper text = name

end DaxMigration.Dax

namespace DaxMigration.Formula

open Dax

def Loose.respelled : Loose → Loose
  | doubleEquals => equals
  | op => op

variable (t : Target)

mutual

def Atom.respelled : Atom → Atom
  | .number digits => .number digits
  | .text s => .text s
  | .quoted s => .text s
  | .field name => .field name
  | .constant name => .constant (rename t name)
  | .call name args => .call (rename t name) args.respelled
  | .group e => .group e.respelled

def Operand.respelled : Operand → Operand
  | .atom a => .atom a.respelled
  | .signed s x => .signed s x.respelled
  | .power a x => .power a.respelled x.respelled

def Term.respelled : Term → Term
  | .operand x => .operand x.respelled
  | .product t op x => .product t.respelled op x.respelled

def Expr.respelled : Expr → Expr
  | .term t => .term t.respelled
  | .negation e => .negation e.respelled
  | .loose t op e => .loose t.respelled op.respelled e.respelled

def Args.respelled : Args → Args
  | .last e => .last e.respelled
  | .more e rest => .more e.respelled rest.respelled

end

def Token.respelled : Token → List Token
  | .field name => [t.tableToken, .field name]
  | .singleQuoted s => [.string s]
  | .doubleEquals => [.equals]
  | .identifier name => [.identifier (rename t name)]
  | s => [s]

variable {t}

theorem respelled_word (ht : t.IsReadable) {name : List Char}
    (hWord : (Token.identifier name).isOperatorWord = true) :
    Token.respelled t (.identifier name) = [.identifier name] := by
  rw [Token.respelled, rename]
  cases hFunction : t.function? name with
  | none => rfl
  | some text => simp [ht.word hFunction hWord]

theorem respelled_sign (s : Sign) : Token.respelled t s.token = [s.token] := by
  cases s <;> rfl

theorem respelled_factor (op : Factor) : Token.respelled t op.token = [op.token] := by
  cases op <;> rfl

theorem respelled_loose (ht : t.IsReadable) (op : Loose) :
    Token.respelled t op.token = [op.respelled.token] := by
  cases op with
  | conjunction | disjunction => exact respelled_word ht rfl
  | _ => rfl

mutual

theorem Atom.tokens_respelled (ht : t.IsReadable) (a : Atom) :
    (a.respelled t).tokens (some t.tableToken) = (a.tokens none).flatMap (Token.respelled t) := by
  cases a with
  | number | text | quoted | field | constant => rfl
  | call name args =>
    simp [Atom.respelled, Atom.tokens, args.tokens_respelled ht, Token.respelled]
  | group e => simp [Atom.respelled, Atom.tokens, e.tokens_respelled ht, Token.respelled]

theorem Operand.tokens_respelled (ht : t.IsReadable) (x : Operand) :
    (x.respelled t).tokens (some t.tableToken) = (x.tokens none).flatMap (Token.respelled t) := by
  cases x with
  | atom a => exact a.tokens_respelled ht
  | signed s x =>
    simp [Operand.respelled, Operand.tokens, x.tokens_respelled ht, respelled_sign]
  | power a x =>
    simp [Operand.respelled, Operand.tokens, a.tokens_respelled ht, x.tokens_respelled ht,
      Token.respelled]

theorem Term.tokens_respelled (ht : t.IsReadable) (u : Term) :
    (u.respelled t).tokens (some t.tableToken) = (u.tokens none).flatMap (Token.respelled t) := by
  cases u with
  | operand x => exact x.tokens_respelled ht
  | product u op x =>
    simp [Term.respelled, Term.tokens, u.tokens_respelled ht, x.tokens_respelled ht,
      respelled_factor]

theorem Expr.tokens_respelled (ht : t.IsReadable) (e : Expr) :
    (e.respelled t).tokens (some t.tableToken) = (e.tokens none).flatMap (Token.respelled t) := by
  cases e with
  | term u => exact u.tokens_respelled ht
  | negation e =>
    have hWord : Token.respelled t negationWord = [negationWord] := respelled_word ht rfl
    simp [Expr.respelled, Expr.tokens, e.tokens_respelled ht, hWord]
  | loose u op e =>
    simp [Expr.respelled, Expr.tokens, u.tokens_respelled ht, e.tokens_respelled ht,
      respelled_loose ht]

theorem Args.tokens_respelled (ht : t.IsReadable) (args : Args) :
    (args.respelled t).tokens (some t.tableToken) =
      (args.tokens none).flatMap (Token.respelled t) := by
  cases args with
  | last e => exact e.tokens_respelled ht
  | more e rest =>
    simp [Args.respelled, Args.tokens, e.tokens_respelled ht, rest.tokens_respelled ht,
      Token.respelled]

end

mutual

theorem Atom.names_respelled (a : Atom) : (a.respelled t).names = a.names.map (rename t) := by
  cases a with
  | number | text | quoted | field | constant => rfl
  | call name args => simp [Atom.respelled, Atom.names, args.names_respelled]
  | group e => exact e.names_respelled

theorem Operand.names_respelled (x : Operand) : (x.respelled t).names = x.names.map (rename t) := by
  cases x with
  | atom a => exact a.names_respelled
  | signed s x => exact x.names_respelled
  | power a x => simp [Operand.respelled, Operand.names, a.names_respelled, x.names_respelled]

theorem Term.names_respelled (u : Term) : (u.respelled t).names = u.names.map (rename t) := by
  cases u with
  | operand x => exact x.names_respelled
  | product u op x => simp [Term.respelled, Term.names, u.names_respelled, x.names_respelled]

theorem Expr.names_respelled (e : Expr) : (e.respelled t).names = e.names.map (rename t) := by
  cases e with
  | term u => exact u.names_respelled
  | negation e => exact e.names_respelled
  | loose u op e => simp [Expr.respelled, Expr.names, u.names_respelled, e.names_respelled]

theorem Args.names_respelled (args : Args) :
    (args.respelled t).names = args.names.map (rename t) := by
  cases args with
  | last e => exact e.names_respelled
  | more e rest => simp [Args.respelled, Args.names, e.names_respelled, rest.names_respelled]

end

theorem isKeyword_rename (ht : t.IsReadable) {name : List Char} (h : isKeyword name = false) :
    isKeyword (rename t name) = false := by
  unfold rename
  split
  · exact ht.keyword ‹_› h
  · exact h

theorem Expr.IsProper.respelled (ht : t.IsReadable) {e : Expr} (h : e.IsProper) :
    (e.respelled t).IsProper := by
  intro name hName
  rw [e.names_respelled] at hName
  obtain ⟨original, hMem, rfl⟩ := List.mem_map.1 hName
  exact isKeyword_rename ht (h original hMem)

theorem Operand.isWhole_respelled (x : Operand) (atHead : Bool) :
    (x.respelled t).isWhole atHead = x.isWhole atHead := by
  match x with
  | .atom a => rfl
  | .signed s x => simp [Operand.respelled, Operand.isWhole, x.isWhole_respelled]
  | .power a x => simp [Operand.respelled, Operand.isWhole, x.isWhole_respelled]

theorem Term.isWhole_respelled (u : Term) : (u.respelled t).isWhole = u.isWhole := by
  match u with
  | .operand x => exact x.isWhole_respelled true
  | .product u op x =>
    simp [Term.respelled, Term.isWhole, u.isWhole_respelled, x.isWhole_respelled]

mutual

theorem Atom.isSound_respelled (a : Atom) : (a.respelled t).isSound = a.isSound := by
  cases a with
  | number | text | quoted | field | constant => rfl
  | call name args => exact args.isSound_respelled
  | group e => exact e.isSound_respelled

theorem Operand.isSound_respelled (x : Operand) : (x.respelled t).isSound = x.isSound := by
  cases x with
  | atom a => exact a.isSound_respelled
  | signed s x => exact x.isSound_respelled
  | power a x => simp [Operand.respelled, Operand.isSound, a.isSound_respelled, x.isSound_respelled]

theorem Term.isSound_respelled (u : Term) : (u.respelled t).isSound = u.isSound := by
  cases u with
  | operand x => exact x.isSound_respelled
  | product u op x =>
    simp [Term.respelled, Term.isSound, u.isSound_respelled, x.isSound_respelled,
      Term.isWhole_respelled, Operand.isWhole_respelled]

theorem Expr.isSound_respelled (e : Expr) : (e.respelled t).isSound = e.isSound := by
  cases e with
  | term u => exact u.isSound_respelled
  | negation e => exact e.isSound_respelled
  | loose u op e => simp [Expr.respelled, Expr.isSound, u.isSound_respelled, e.isSound_respelled]

theorem Args.isSound_respelled (args : Args) : (args.respelled t).isSound = args.isSound := by
  cases args with
  | last e => exact e.isSound_respelled
  | more e rest => simp [Args.respelled, Args.isSound, e.isSound_respelled, rest.isSound_respelled]

end

end DaxMigration.Formula
