import DaxMigration.Proofs.Formula.Legible

/-!
# Expressions

The grammar of formulas without constructs. A sign that opens an operand and the power bind tighter
than the operators of a term, which associate to the left; these bind tighter than all others, which
are kept in the order in which they stand. The same grammar reads a formula, where fields are bare,
and its conversion, where every field stands directly after its table.
-/

namespace DaxMigration.Formula

open Text

inductive Sign where
  | plus
  | minus
deriving DecidableEq

inductive Factor where
  | times
  | over
  | modulo
deriving DecidableEq

inductive Loose where
  | plus | minus | ampersand
  | equals | doubleEquals | notEqual | lessThan | greaterThan | lessEqual | greaterEqual
  | conjunction | disjunction
deriving DecidableEq

def Sign.token : Sign → Token
  | plus => .plus
  | minus => .minus

def Factor.token : Factor → Token
  | times => .asterisk
  | «over» => .slash
  | modulo => .percent

def Loose.token : Loose → Token
  | plus => .plus
  | minus => .minus
  | ampersand => .ampersand
  | equals => .equals
  | doubleEquals => .doubleEquals
  | notEqual => .notEqual
  | lessThan => .lessThan
  | greaterThan => .greaterThan
  | lessEqual => .lessEqual
  | greaterEqual => .greaterEqual
  | conjunction => .identifier "AND".toList
  | disjunction => .identifier "OR".toList

def negationWord : Token :=
  .identifier "NOT".toList

mutual

inductive Atom where
  | number (digits : List Char)
  | text (content : List Char)
  /-- A text in single quotes. -/
  | quoted (content : List Char)
  | field (name : List Char)
  /-- A call without arguments. -/
  | constant (name : List Char)
  | call (name : List Char) (args : Args)
  | group (e : Expr)

inductive Operand where
  | atom (a : Atom)
  | signed (s : Sign) (x : Operand)
  | power (a : Atom) (x : Operand)

inductive Term where
  | operand (x : Operand)
  | product (t : Term) (op : Factor) (x : Operand)

inductive Expr where
  | term (t : Term)
  | negation (e : Expr)
  | loose (t : Term) (op : Loose) (e : Expr)

inductive Args where
  | last (e : Expr)
  | more (e : Expr) (rest : Args)

end

variable (table : Option Token)

mutual

def Atom.tokens : Atom → List Token
  | .number digits => [.number digits]
  | .text s => [.string s]
  | .quoted s => [.singleQuoted s]
  | .field name => table.toList ++ [.field name]
  | .constant name => [.identifier name, .lparen, .rparen]
  | .call name args => .identifier name :: .lparen :: (args.tokens ++ [.rparen])
  | .group e => .lparen :: (e.tokens ++ [.rparen])

def Operand.tokens : Operand → List Token
  | .atom a => a.tokens
  | .signed s x => s.token :: x.tokens
  | .power a x => a.tokens ++ .caret :: x.tokens

def Term.tokens : Term → List Token
  | .operand x => x.tokens
  | .product t op x => t.tokens ++ op.token :: x.tokens

def Expr.tokens : Expr → List Token
  | .term t => t.tokens
  | .negation e => negationWord :: e.tokens
  | .loose t op e => t.tokens ++ op.token :: e.tokens

def Args.tokens : Args → List Token
  | .last e => e.tokens
  | .more e rest => e.tokens ++ .comma :: rest.tokens

end

mutual

def Atom.names : Atom → List (List Char)
  | .number _ | .text _ | .quoted _ | .field _ => []
  | .constant name => [name]
  | .call name args => name :: args.names
  | .group e => e.names

def Operand.names : Operand → List (List Char)
  | .atom a => a.names
  | .signed _ x => x.names
  | .power a x => a.names ++ x.names

def Term.names : Term → List (List Char)
  | .operand x => x.names
  | .product t _ x => t.names ++ x.names

def Expr.names : Expr → List (List Char)
  | .term t => t.names
  | .negation e => e.names
  | .loose t _ e => t.names ++ e.names

def Args.names : Args → List (List Char)
  | .last e => e.names
  | .more e rest => e.names ++ rest.names

end

def isKeyword (name : List Char) : Bool :=
  Token.looseWords.any (·.toList == upper name)

def Expr.IsProper (e : Expr) : Prop :=
  ∀ name ∈ e.names, isKeyword name = false

structure Reads (table : Option Token) (ls : List Lexeme) (e : Expr) : Prop where
  tokens : ls.map Lexeme.token = e.tokens table
  terminated : ∀ l ∈ ls, l.isTerminated = true

/-! ## Neighbours -/

namespace Token

def isKeyword : Token → Bool
  | identifier name => Formula.isKeyword name
  | _ => false

def isConnective (t : Token) : Bool :=
  t == identifier "AND".toList || t == identifier "OR".toList

def isOperatorWord (t : Token) : Bool :=
  t.isConnective || t == negationWord

def isOperator : Token → Bool
  | plus | minus | ampersand | equals | doubleEquals | notEqual | lessThan | greaterThan
  | lessEqual | greaterEqual | asterisk | slash | percent | caret | comma => true
  | _ => false

def endsOperand : Token → Bool
  | number _ | string _ | singleQuoted _ | field _ | rparen => true
  | _ => false

def startsOperand : Token → Bool
  | number _ | string _ | singleQuoted _ | field _ | identifier _ | plus | minus | lparen => true
  | _ => false

end Token

/-- A keyword is set off by white space from what follows it, and a connective from what stands in
front of it. -/
structure SetOff (l m : Lexeme) : Prop where
  keyword : l.token.isKeyword = true → m.isAttached = false
  connective : m.token.isConnective = true → m.isAttached = false

inductive Follows : Token → Token → Prop
  | operator {s u : Token} (hEnd : s.endsOperand = true) (hOperator : u.isOperator = true) : Follows s u
  | connective {s u : Token} (hEnd : s.endsOperand = true) (hWord : u.isConnective = true) :
      Follows s u
  | close {s : Token} (hEnd : s.endsOperand = true) : Follows s .rparen
  | operand {s u : Token} (hOperator : s.isOperator = true) (hStart : u.startsOperand = true) :
      Follows s u
  | word {s u : Token} (hWord : s.isOperatorWord = true) (hStart : u.startsOperand = true) : Follows s u
  | inner {u : Token} (hStart : u.startsOperand = true) : Follows .lparen u
  | name {name : List Char} (hName : isKeyword name = false) : Follows (.identifier name) .lparen
  | empty : Follows .lparen .rparen
  | member {s : Token} {name : List Char} (hTable : s ∈ table) : Follows s (.field name)

structure IsRun (ts : List Token) : Prop where
  filled : ts ≠ []
  starts : ∀ t ∈ ts.head?, t.startsOperand = true
  ends : ∀ t ∈ ts.getLast?, t.endsOperand = true
  chain : ts.IsChain (Follows table)

namespace IsRun

variable {table : Option Token}

theorem single {t : Token} (hStart : t.startsOperand = true) (hEnd : t.endsOperand = true) :
    IsRun table [t] :=
  ⟨by simp, by simpa using hStart, by simpa using hEnd, .singleton t⟩

/-- Two runs with something between them. -/
theorem join {a b : List Token} {t : Token} (ha : IsRun table a) (hb : IsRun table b)
    (hLeft : ∀ s, s.endsOperand = true → Follows table s t)
    (hRight : ∀ u, u.startsOperand = true → Follows table t u) : IsRun table (a ++ t :: b) where
  filled := by simp
  starts s hs := by
    obtain ⟨u, a, rfl⟩ := List.exists_cons_of_ne_nil ha.filled
    exact ha.starts s hs
  ends s hs := by
    refine hb.ends s ?_
    rw [List.getLast?_append, List.getLast?_cons] at hs
    have hLast := List.getLast?_eq_some_getLast hb.filled
    rw [hLast] at hs ⊢
    simpa using hs
  chain := by
    rw [List.isChain_append]
    refine ⟨ha.chain, ?_, ?_⟩
    · rw [List.isChain_cons]
      exact ⟨fun u hu => hRight u (hb.starts u hu), hb.chain⟩
    · intro s hs u hu
      obtain rfl : t = u := by simpa using hu
      exact hLeft s (ha.ends s hs)

/-- A run with something in front of it. -/
theorem after {b : List Token} {t : Token} (hStart : t.startsOperand = true) (hb : IsRun table b)
    (hRight : ∀ u, u.startsOperand = true → Follows table t u) : IsRun table (t :: b) where
  filled := by simp
  starts := by simpa using hStart
  ends s hs := by
    refine hb.ends s ?_
    rw [List.getLast?_cons, List.getLast?_eq_some_getLast hb.filled] at hs
    rw [List.getLast?_eq_some_getLast hb.filled]
    exact hs
  chain := by
    rw [List.isChain_cons]
    exact ⟨fun u hu => hRight u (hb.starts u hu), hb.chain⟩

/-- What holds of a token that another one follows, and of a token that ends an operand, holds of
all tokens of a run. -/
theorem forall_mem {P : Token → Prop} {ts : List Token} (h : IsRun table ts)
    (hFollows : ∀ s u, Follows table s u → P s) (hEnds : ∀ s, s.endsOperand = true → P s) :
    ∀ t ∈ ts, P t := by
  have hLast := h.ends
  have hChain := h.chain
  clear h
  induction ts with
  | nil => simp
  | cons s ts ih =>
    obtain ⟨hNext, hRest⟩ := List.isChain_cons.1 hChain
    cases ts with
    | nil => simpa using hEnds s (hLast s rfl)
    | cons u us =>
      refine List.forall_mem_cons.2 ⟨hFollows s u (hNext u rfl), ?_⟩
      exact ih (fun t ht => hLast t (by rwa [List.getLast?_cons_cons])) hRest

theorem bracketed {b : List Token} (hb : IsRun table b) :
    IsRun table (.lparen :: (b ++ [.rparen])) where
  filled := by simp
  starts := by simp [Token.startsOperand]
  ends := by rw [← List.cons_append, List.getLast?_append]; simp [Token.endsOperand]
  chain := by
    rw [List.isChain_cons, List.isChain_append]
    refine ⟨?_, hb.chain, .singleton _, ?_⟩
    · intro u hu
      obtain ⟨t, b, rfl⟩ := List.exists_cons_of_ne_nil hb.filled
      exact .inner (hb.starts u hu)
    · intro s hs u hu
      obtain rfl : Token.rparen = u := by simpa using hu
      exact .close (hb.ends s hs)

theorem called {name : List Char} (hName : isKeyword name = false) {b : List Token}
    (hb : IsRun table (.lparen :: b)) : IsRun table (.identifier name :: .lparen :: b) where
  filled := by simp
  starts := by simp [Token.startsOperand]
  ends s hs := hb.ends s (by simpa using hs)
  chain := by
    rw [List.isChain_cons]
    refine ⟨fun u hu => ?_, hb.chain⟩
    obtain rfl : Token.lparen = u := by simpa using hu
    exact .name hName

end IsRun

theorem follows_sign (s : Sign) (u : Token) (h : u.startsOperand = true) :
    Follows table s.token u :=
  .operand (by cases s <;> rfl) h

theorem isRun_join_operator {a b : List Token} {t : Token} (ha : IsRun table a)
    (hb : IsRun table b) (h : t.isOperator = true) : IsRun table (a ++ t :: b) :=
  ha.join hb (fun _ hs => .operator hs h) fun _ hu => .operand h hu

theorem isRun_join_loose {a b : List Token} (ha : IsRun table a) (hb : IsRun table b)
    (op : Loose) : IsRun table (a ++ op.token :: b) := by
  have hKinds : op.token.isOperator = true ∨
      op.token.isConnective = true ∧ op.token.isOperatorWord = true := by
    cases op <;> first | exact .inl rfl | exact .inr (by decide)
  rcases hKinds with hOperator | ⟨hWord, hOperatorWord⟩
  · exact isRun_join_operator table ha hb hOperator
  · exact ha.join hb (fun _ hs => .connective hs hWord) fun _ hu => .word hOperatorWord hu

inductive IsTable : Token → Prop
  | name {name : List Char} (hName : isKeyword name = false) : IsTable (.identifier name)
  | quoted (name : List Char) : IsTable (.singleQuoted name)

theorem isRun_field {table : Option Token} (hTable : ∀ t ∈ table, IsTable t) (name : List Char) :
    IsRun table (table.toList ++ [.field name]) := by
  cases table with
  | none => exact .single rfl rfl
  | some t =>
    refine ⟨by simp, ?_, by simp [Token.endsOperand], ?_⟩
    · cases hTable t rfl <;> simp [Token.startsOperand]
    · exact .cons_cons (.member rfl) (.singleton _)

variable {table : Option Token}

mutual

/-- The tokens of an expression follow one another. -/
theorem Atom.isRun_tokens (hTable : ∀ t ∈ table, IsTable t) (a : Atom)
    (h : ∀ name ∈ a.names, isKeyword name = false) :
    IsRun table (a.tokens table) := by
  cases a with
  | number | text | quoted => exact .single rfl rfl
  | field name => exact isRun_field hTable name
  | constant name =>
    have hEmpty : IsRun table [.lparen, .rparen] :=
      ⟨by simp, by simp [Token.startsOperand], by simp [Token.endsOperand],
        .cons_cons .empty (.singleton _)⟩
    exact hEmpty.called (h name List.mem_cons_self)
  | call name args =>
    exact (args.isRun_tokens hTable fun n hn => h n (List.mem_cons_of_mem _ hn)).bracketed.called
      (h name List.mem_cons_self)
  | group e => exact (e.isRun_tokens hTable h).bracketed

theorem Operand.isRun_tokens (hTable : ∀ t ∈ table, IsTable t) (x : Operand)
    (h : ∀ name ∈ x.names, isKeyword name = false) :
    IsRun table (x.tokens table) := by
  cases x with
  | atom a => exact a.isRun_tokens hTable h
  | signed s x =>
    exact (x.isRun_tokens hTable h).after (by cases s <;> rfl) (follows_sign table s)
  | power a x =>
    have ha := a.isRun_tokens hTable fun n hn => h n (List.mem_append_left _ hn)
    have hx := x.isRun_tokens hTable fun n hn => h n (List.mem_append_right _ hn)
    exact isRun_join_operator table ha hx rfl

theorem Term.isRun_tokens (hTable : ∀ t ∈ table, IsTable t) (t : Term)
    (h : ∀ name ∈ t.names, isKeyword name = false) :
    IsRun table (t.tokens table) := by
  cases t with
  | operand x => exact x.isRun_tokens hTable h
  | product t op x =>
    have ht := t.isRun_tokens hTable fun n hn => h n (List.mem_append_left _ hn)
    have hx := x.isRun_tokens hTable fun n hn => h n (List.mem_append_right _ hn)
    exact isRun_join_operator table ht hx (by cases op <;> rfl)

theorem Expr.isRun_tokens (hTable : ∀ t ∈ table, IsTable t) (e : Expr)
    (h : ∀ name ∈ e.names, isKeyword name = false) :
    IsRun table (e.tokens table) := by
  cases e with
  | term t => exact t.isRun_tokens hTable h
  | negation e => exact (e.isRun_tokens hTable h).after rfl fun _ hu => .word (by decide) hu
  | loose t op e =>
    have ht := t.isRun_tokens hTable fun n hn => h n (List.mem_append_left _ hn)
    have he := e.isRun_tokens hTable fun n hn => h n (List.mem_append_right _ hn)
    exact isRun_join_loose table ht he op

theorem Args.isRun_tokens (hTable : ∀ t ∈ table, IsTable t) (args : Args)
    (h : ∀ name ∈ args.names, isKeyword name = false) :
    IsRun table (args.tokens table) := by
  cases args with
  | last e => exact e.isRun_tokens hTable h
  | more e rest =>
    have he := e.isRun_tokens hTable fun n hn => h n (List.mem_append_left _ hn)
    have hRest := rest.isRun_tokens hTable fun n hn => h n (List.mem_append_right _ hn)
    exact isRun_join_operator table he hRest rfl

end

end DaxMigration.Formula
