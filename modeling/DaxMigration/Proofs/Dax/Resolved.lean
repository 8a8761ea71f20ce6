import DaxMigration.Dax.Splice
import DaxMigration.Proofs.Formula.Phrase

/-!
# Resolved rows

Rows of tokens in which no construct is left to convert: no curly bracket, and no closed call of a
table calculation with a number of arguments that it is converted with. Where names may stand alone,
as tables do, such a name is no call unless a bracket follows.
-/

namespace DaxMigration.Dax

open Formula

def isConvertible (name : List Char) (args : Nat) : Bool :=
  (Formula.TableCalc.ofName? name).any fun f => (TableCalc.arities f).contains args

def argumentCount (commas : Nat) (inner : List Token) : Nat :=
  if inner = [] then 0 else commas + 1

/-- A token that says nothing about constructs. -/
structure Inert (t : Token) : Prop where
  inner : t.IsInner
  comma : t ≠ .comma
  comment : t.isComment = false
  name : ∀ name, t = .identifier name → ∀ args, isConvertible name args = false

/-! ## Tokens that hold no construct -/

theorem not_isConvertible {name : List Char} (h : Formula.TableCalc.ofName? name = none) (args : Nat) :
    isConvertible name args = false := by
  rw [isConvertible, h]
  rfl

theorem inert_of_isAtom {t : Token} (h : t.isAtom = true) : Inert t where
  inner := (inner_atom h).1
  comma := by rintro rfl; cases h
  comment := (inner_atom h).2.comment
  name := by rintro name rfl; cases h

theorem inert_of_isOperator {t : Token} (h : t.isOperator = true) (hComma : t ≠ .comma) : Inert t where
  inner := (inner_operator h).1
  comma := hComma
  comment := (inner_operator h).2.comment
  name := by rintro name rfl; cases h

theorem inert_identifier {name : List Char} (h : Formula.TableCalc.ofName? name = none) :
    Inert (.identifier name) where
  inner := isInner_identifier name
  comma := by simp
  comment := rfl
  name := by
    rintro _ hSame args
    rw [← Token.identifier.inj hSame]
    exact not_isConvertible h args

/-! ## Rows -/

/-- Tokens with so many commas outside of brackets and no construct left. -/
inductive Resolved (bare : Bool) : Nat → List Token → Prop
  | nil : Resolved bare 0 []
  | inert {n : Nat} {t : Token} {ts : List Token} (hInert : Inert t) (h : Resolved bare n ts) :
      Resolved bare n (t :: ts)
  | comma {n : Nat} {ts : List Token} (h : Resolved bare n ts) : Resolved bare (n + 1) (.comma :: ts)
  | group {m n : Nat} {inner ts : List Token} (hInner : Resolved bare m inner)
      (h : Resolved bare n ts) : Resolved bare n (.lparen :: (inner ++ .rparen :: ts))
  | kept {m n : Nat} {name : List Char} {inner ts : List Token} (hName : isKeyword name = false)
      (hKept : isConvertible name (argumentCount m inner) = false) (hInner : Resolved bare m inner)
      (h : Resolved bare n ts) :
      Resolved bare n (.identifier name :: .lparen :: (inner ++ .rparen :: ts))
  /-- The name of a table in front of its field. -/
  | named {n : Nat} {name f : List Char} {ts : List Token} (hName : isKeyword name = false)
      (h : Resolved bare n ts) : Resolved bare n (.identifier name :: .field f :: ts)
  | alone {n : Nat} {name : List Char} {ts : List Token} (hBare : bare = true)
      (hNext : ts.head? ≠ some .lparen) (h : Resolved bare n ts) :
      Resolved bare n (.identifier name :: ts)

namespace Resolved

variable {bare : Bool} {m n : Nat} {ts us : List Token}

theorem level_eq (h : Resolved bare n ts) (depth : Nat) : level depth ts = some depth := by
  induction h generalizing depth with
  | nil => rfl
  | inert hInert _ ih => simp [level, hInert.inner.opens, hInert.inner.closes, ih]
  | comma _ ih => simp [level, Token.opens, Token.closes, ih]
  | group _ _ ihInner ih => simp [level, level_append, Token.opens, Token.closes, ihInner, ih]
  | kept _ _ _ _ ihInner ih => simp [level, level_append, Token.opens, Token.closes, ihInner, ih]
  | named _ _ ih | alone _ _ _ ih => simp [level, Token.opens, Token.closes, ih]

theorem separators_eq (h : Resolved bare n ts) : separators (· == .comma) 0 ts = n := by
  have hDeep : ∀ {m : Nat} {inner rest : List Token}, Resolved bare m inner →
      separators (· == .comma) 1 (inner ++ .rparen :: rest) = separators (· == .comma) 0 rest := by
    intro m inner rest hInner
    rw [separators_append (hInner.level_eq 1), separators_deep (hInner.level_eq 0)]
    simp [separators, Token.opens, Token.closes]
  induction h with
  | nil => rfl
  | inert hInert _ ih => simp [separators, hInert.inner.opens, hInert.inner.closes, hInert.comma, ih]
  | comma _ ih => simp [separators, Token.opens, Token.closes, ih]
  | group hInner _ _ ih => simpa [separators, Token.opens, Token.closes, hDeep hInner] using ih
  | kept _ _ hInner _ _ ih => simpa [separators, Token.opens, Token.closes, hDeep hInner] using ih
  | named _ _ ih | alone _ _ _ ih => simpa [separators, Token.opens, Token.closes] using ih

/-- No curly bracket and no comment is left. -/
theorem plain (h : Resolved bare n ts) : ∀ t ∈ ts, t ≠ .lbrace ∧ t.isComment = false := by
  have hSign : ∀ t ∈ [Token.comma, .lparen, .rparen], t ≠ .lbrace ∧ t.isComment = false := by decide
  induction h with
  | nil => simp
  | inert hInert _ ih => exact List.forall_mem_cons.2 ⟨⟨hInert.inner.ne_lbrace, hInert.comment⟩, ih⟩
  | comma _ ih => exact List.forall_mem_cons.2 ⟨hSign _ (by simp), ih⟩
  | group _ _ ihInner ih =>
    simp only [List.forall_mem_cons, List.forall_mem_append]
    exact ⟨hSign _ (by simp), ihInner, hSign _ (by simp), ih⟩
  | kept _ _ _ _ ihInner ih =>
    simp only [List.forall_mem_cons, List.forall_mem_append]
    exact ⟨by simp [Token.isComment], hSign _ (by simp), ihInner, hSign _ (by simp), ih⟩
  | named _ _ ih =>
    simp only [List.forall_mem_cons]
    exact ⟨by simp [Token.isComment], by simp [Token.isComment], ih⟩
  | alone _ _ _ ih => exact List.forall_mem_cons.2 ⟨by simp [Token.isComment], ih⟩

theorem inerts {us : List Token} (hInert : ∀ u ∈ us, Inert u) (h : Resolved bare n ts) :
    Resolved bare n (us ++ ts) := by
  induction us with
  | nil => exact h
  | cons u us ih =>
    obtain ⟨hFirst, hRest⟩ := List.forall_mem_cons.1 hInert
    exact .inert hFirst (ih hRest)

/-- Resolved rows one after the other, where no name alone is taken for that of a call. -/
theorem append (h : Resolved bare m ts)
    (hNext : bare = true → ∀ name, ts.getLast? = some (.identifier name) → us.head? ≠ some .lparen)
    (hs : Resolved bare n us) : Resolved bare (m + n) (ts ++ us) := by
  have hLast : ∀ (before : List Token) {after : List Token} {t : Token}, after.getLast? = some t →
      (before ++ after).getLast? = some t := by
    intro before after t hLast
    rw [List.getLast?_append, hLast]
    rfl
  induction h with
  | nil => simpa using hs
  | @inert _ t _ hInert _ ih =>
    exact .inert hInert (ih fun hBare name hName => hNext hBare name (hLast [t] hName))
  | comma _ ih =>
    rw [Nat.add_right_comm]
    exact .comma (ih fun hBare name hName => hNext hBare name (hLast [.comma] hName))
  | @group _ _ inner ts hInner _ _ ih =>
    have hEnd : Token.lparen :: (inner ++ .rparen :: ts) = .lparen :: (inner ++ [.rparen]) ++ ts := by
      simp
    rw [hEnd] at hNext
    have hRest := ih fun hBare name hName => hNext hBare name (hLast _ hName)
    simpa using Resolved.group hInner hRest
  | @kept _ _ called inner ts hName hKept hInner _ _ ih =>
    have hEnd : Token.identifier called :: .lparen :: (inner ++ .rparen :: ts) =
        .identifier called :: .lparen :: (inner ++ [.rparen]) ++ ts := by
      simp
    rw [hEnd] at hNext
    have hRest := ih fun hBare name hName => hNext hBare name (hLast _ hName)
    simpa using Resolved.kept hName hKept hInner hRest
  | @named _ table f ts hName _ ih =>
    exact .named hName (ih fun hBare name hLastName => hNext hBare name (hLast [.identifier table, .field f] hLastName))
  | @alone _ called ts hBare hHead _ ih =>
    refine .alone hBare ?_ (ih fun hBare name hName => hNext hBare name (hLast [_] hName))
    cases ts with
    | nil => exact hNext hBare called rfl
    | cons t ts => exact hHead

end Resolved

/-! ## Calls that are read -/

theorem level_prefix {depth stop : Nat} {a b : List Token} (h : level depth (a ++ b) = some stop) :
    ∃ k, level depth a = some k := by
  rw [level_append] at h
  obtain ⟨k, hk, -⟩ := Option.bind_eq_some_iff.1 h
  exact ⟨k, hk⟩

/-- A call cannot begin between brackets and end behind them. -/
theorem call_inside {inner ts a args rest : List Token} {name : List Char}
    (hInner : level 0 inner = some 0) (hArgs : level 0 args = some 0)
    (h : inner ++ .rparen :: ts = a ++ .identifier name :: .lparen :: (args ++ .rparen :: rest)) :
    (∃ u, inner = a ++ .identifier name :: .lparen :: (args ++ .rparen :: u)) ∨
      ∃ u, ts = u ++ .identifier name :: .lparen :: (args ++ .rparen :: rest) := by
  -- What begins a call inside has a bracket open at its end.
  have hOpen : ∀ {part : List Token} {k : Nat}, level 0 part = some k →
      inner ≠ a ++ .identifier name :: .lparen :: part := by
    rintro part k hPart rfl
    obtain ⟨depth, hDepth⟩ := level_prefix hInner
    have hDeep := level_add hPart (depth + 1)
    rw [level_append, hDepth] at hInner
    rw [Nat.zero_add] at hDeep
    simp [level, Token.opens, Token.closes, hDeep] at hInner
  rcases List.append_eq_append_iff.1 h with ⟨s, rfl, hSplit⟩ | ⟨s, rfl, hSplit⟩
  · right
    cases s with
    | nil => simp at hSplit
    | cons t s =>
      obtain ⟨-, hRest⟩ := List.cons.inj hSplit
      exact ⟨s, hRest⟩
  · left
    rcases s with _ | ⟨t, _ | ⟨u, s⟩⟩
    · simp at hSplit
    · simp at hSplit
    · simp only [List.cons_append, List.cons.injEq] at hSplit
      obtain ⟨rfl, rfl, hSplit⟩ := hSplit
      rcases List.append_eq_append_iff.1 hSplit.symm with ⟨v, rfl, hEnd⟩ | ⟨v, rfl, hEnd⟩
      · obtain ⟨k, hk⟩ := level_prefix hArgs
        exact absurd rfl (hOpen hk)
      · cases v with
        | nil => exact absurd rfl (hOpen (by simpa using hArgs))
        | cons w v =>
          obtain ⟨rfl, -⟩ := List.cons.inj hEnd
          exact ⟨v, rfl⟩

theorem close_unique {a b ts us : List Token} (ha : level 0 a = some 0) (hb : level 0 b = some 0)
    (h : a ++ .rparen :: ts = b ++ .rparen :: us) : a = b := by
  have hNone : ∀ {c s : List Token}, level 0 c = some 0 → level 0 (c ++ .rparen :: s) ≠ some 0 := by
    intro c s hc
    rw [level_append, hc]
    simp [level, Token.opens, Token.closes]
  rcases List.append_eq_append_iff.1 h with ⟨s, rfl, hSplit⟩ | ⟨s, rfl, hSplit⟩
  · cases s with
    | nil => simp
    | cons t s =>
      obtain ⟨rfl, -⟩ := List.cons.inj hSplit
      exact absurd hb (hNone ha)
  · cases s with
    | nil => simp
    | cons t s =>
      obtain ⟨rfl, -⟩ := List.cons.inj hSplit
      exact absurd ha (hNone hb)

/-- No closed call in a resolved row is one that is converted, at any depth. -/
theorem Resolved.kept_of_call {bare : Bool} {n : Nat} {ts : List Token} (h : Resolved bare n ts)
    {a args rest : List Token} {name : List Char} (hArgs : level 0 args = some 0)
    (hCall : ts = a ++ .identifier name :: .lparen :: (args ++ .rparen :: rest)) :
    isConvertible name (argumentCount (separators (· == .comma) 0 args) args) = false := by
  induction h generalizing a rest with
  | nil => simp at hCall
  | inert hInert _ ih =>
    cases a with
    | nil =>
      obtain ⟨rfl, -⟩ := List.cons.inj hCall
      exact hInert.name name rfl _
    | cons t a => exact ih (List.cons.inj hCall).2
  | comma _ ih =>
    cases a with
    | nil => simp at hCall
    | cons t a => exact ih (List.cons.inj hCall).2
  | group hInner _ ihInner ih =>
    cases a with
    | nil => simp at hCall
    | cons t a =>
      rcases call_inside (hInner.level_eq 0) hArgs (List.cons.inj hCall).2 with ⟨u, hu⟩ | ⟨u, hu⟩
      · exact ihInner hu
      · exact ih hu
  | @kept _ _ called inner _ _ hKept hInner _ ihInner ih =>
    match a, hCall with
    | [], hCall =>
      simp only [List.nil_append, List.cons.injEq, Token.identifier.injEq, true_and] at hCall
      obtain ⟨rfl, hSame⟩ := hCall
      obtain rfl := close_unique (hInner.level_eq 0) hArgs hSame
      rwa [hInner.separators_eq]
    | [t], hCall => simp at hCall
    | t :: u :: a, hCall =>
      simp only [List.cons_append, List.cons.injEq] at hCall
      rcases call_inside (hInner.level_eq 0) hArgs hCall.2.2 with ⟨v, hv⟩ | ⟨v, hv⟩
      · exact ihInner hv
      · exact ih hv
  | named _ _ ih =>
    rcases a with _ | ⟨t, _ | ⟨u, a⟩⟩
    · simp at hCall
    · simp at hCall
    · exact ih (List.cons.inj (List.cons.inj hCall).2).2
  | alone _ hNext _ ih =>
    cases a with
    | nil =>
      obtain ⟨-, rfl⟩ := List.cons.inj hCall
      exact absurd rfl hNext
    | cons t a => exact ih (List.cons.inj hCall).2

theorem length_splitTopLevel {ls inner rest : List Lexeme} {start : Nat}
    (hAt : ls.drop start = inner ++ rest) (hComment : ∀ l ∈ inner, l.isComment = false) :
    (splitTopLevel ls ⟨start, start + inner.length⟩).length =
      argumentCount (separators (· == .comma) 0 (inner.map Lexeme.token)) (inner.map Lexeme.token) := by
  have hSlice := slice_of_drop hAt
  rw [splitTopLevel, argumentCount]
  cases inner with
  | nil =>
    have hNone : isFilled ls ⟨start, start + 0⟩ = false := by
      refine Bool.eq_false_iff.2 fun hFilled => ?_
      obtain ⟨l, hl, -⟩ := isFilled_iff.1 hFilled
      rw [show (Span.mk start (start + 0)).slice ls = [] from hSlice] at hl
      cases hl
    rw [List.length_nil, hNone]
    rfl
  | cons l inner =>
    have hFilled : isFilled ls ⟨start, start + (l :: inner).length⟩ = true :=
      isFilled_iff.2 ⟨l, by rw [hSlice]; exact List.mem_cons_self, hComment l List.mem_cons_self⟩
    rw [if_pos hFilled, length_pieces, topLevel, hSlice, length_topLevelFrom]
    simp

/-- What is read from resolved tokens: no block, and no call that is converted. -/
theorem Resolved.reads {bare : Bool} {n : Nat} {ls : List Lexeme}
    (h : Resolved bare n (ls.map Lexeme.token)) :
    lodBlocks ls = [] ∧ ∀ i call, parseCall ls i = .ok call →
      isConvertible call.name call.args.length = false := by
  have hPlain : ∀ l ∈ ls, l.token ≠ .lbrace ∧ l.isComment = false :=
    fun l hl => h.plain l.token (List.mem_map_of_mem hl)
  constructor
  · refine outermostFrom_eq_nil.2 fun i _ _ => ?_
    rw [lodAt?, if_neg]
    intro hToken
    obtain ⟨l, hl, hBrace⟩ := Option.map_eq_some_iff.1 hToken
    exact (hPlain l (List.mem_of_getElem? hl)).1 hBrace
  · intro i call hParse
    obtain ⟨r, rest, hAt, hCall, hEq⟩ := run_of_parseCall (fun l hl => (hPlain l hl).2) hParse
    have hInner : ls.drop (i + 2) = r.inner ++ r.closing :: rest := by
      refine drop_of_drop (a := [r.first, r.opening]) ?_
      simpa [CallRun.lexemes] using hAt
    have hCount := length_splitTopLevel hInner fun l hl =>
      (hPlain l (List.mem_of_mem_drop (by rw [hInner]; exact List.mem_append_left _ hl))).2
    have hTokens : ls.map Lexeme.token = (ls.take i).map Lexeme.token ++ .identifier call.name ::
        .lparen :: (r.inner.map Lexeme.token ++ .rparen :: rest.map Lexeme.token) := by
      conv => lhs; rw [← List.take_append_drop i ls, hAt]
      simp [CallRun.lexemes, hCall.first, hCall.opening, hCall.closing]
    rw [hEq, hCount]
    exact h.kept_of_call hCall.balanced hTokens

end DaxMigration.Dax
