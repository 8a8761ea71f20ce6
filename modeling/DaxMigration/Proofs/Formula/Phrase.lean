import DaxMigration.Formula.Kind
import DaxMigration.Proofs.Formula.Expression
import DaxMigration.Proofs.Formula.Parts

/-!
# Phrases

Rows of expressions in which level-of-detail blocks and table calculations stand in one another, in
brackets and among the arguments of calls. The grammar counts the expressions between commas, and
bounds how deep the constructs are nested. Rows that are spliced are read by the same grammar, with
converted text in the place of operands.
-/

namespace DaxMigration.Formula

def Token.isAtom : Token → Bool
  | number _ | string _ | singleQuoted _ | boolean _ | field _ | verbatim _ => true
  | _ => false

/-- A table calculation is one construct around its arguments. -/
def callDepth (name : List Char) : Nat :=
  if (TableCalc.ofName? name).isSome then 1 else 0

/-- Expressions with commas between them, `count` in number, whose constructs are nested at most
`depth` deep. -/
inductive Phrase : (depth count : Nat) → List Lexeme → Prop
  | nil {n : Nat} : Phrase n 0 []
  | atom {n : Nat} {l : Lexeme} (hAtom : l.token.isAtom = true) : Phrase n 1 [l]
  /-- A field of a table. -/
  | column {n : Nat} {table l : Lexeme} {name : List Char} (hTable : IsTable table.token)
      (hField : l.token = .field name) (hAttached : l.isAttached = true) : Phrase n 1 [table, l]
  | group {n : Nat} {opening closing : Lexeme} {e : List Lexeme} (hOpening : opening.token = .lparen)
      (h : Phrase n 1 e) (hClosing : closing.token = .rparen) :
      Phrase n 1 (opening :: (e ++ [closing]))
  | call {m n k : Nat} {first opening closing : Lexeme} {name : List Char} {args : List Lexeme}
      (hFirst : first.token = .identifier name) (hName : isKeyword name = false)
      (hOpening : opening.token = .lparen) (h : Phrase m k args) (hDepth : m + callDepth name ≤ n)
      (hClosing : closing.token = .rparen) :
      Phrase n 1 (first :: opening :: (args ++ [closing]))
  | signed {n : Nat} {sign : Lexeme} {e : List Lexeme}
      (hSign : sign.token = .plus ∨ sign.token = .minus) (h : Phrase n 1 e) : Phrase n 1 (sign :: e)
  | negation {n : Nat} {word : Lexeme} {e : List Lexeme} (hWord : word.token = negationWord)
      (hApart : ∀ l ∈ e.head?, l.isAttached = false) (h : Phrase n 1 e) : Phrase n 1 (word :: e)
  | operation {n : Nat} {sign : Lexeme} {a b : List Lexeme} (ha : Phrase n 1 a)
      (hSign : sign.token.isOperator = true) (hComma : sign.token ≠ .comma) (hb : Phrase n 1 b) :
      Phrase n 1 (a ++ sign :: b)
  | connective {n : Nat} {word : Lexeme} {a b : List Lexeme} (ha : Phrase n 1 a)
      (hWord : word.token.isConnective = true) (hLeft : word.isAttached = false)
      (hRight : ∀ l ∈ b.head?, l.isAttached = false) (hb : Phrase n 1 b) :
      Phrase n 1 (a ++ word :: b)
  /-- A block of an expression alone. -/
  | block {m n : Nat} {opening closing : Lexeme} {e : List Lexeme}
      (hOpening : opening.token = .lbrace) (h : Phrase m 1 e) (hDepth : m < n)
      (hClosing : closing.token = .rbrace) : Phrase n 1 (opening :: (e ++ [closing]))
  /-- A block with a keyword and any number of dimensions in front of its expression. -/
  | headed {m n k : Nat} {opening word colon closing : Lexeme} {name : List Char}
      {dims e : List Lexeme} (hOpening : opening.token = .lbrace)
      (hWord : word.token = .identifier name) (hName : isKeyword name = false)
      (hDims : Phrase m k dims) (hColon : colon.token = .colon) (h : Phrase m 1 e) (hDepth : m < n)
      (hClosing : closing.token = .rbrace) :
      Phrase n 1 (opening :: (word :: (dims ++ [colon]) ++ e ++ [closing]))
  | more {n k : Nat} {comma : Lexeme} {a b : List Lexeme} (ha : Phrase n 1 a)
      (hComma : comma.token = .comma) (hb : Phrase n (k + 1) b) : Phrase n (k + 2) (a ++ comma :: b)

/-! ## Tokens of a phrase -/

structure Token.IsInner (t : Token) : Prop where
  opens : t.opens = false
  closes : t.closes = false

theorem Token.IsInner.ne_lbrace {t : Token} (h : t.IsInner) : t ≠ .lbrace := by
  rintro rfl
  cases h.opens

structure Token.IsQuiet (t : Token) : Prop where
  comment : t.isComment = false
  ifWord : t.isWord "IF" = false
  caseWord : t.isWord "CASE" = false

theorem balanced_inner {l : Lexeme} (h : l.token.IsInner) : Balanced [l] := by
  simp [Balanced, level, h.opens, h.closes]

theorem Balanced.cons_inner {l : Lexeme} {ls : List Lexeme} (h : l.token.IsInner) (hs : Balanced ls) :
    Balanced (l :: ls) :=
  (balanced_inner h).append hs

theorem Balanced.join_inner {l : Lexeme} {a b : List Lexeme} (ha : Balanced a) (h : l.token.IsInner)
    (hb : Balanced b) : Balanced (a ++ l :: b) :=
  ha.append (hb.cons_inner h)

theorem separators_join {p : Token → Bool} {l : Lexeme} {a : List Lexeme} (ha : Balanced a)
    (h : l.token.IsInner) (b : List Lexeme) :
    separators p 0 ((a ++ l :: b).map Lexeme.token) = separators p 0 (a.map Lexeme.token) +
      (if p l.token then 1 else 0) + separators p 0 (b.map Lexeme.token) := by
  rw [List.map_append, separators_append ha, List.map_cons, separators, h.opens, h.closes]
  cases p l.token <;> simp
  omega

theorem separators_bracketed {p : Token → Bool} {opening closing : Lexeme} {inner : List Lexeme}
    (hOpens : opening.token.opens = true) (hCloses : closing.token.closes = true)
    (h : Balanced inner) :
    separators p 0 ((opening :: (inner ++ [closing])).map Lexeme.token) = 0 := by
  have hNot : closing.token.opens = false := by
    cases hToken : closing.token <;> simp_all [Token.closes, Token.opens]
  simp [separators, separators_append (h.level_eq 1), separators_deep (h.level_eq 0), hOpens,
    hCloses, hNot]

/-- The tokens that no rule of the grammar names one by one. -/
theorem inner_atom {t : Token} (h : t.isAtom = true) : t.IsInner ∧ t.IsQuiet := by
  cases t <;> first | exact ⟨⟨rfl, rfl⟩, rfl, rfl, rfl⟩ | cases h

theorem inner_operator {t : Token} (h : t.isOperator = true) : t.IsInner ∧ t.IsQuiet := by
  cases t <;> first | exact ⟨⟨rfl, rfl⟩, rfl, rfl, rfl⟩ | cases h

theorem isInner_identifier (name : List Char) : (Token.identifier name).IsInner :=
  ⟨rfl, rfl⟩

theorem isQuiet_identifier {name : List Char} (h : isKeyword name = false) :
    (Token.identifier name).IsQuiet := by
  have hWords : ∀ word ∈ ["IF", "CASE"], isKeyword word.toList = true := by decide
  have hNone : ∀ word ∈ ["IF", "CASE"], (Token.identifier name).isWord word = false := by
    intro word hWord
    refine Bool.eq_false_iff.2 fun hSame => ?_
    obtain rfl : name = word.toList := by simpa using hSame
    rw [hWords word hWord] at h
    cases h
  exact ⟨rfl, hNone _ (by simp), hNone _ (by simp)⟩

theorem inner_table {t : Token} (h : IsTable t) : t.IsInner ∧ t.IsQuiet := by
  cases h with
  | name hName => exact ⟨isInner_identifier _, isQuiet_identifier hName⟩
  | quoted => exact inner_atom rfl

theorem inner_connective {t : Token} (h : t.isConnective = true) : t.IsInner ∧ t.IsQuiet := by
  have hWords : ∀ t ∈ [Token.identifier "AND".toList, .identifier "OR".toList],
      t.isWord "IF" = false ∧ t.isWord "CASE" = false ∧ t.opens = false ∧ t.closes = false ∧
        t.isComment = false := by decide
  have hEither : t ∈ [Token.identifier "AND".toList, .identifier "OR".toList] := by
    simpa [Token.isConnective] using h
  obtain ⟨hIf, hCase, hOpens, hCloses, hComment⟩ := hWords t hEither
  exact ⟨⟨hOpens, hCloses⟩, hComment, hIf, hCase⟩

namespace Phrase

variable {n k : Nat} {ls : List Lexeme}

theorem filled (h : Phrase n (k + 1) ls) : ls ≠ [] := by
  cases h <;> simp

theorem balanced (h : Phrase n k ls) : Balanced ls := by
  induction h with
  | nil => rfl
  | atom hAtom => exact balanced_inner ((inner_atom hAtom).1)
  | column hTable hField =>
    exact (balanced_inner (inner_atom (by rw [hField]; rfl)).1).cons_inner (inner_table hTable).1
  | group hOpening _ hClosing ih =>
    exact (isSlot_bracketed (by rw [hOpening]; rfl) (by rw [hClosing]; rfl) ih).balanced
  | call hFirst _ hOpening _ _ hClosing ih =>
    exact (CallRun.IsCall.isSlot (r := ⟨_, _, _, _⟩) ⟨hFirst, hOpening, ih, hClosing⟩).balanced
  | signed hSign _ ih =>
    refine ih.cons_inner ?_
    rcases hSign with hSign | hSign <;> rw [hSign] <;> exact ⟨rfl, rfl⟩
  | negation hWord _ _ ih =>
    refine ih.cons_inner ?_
    rw [hWord]
    exact isInner_identifier _
  | operation _ hSign _ _ iha ihb => exact iha.join_inner (inner_operator hSign).1 ihb
  | connective _ hWord _ _ _ iha ihb => exact iha.join_inner (inner_connective hWord).1 ihb
  | block hOpening _ _ hClosing ih =>
    exact (isSlot_bracketed (by rw [hOpening]; rfl) (by rw [hClosing]; rfl) ih).balanced
  | headed hOpening hWord _ _ hColon _ _ hClosing ihDims ih =>
    refine (isSlot_bracketed (by rw [hOpening]; rfl) (by rw [hClosing]; rfl) ?_).balanced
    have hHead := ihDims.append (balanced_inner (l := _) (by rw [hColon]; exact ⟨rfl, rfl⟩))
    exact (hHead.cons_inner (by rw [hWord]; exact isInner_identifier _)).append ih
  | more _ hComma _ iha ihb =>
    refine iha.join_inner ?_ ihb
    rw [hComma]
    exact ⟨rfl, rfl⟩

theorem quiet (h : Phrase n k ls) : ∀ l ∈ ls, l.token.IsQuiet := by
  have hNegation : negationWord.IsQuiet := ⟨rfl, by decide, by decide⟩
  induction h with
  | nil => simp
  | atom hAtom => simpa using (inner_atom hAtom).2
  | column hTable hField =>
    exact List.forall_mem_cons.2 ⟨(inner_table hTable).2, by simpa [hField] using (inner_atom rfl).2⟩
  | group hOpening _ hClosing ih | block hOpening _ _ hClosing ih =>
    simp only [List.forall_mem_cons, List.forall_mem_append, List.not_mem_nil,
      false_implies, implies_true, and_true, hOpening,
      hClosing]
    exact ⟨⟨rfl, rfl, rfl⟩, ih, ⟨rfl, rfl, rfl⟩⟩
  | call hFirst hName hOpening _ _ hClosing ih =>
    simp only [List.forall_mem_cons, List.forall_mem_append, List.not_mem_nil,
      false_implies, implies_true, and_true, hFirst,
      hOpening, hClosing]
    exact ⟨isQuiet_identifier hName, ⟨rfl, rfl, rfl⟩, ih, ⟨rfl, rfl, rfl⟩⟩
  | signed hSign _ ih =>
    refine List.forall_mem_cons.2 ⟨?_, ih⟩
    rcases hSign with hSign | hSign <;> rw [hSign] <;> exact ⟨rfl, rfl, rfl⟩
  | negation hWord _ _ ih => exact List.forall_mem_cons.2 ⟨hWord ▸ hNegation, ih⟩
  | operation _ hSign _ _ iha ihb =>
    simp only [List.forall_mem_cons, List.forall_mem_append]
    exact ⟨iha, (inner_operator hSign).2, ihb⟩
  | connective _ hWord _ _ _ iha ihb =>
    simp only [List.forall_mem_cons, List.forall_mem_append]
    exact ⟨iha, (inner_connective hWord).2, ihb⟩
  | headed hOpening hWord hName _ hColon _ _ hClosing ihDims ih =>
    simp only [List.forall_mem_cons, List.forall_mem_append, List.not_mem_nil,
      false_implies, implies_true, and_true, hOpening,
      hWord, hColon, hClosing, List.cons_append]
    exact ⟨⟨rfl, rfl, rfl⟩, isQuiet_identifier hName, ⟨⟨ihDims, ⟨rfl, rfl, rfl⟩⟩, ih⟩, ⟨rfl, rfl, rfl⟩⟩
  | more _ hComma _ iha ihb =>
    simp only [List.forall_mem_cons, List.forall_mem_append, hComma]
    exact ⟨iha, ⟨rfl, rfl, rfl⟩, ihb⟩

/-- Outside of brackets a phrase has the commas that it counts, and no colon. -/
theorem separators_eq {p : Token → Bool} (hp : ∀ t, p t = true → t = .comma ∨ t = .colon)
    (h : Phrase n k ls) :
    separators p 0 (ls.map Lexeme.token) = if p .comma then k - 1 else 0 := by
  have hNone : ∀ t : Token, t ≠ .comma → t ≠ .colon → p t = false := fun t hComma hColon =>
    Bool.eq_false_iff.2 fun hFound => (hp t hFound).elim hComma hColon
  have hCons : ∀ {l : Lexeme} {e : List Lexeme}, l.token.IsInner → l.token ≠ .comma →
      l.token ≠ .colon → separators p 0 ((l :: e).map Lexeme.token) =
        separators p 0 (e.map Lexeme.token) := by
    intro l e hInner hComma hColon
    simp [separators, hInner.opens, hInner.closes, hNone _ hComma hColon]
  induction h with
  | nil => simp [separators]
  | @atom _ l hAtom =>
    have hInner := (inner_atom hAtom).1
    rw [hCons hInner (by rintro hToken; rw [hToken] at hAtom; cases hAtom)
      (by rintro hToken; rw [hToken] at hAtom; cases hAtom)]
    simp [separators]
  | @column _ table l name hTable hField =>
    have hKinds : ∀ t, IsTable t → t ≠ .comma ∧ t ≠ .colon := by rintro t (_ | _) <;> simp
    rw [hCons (inner_table hTable).1 (hKinds _ hTable).1 (hKinds _ hTable).2,
      hCons (by rw [hField]; exact ⟨rfl, rfl⟩) (by simp [hField]) (by simp [hField])]
    simp [separators]
  | group hOpening h hClosing | block hOpening h _ hClosing =>
    rw [separators_bracketed (by rw [hOpening]; rfl) (by rw [hClosing]; rfl) h.balanced]
    simp
  | call hFirst _ hOpening h _ hClosing =>
    rw [hCons (by rw [hFirst]; exact isInner_identifier _) (by simp [hFirst]) (by simp [hFirst]),
      separators_bracketed (by rw [hOpening]; rfl) (by rw [hClosing]; rfl) h.balanced]
    simp
  | signed hSign _ ih =>
    rw [hCons, ih]
    all_goals rcases hSign with hSign | hSign <;> rw [hSign]
    all_goals first | exact ⟨rfl, rfl⟩ | simp
  | negation hWord _ _ ih =>
    rw [hCons (by rw [hWord]; exact isInner_identifier _) (by simp [hWord, negationWord])
      (by simp [hWord, negationWord]), ih]
  | @operation _ sign _ _ ha hSign hComma _ iha ihb =>
    have hColon : sign.token ≠ .colon := by rintro hToken; rw [hToken] at hSign; cases hSign
    rw [separators_join ha.balanced (inner_operator hSign).1, iha, ihb, hNone _ hComma hColon]
    simp
  | @connective _ word _ _ ha hWord _ _ _ iha ihb =>
    have hKinds : word.token ≠ .comma ∧ word.token ≠ .colon := by
      constructor <;> rintro hToken <;> rw [hToken] at hWord <;> cases hWord
    rw [separators_join ha.balanced (inner_connective hWord).1, iha, ihb, hNone _ hKinds.1 hKinds.2]
    simp
  | headed hOpening hWord hName hDims hColon h hDepth hClosing =>
    have hHead := (hDims.balanced.append (balanced_inner (l := _) (by rw [hColon]; exact ⟨rfl, rfl⟩)))
    rw [separators_bracketed (by rw [hOpening]; rfl) (by rw [hClosing]; rfl)
      ((hHead.cons_inner (by rw [hWord]; exact isInner_identifier _)).append h.balanced)]
    simp
  | more ha hComma _ iha ihb =>
    rw [separators_join ha.balanced (by rw [hComma]; exact ⟨rfl, rfl⟩), iha, ihb, hComma]
    cases p .comma <;> simp
    omega

theorem isSlot (h : Phrase n 1 ls) : IsSlot ls :=
  ⟨h.balanced, by simpa using h.separators_eq (p := (· == .comma)) (by simp_all)⟩

/-- The expressions of a phrase. -/
theorem exists_rows (h : Phrase n (k + 1) ls) :
    ∃ rows, Listed rows ls ∧ rows.length = k + 1 ∧ ∀ row ∈ rows, Phrase n 1 row := by
  induction k generalizing ls with
  | zero => exact ⟨[ls], .single ls, rfl, by simpa using h⟩
  | succ k ih =>
    cases h with
    | more ha hComma hb =>
      obtain ⟨rows, hListed, hLength, hRows⟩ := ih hb
      exact ⟨_ :: rows, .more _ hComma hListed, by simp [hLength],
        List.forall_mem_cons.2 ⟨ha, hRows⟩⟩

end Phrase

end DaxMigration.Formula
