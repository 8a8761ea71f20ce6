import DaxMigration.Proofs.Dax.Advancing
import DaxMigration.Proofs.Dax.Recasting

/-!
# Clearing phrases of constructs

What splicing makes of a phrase is a phrase with the same expressions between its commas, in which
converted text stands in the place of constructs. One induction over the grammar serves blocks and
table calculations alike: it asks only what is made of a block and of a call.
-/

namespace DaxMigration.Dax

open Formula

/-! ## Words among the operators -/

/-- The words among the operators are no table calculations. -/
theorem exists_word {t : Token} (h : t.isConnective = true ∨ t = negationWord) :
    ∃ name, t = .identifier name ∧ Formula.TableCalc.ofName? name = none := by
  have hWord : t ∈ ["AND", "OR", "NOT"].map fun word => Token.identifier word.toList := by
    rcases h with h | h
    · have hEither : t = .identifier "AND".toList ∨ t = .identifier "OR".toList := by
        simpa [Token.isConnective] using h
      rcases hEither with rfl | rfl <;> decide
    · rw [h]
      decide
  have hNone : ∀ word ∈ ["AND", "OR", "NOT"], Formula.TableCalc.ofName? word.toList = none := by decide
  obtain ⟨word, hMem, rfl⟩ := List.mem_map.1 hWord
  exact ⟨word.toList, rfl, hNone word hMem⟩

/-! ## Cleared phrases -/

/-- A lexeme that splicing may meet. Blocks are replaced before table calculations are. -/
structure Admissible (calls : Bool) (l : Lexeme) : Prop where
  fair : Fair l
  plain : calls = true → l.token ≠ .lbrace

/-- What a phrase may be exchanged for: a phrase without blocks, and without calls that are
converted if those are looked for. -/
structure Cleared (calls : Bool) (n k : Nat) (old new : List Lexeme) : Prop where
  phrase : Phrase n k new
  plain : ∀ l ∈ new, l.token ≠ .lbrace
  fair : ∀ l ∈ new, Fair l
  leading : new.head?.map Lexeme.leading = old.head?.map Lexeme.leading
  resolved : calls = true → Resolved false (k - 1) (new.map Lexeme.token)

namespace Cleared

variable {calls : Bool} {m n k : Nat} {a a' b b' : List Lexeme} {l : Lexeme}

theorem nil : Cleared calls n 0 [] [] :=
  ⟨.nil, by simp, by simp, rfl, fun _ => .nil⟩

theorem atom (hAtom : l.token.isAtom = true) (hFair : Fair l) : Cleared calls n 1 [l] [l] where
  phrase := .atom hAtom
  plain := by simpa using (inner_atom hAtom).1.ne_lbrace
  fair := by simpa using hFair
  leading := rfl
  resolved _ := .inert (inert_of_isAtom hAtom) .nil

/-- A field of a table is kept. -/
theorem column {table : Lexeme} {name : List Char} (hTable : IsTable table.token)
    (hField : l.token = .field name) (hAttached : l.isAttached = true) (hFair : Fair table ∧ Fair l) :
    Cleared calls n 1 [table, l] [table, l] where
  phrase := .column hTable hField hAttached
  plain := by simpa [hField] using (inner_table hTable).1.ne_lbrace
  fair := by simpa using hFair
  leading := rfl
  resolved _ := by
    rw [List.map_cons, List.map_singleton, hField]
    generalize table.token = u at hTable
    cases hTable with
    | name hName => exact .named hName .nil
    | quoted => exact .inert (inert_of_isAtom rfl) (.inert (inert_of_isAtom rfl) .nil)

/-- Converted text in the place of a construct. -/
theorem operand {text : List Char} (h : OperandText text) {first : Lexeme} (hFirst : Fair first)
    (rest : List Lexeme) : Cleared calls n 1 (first :: rest) [.verbatim text first.leading] :=
  have hAlone : Cleared calls n 1 _ _ := atom rfl (.spliced h hFirst.ready.firm.blank)
  ⟨hAlone.phrase, hAlone.plain, hAlone.fair, rfl, hAlone.resolved⟩

/-- White space in front of a phrase stays. -/
theorem apart (h : Cleared calls n k a a') (hApart : ∀ l ∈ a.head?, l.isAttached = false) :
    ∀ l ∈ a'.head?, l.isAttached = false := by
  intro l hl
  have hLeading := h.leading
  rw [Option.mem_def.1 hl] at hLeading
  obtain ⟨m, hm, hSame⟩ := Option.map_eq_some_iff.1 hLeading.symm
  have hThis := hApart m hm
  rwa [Lexeme.isAttached, ← hSame]

theorem after (h : Cleared calls n 1 a a') (hPhrase : Phrase n 1 (l :: a')) (hFair : Fair l)
    (hInert : Inert l.token) : Cleared calls n 1 (l :: a) (l :: a') where
  phrase := hPhrase
  plain := List.forall_mem_cons.2 ⟨hInert.inner.ne_lbrace, h.plain⟩
  fair := List.forall_mem_cons.2 ⟨hFair, h.fair⟩
  leading := rfl
  resolved hCalls := .inert hInert (h.resolved hCalls)

theorem leading_append (h : Cleared calls n (k + 1) a a') (hFilled : a ≠ []) (b b' : List Lexeme) :
    (a' ++ b').head?.map Lexeme.leading = (a ++ b).head?.map Lexeme.leading := by
  rw [List.head?_append_of_ne_nil _ hFilled, List.head?_append_of_ne_nil _ h.phrase.filled]
  exact h.leading

theorem join (ha : Cleared calls n 1 a a') (hb : Cleared calls n 1 b b') (hFilled : a ≠ [])
    (hPhrase : Phrase n 1 (a' ++ l :: b')) (hFair : Fair l) (hInert : Inert l.token) :
    Cleared calls n 1 (a ++ l :: b) (a' ++ l :: b') where
  phrase := hPhrase
  plain := List.forall_mem_append.2 ⟨ha.plain, List.forall_mem_cons.2
    ⟨hInert.inner.ne_lbrace, hb.plain⟩⟩
  fair := List.forall_mem_append.2 ⟨ha.fair, List.forall_mem_cons.2 ⟨hFair, hb.fair⟩⟩
  leading := ha.leading_append hFilled _ _
  resolved hCalls := by
    rw [List.map_append, List.map_cons]
    exact (ha.resolved hCalls).append (by simp) (.inert hInert (hb.resolved hCalls))

theorem more (ha : Cleared calls n 1 a a') (hb : Cleared calls n (k + 1) b b') (hFilled : a ≠ [])
    (hComma : l.token = .comma) (hFair : Fair l) : Cleared calls n (k + 2) (a ++ l :: b) (a' ++ l :: b') where
  phrase := .more ha.phrase hComma hb.phrase
  plain := List.forall_mem_append.2 ⟨ha.plain, List.forall_mem_cons.2 ⟨by simp [hComma], hb.plain⟩⟩
  fair := List.forall_mem_append.2 ⟨ha.fair, List.forall_mem_cons.2 ⟨hFair, hb.fair⟩⟩
  leading := ha.leading_append hFilled _ _
  resolved hCalls := by
    rw [List.map_append, List.map_cons, hComma]
    have hRows := (ha.resolved hCalls).append (by simp) (.comma (hb.resolved hCalls))
    simpa using hRows

section Brackets

variable {opening closing : Lexeme} (hOpening : opening.token = .lparen)
  (hClosing : closing.token = .rparen) (hFair : Fair opening ∧ Fair closing)

include hOpening hClosing hFair

theorem group (h : Cleared calls n 1 a a') :
    Cleared calls n 1 (opening :: (a ++ [closing])) (opening :: (a' ++ [closing])) where
  phrase := .group hOpening h.phrase hClosing
  plain := by simpa [hOpening, hClosing, or_imp, forall_and] using h.plain
  fair := by simpa [hFair, or_imp, forall_and] using h.fair
  leading := rfl
  resolved hCalls := by
    simpa [hOpening, hClosing] using Resolved.group (h.resolved hCalls) .nil

theorem call {first : Lexeme} {name : List Char} (hFirst : first.token = .identifier name)
    (hName : isKeyword name = false) (hDepth : m + callDepth name ≤ n) (hFairFirst : Fair first)
    (hKept : calls = true → isConvertible name k = false) (h : Cleared calls m k a a') :
    Cleared calls n 1 (first :: opening :: (a ++ [closing]))
      (first :: opening :: (a' ++ [closing])) where
  phrase := .call hFirst hName hOpening h.phrase hDepth hClosing
  plain := by simpa [hFirst, hOpening, hClosing, or_imp, forall_and] using h.plain
  fair := by simpa [hFairFirst, hFair, or_imp, forall_and] using h.fair
  leading := rfl
  resolved hCalls := by
    have hCount : argumentCount (k - 1) (a'.map Lexeme.token) = k := by
      rw [argumentCount]
      cases k with
      | zero =>
        cases h.phrase
        rfl
      | succ k => simp [h.phrase.filled]
    have hThis := Resolved.kept hName (hCount.symm ▸ hKept hCalls) (h.resolved hCalls) .nil
    simpa [hFirst, hOpening, hClosing] using hThis

end Brackets

end Cleared

/-! ## Splicing a phrase -/

variable {β : Type}

structure Splicer.Clears (c : Splicer β) (calls : Bool) (room : Nat) : Prop where
  passes : ∀ l : Lexeme, l.token ≠ .lbrace →
    (∀ name, l.token = .identifier name → Formula.TableCalc.ofName? name = none) → c.Passes l
  column : ∀ {table l : Lexeme} {name : List Char}, IsTable table.token → l.token = .field name →
    c.Carries [table, l] (· = [table, l])
  call : ∀ {r : CallRun} {name : List Char} {m k n : Nat}, r.IsCall name → isKeyword name = false →
    Phrase m k r.inner → m + callDepth name ≤ n → n ≤ room → (∀ l ∈ r.lexemes, Admissible calls l) →
    c.Carries r.inner (Cleared calls m k r.inner) → c.Carries r.lexemes (Cleared calls n 1 r.lexemes)
  block : ∀ {r : BlockRun} {m n : Nat}, r.IsBlock → Phrase m 1 r.inner → m < n → n ≤ room →
    (∀ l ∈ r.lexemes, Admissible calls l) → c.Carries r.lexemes (Cleared calls n 1 r.lexemes)

namespace Splicer.Clears

variable {c : Splicer β} {calls : Bool} {room : Nat}

theorem passes_of_ne (h : c.Clears calls room) {l : Lexeme} {t : Token} (hToken : l.token = t)
    (hBrace : t ≠ .lbrace) (hName : t.isIdentifier = false) : c.Passes l := by
  refine h.passes l (hToken ▸ hBrace) fun name hSame => ?_
  rw [← hToken, hSame] at hName
  cases hName

theorem passes_word (h : c.Clears calls room) {l : Lexeme}
    (hWord : l.token.isConnective = true ∨ l.token = negationWord) : c.Passes l ∧ Inert l.token := by
  obtain ⟨name, hToken, hNone⟩ := exists_word hWord
  refine ⟨h.passes l (by simp [hToken]) fun other hSame => ?_, hToken ▸ inert_identifier hNone⟩
  rw [hToken] at hSame
  rwa [← Token.identifier.inj hSame]

/-- A phrase is cleared where its calls and blocks are. -/
theorem phrase (hc : c.Clears calls room) {n k : Nat} {ls : List Lexeme} (h : Phrase n k ls)
    (hRoom : n ≤ room) (hAll : ∀ l ∈ ls, Admissible calls l) : c.Carries ls (Cleared calls n k ls) := by
  induction h with
  | nil => exact carries_nil .nil
  | @atom n l hAtom =>
    have hFair := (hAll l List.mem_cons_self).fair
    have hPass : c.Passes l := by
      refine hc.passes l (inner_atom hAtom).1.ne_lbrace ?_
      rintro name hName
      rw [hName] at hAtom
      cases hAtom
    exact hPass.carries.imp (by rintro _ rfl; exact .atom hAtom hFair)
  | @column n table l name hTable hField hAttached =>
    have hFair : Fair table ∧ Fair l := ⟨(hAll _ (by simp)).fair, (hAll _ (by simp)).fair⟩
    exact (hc.column hTable hField).imp (by rintro _ rfl; exact .column hTable hField hAttached hFair)
  | @group n opening closing e hOpening h hClosing ih =>
    simp only [List.forall_mem_cons, List.forall_mem_append] at hAll
    obtain ⟨hFirst, hInner, hLast, -⟩ := hAll
    exact (ih hRoom hInner).bracketed (hc.passes_of_ne hOpening (by simp) rfl)
      (hc.passes_of_ne hClosing (by simp) rfl) fun e' he => he.group hOpening hClosing ⟨hFirst.fair, hLast.fair⟩
  | @call m n k first opening closing name args hFirst hName hOpening h hDepth hClosing ih =>
    have hInner : ∀ l ∈ args, Admissible calls l := fun l hl => hAll l (by simp [hl])
    have hCall : CallRun.IsCall ⟨first, opening, args, closing⟩ name :=
      ⟨hFirst, hOpening, h.balanced, hClosing⟩
    exact hc.call hCall hName h hDepth hRoom hAll (ih (by omega) hInner)
  | @signed n sign e hSign h ih =>
    obtain ⟨hFirst, hRest⟩ := List.forall_mem_cons.1 hAll
    have hKind : sign.token.isOperator = true ∧ sign.token ≠ .comma ∧ sign.token ≠ .lbrace ∧
        sign.token.isIdentifier = false := by
      rcases hSign with hSign | hSign <;> rw [hSign] <;> decide
    refine (ih hRoom hRest).cons (hc.passes_of_ne rfl hKind.2.2.1 hKind.2.2.2) fun e' he => ?_
    exact he.after (.signed hSign he.phrase) hFirst.fair (inert_of_isOperator hKind.1 hKind.2.1)
  | @negation n word e hWord hApart h ih =>
    obtain ⟨hFirst, hRest⟩ := List.forall_mem_cons.1 hAll
    obtain ⟨hPass, hInert⟩ := hc.passes_word (.inr hWord)
    refine (ih hRoom hRest).cons hPass fun e' he => ?_
    exact he.after (.negation hWord (he.apart hApart) he.phrase) hFirst.fair hInert
  | @operation n sign a b ha hSign hComma hb iha ihb =>
    simp only [List.forall_mem_cons, List.forall_mem_append] at hAll
    obtain ⟨hLeft, hThis, hRight⟩ := hAll
    have hName : sign.token.isIdentifier = false := by
      cases hToken : sign.token <;> first | rfl | simp [hToken, Token.isOperator] at hSign
    refine (iha hRoom hLeft).join (hc.passes_of_ne rfl (inner_operator hSign).1.ne_lbrace hName) (ihb hRoom hRight) fun a' b' ha' hb' => ?_
    exact ha'.join hb' ha.filled (.operation ha'.phrase hSign hComma hb'.phrase) hThis.fair
      (inert_of_isOperator hSign hComma)
  | @connective n word a b ha hWord hLeft hRight hb iha ihb =>
    simp only [List.forall_mem_cons, List.forall_mem_append] at hAll
    obtain ⟨hFirst, hThis, hRest⟩ := hAll
    obtain ⟨hPass, hInert⟩ := hc.passes_word (.inl hWord)
    refine (iha hRoom hFirst).join hPass (ihb hRoom hRest) fun a' b' ha' hb' => ?_
    exact ha'.join hb' ha.filled (.connective ha'.phrase hWord hLeft (hb'.apart hRight) hb'.phrase)
      hThis.fair hInert
  | @block m n opening closing e hOpening h hDepth hClosing ih =>
    have hNone : separators (· == .colon) 0 (e.map Lexeme.token) = 0 :=
      h.separators_eq (by simp_all)
    have hBlock : BlockRun.IsBlock ⟨opening, [], e, closing⟩ :=
      ⟨hOpening, .inl ⟨rfl, hNone⟩, h.balanced, hClosing⟩
    exact hc.block hBlock h hDepth hRoom hAll
  | @headed m n k opening word colon closing name dims e hOpening hWord hName hDims hColon h hDepth hClosing =>
    have hBefore : Balanced (word :: dims) :=
      hDims.balanced.cons_inner (by rw [hWord]; exact isInner_identifier name)
    have hNone : separators (· == .colon) 0 ((word :: dims).map Lexeme.token) = 0 := by
      have hRest := @Phrase.separators_eq _ _ _ (· == .colon) (by simp_all) hDims
      simpa [separators, hWord, Token.opens, Token.closes] using hRest
    have hBlock : BlockRun.IsBlock ⟨opening, word :: (dims ++ [colon]), e, closing⟩ :=
      ⟨hOpening, .inr ⟨word :: dims, colon, rfl, hBefore, hNone, hColon⟩, h.balanced, hClosing⟩
    exact hc.block hBlock h hDepth hRoom hAll
  | @more n k comma a b ha hComma hb iha ihb =>
    simp only [List.forall_mem_cons, List.forall_mem_append] at hAll
    obtain ⟨hLeft, hThis, hRight⟩ := hAll
    refine (iha hRoom hLeft).join (hc.passes_of_ne hComma (by simp) rfl) (ihb hRoom hRight) fun a' b' ha' hb' => ?_
    exact ha'.more hb' ha.filled hComma hThis.fair

end Splicer.Clears

end DaxMigration.Dax
