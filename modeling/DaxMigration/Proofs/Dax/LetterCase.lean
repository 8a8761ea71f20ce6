import DaxMigration.Dax.Standard
import DaxMigration.Proofs.Dax.Counting
import DaxMigration.Proofs.Formula.CaselessRows

/-!
# Rules without letter case

A row is converted by the standard rules to the same text but for letter case as its caseless form, and
judged alike: names are looked up in upper case, and all that the rules ask of a lexeme besides is what
sort of token it is.
-/

namespace DaxMigration.Dax

open Formula Text

variable {t : Target}

/-! ## Spelling -/

theorem calledName_caseless (l : Lexeme) (rest : List Lexeme) :
    calledName? l.caseless (rest.map Lexeme.caseless) = calledName? l rest := by
  obtain ⟨token, text, leading⟩ := l
  rw [calledName?, calledName?, followedByParen_caseless]
  cases token <;> rfl

theorem mapFunctions_caseless (ls : List Lexeme) :
    (mapFunctions t (ls.map Lexeme.caseless)).map Lexeme.caseless =
      (mapFunctions t ls).map Lexeme.caseless := by
  induction ls with
  | nil => rfl
  | cons l ls ih =>
    rw [List.map_cons, mapFunctions, mapFunctions, calledName_caseless]
    split
    · simp [ih, Lexeme.caseless]
    · simp [ih]

theorem namesTable_caseless (rest : List Lexeme) :
    namesTable (rest.map Lexeme.caseless) = namesTable rest := by
  cases rest with
  | nil => rfl
  | cons l rest => simp [namesTable]

theorem normalize_caseless (ls : List Lexeme) :
    normalize (ls.map Lexeme.caseless) = (normalize ls).map Lexeme.caseless := by
  induction ls with
  | nil => rfl
  | cons l ls ih =>
    obtain ⟨token, text, leading⟩ := l
    rw [List.map_cons, normalize, normalize, List.map_cons, ih, namesTable_caseless]
    refine congrArg (· :: _) ?_
    cases token with
    | singleQuoted content =>
      have hMark : ∀ c : Char, c.toLower = '"' ↔ c = '"' := fun c => toLower_eq_iff (by decide)
      simp only [Lexeme.caseless, Token.caseless]
      split
      · rfl
      · simp [double_caseless hMark]
    | _ => rfl

theorem bracketed_caseless (name : List Char) : bracketed (caseless name) = caseless (bracketed name) := by
  have hMark : ∀ c : Char, c.toLower = ']' ↔ c = ']' := fun c => toLower_eq_iff (by decide)
  rw [bracketed, bracketed, double_caseless hMark, caseless_append]
  rfl

theorem column_caseless (name : List Char) :
    caseless (t.column (caseless name)) = caseless (t.column name) := by
  rw [Target.column, Target.column, bracketed_caseless, caseless_append, caseless_append, caseless_caseless]

theorem isTableName_caseless (token : Token) : isTableName token.caseless = isTableName token := by
  cases token <;> rfl

theorem qualify_caseless (previous : Option Token) (ls : List Lexeme) :
    (qualify t (previous.map Token.caseless) (ls.map Lexeme.caseless)).map Lexeme.caseless =
      (qualify t previous ls).map Lexeme.caseless := by
  induction ls generalizing previous with
  | nil => rfl
  | cons l ls ih =>
    have hRest := ih (some l.token)
    obtain ⟨token, text, leading⟩ := l
    rw [List.map_cons, qualify, qualify, List.map_cons, List.map_cons]
    refine congrArg₂ _ ?_ hRest
    cases token with
    | field name =>
      have hTable : (previous.map Token.caseless).any isTableName = previous.any isTableName := by
        cases previous with
        | none => rfl
        | some token => exact isTableName_caseless token
      simp only [Lexeme.token_caseless, Token.caseless, Lexeme.isAttached_caseless, hTable]
      split
      · rw [Lexeme.caseless_caseless]
      · simp [Lexeme.caseless, Token.caseless, column_caseless]
    | _ => simp [Lexeme.caseless, Token.caseless]

/-! ## Quotients -/

namespace TermUnit

def caseless (u : TermUnit) : TermUnit :=
  ⟨Text.caseless u.leading, Text.caseless u.text, u.kind⟩

theorem written_caseless (u : TermUnit) : u.caseless.written = Text.caseless u.written := by
  simp [written, caseless]

end TermUnit

theorem join_caseless (us : List TermUnit) : join (us.map TermUnit.caseless) = caseless (join us) := by
  induction us with
  | nil => rfl
  | cons u us ih =>
    rw [join, join, List.map_cons, List.flatMap_cons, List.flatMap_cons, caseless_append,
      TermUnit.written_caseless]
    exact congrArg _ ih

theorem cutAt_caseless {p : TermUnit → Bool} (h : ∀ u : TermUnit, p u.caseless = p u) (us : List TermUnit) :
    cutAt p (us.map TermUnit.caseless) = ((cutAt p us).1.map TermUnit.caseless,
      (cutAt p us).2.map (Prod.map TermUnit.caseless (List.map TermUnit.caseless))) := by
  induction us with
  | nil => rfl
  | cons u us ih =>
    rw [List.map_cons, cutAt, cutAt, ih, h]
    cases p u <;> rfl

theorem applyOperator_caseless {acc acc' : List Char} (h : caseless acc = caseless acc') (operator : TermUnit)
    (factor : List TermUnit) :
    caseless (applyOperator acc operator.caseless (factor.map TermUnit.caseless)) =
      caseless (applyOperator acc' operator factor) := by
  have hEmpty : acc.isEmpty = acc'.isEmpty := by
    rw [← isEmpty_caseless, h, isEmpty_caseless]
  have hDivide : operator.caseless.isDivide = operator.isDivide := rfl
  simp only [applyOperator, join_caseless, trim_caseless, isEmpty_caseless, hEmpty, hDivide]
  split
  · simp [h]
  · simp [h, TermUnit.written_caseless]

theorem foldTerm_caseless (term : List TermUnit) :
    caseless (foldTerm (term.map TermUnit.caseless)) = caseless (foldTerm term) := by
  have hAny : (term.map TermUnit.caseless).any TermUnit.isDivide = term.any TermUnit.isDivide := by
    rw [List.any_map]
    rfl
  have hFold : ∀ (factors : List (TermUnit × List TermUnit)) (acc acc' : List Char),
      caseless acc = caseless acc' →
      caseless ((factors.map (Prod.map TermUnit.caseless (List.map TermUnit.caseless))).foldl
        (fun acc f => applyOperator acc f.1 f.2) acc) =
      caseless (factors.foldl (fun acc f => applyOperator acc f.1 f.2) acc') := by
    intro factors
    induction factors with
    | nil => exact fun acc acc' h => h
    | cons f factors ih => exact fun acc acc' h => ih _ _ (applyOperator_caseless h f.1 f.2)
  rw [foldTerm, foldTerm, hAny]
  split
  · rw [cutAt_caseless fun u => rfl]
    simp only [caseless_append]
    refine congrArg₂ _ ?_ (hFold _ _ _ ?_)
    · cases (cutAt TermUnit.isOperator term).1 with
      | nil => rfl
      | cons u us => exact caseless_caseless u.leading
    · rw [join_caseless, trim_caseless, caseless_caseless]
  · rw [join_caseless, caseless_caseless]

theorem foldTerms_caseless (us : List TermUnit) :
    caseless (foldTerms (us.map TermUnit.caseless)) = caseless (foldTerms us) := by
  rw [foldTerms, foldTerms, cutAt_caseless fun u => rfl]
  simp only [caseless_append, foldTerm_caseless]
  refine congrArg _ ?_
  induction (cutAt TermUnit.isBoundary us).2 with
  | nil => rfl
  | cons part parts ih =>
    simp only [List.map_cons, List.flatMap_cons, caseless_append, Prod.map, TermUnit.written_caseless,
      caseless_caseless, foldTerm_caseless, ih]

/-- Units that are equal but for letter case are folded to such texts. -/
theorem caseless_foldTerms_congr {us us' : List TermUnit}
    (h : us.map TermUnit.caseless = us'.map TermUnit.caseless) :
    caseless (foldTerms us) = caseless (foldTerms us') := by
  rw [← foldTerms_caseless us, h, foldTerms_caseless]

theorem unitKind_caseless (previous : Option UnitKind) (token : Token) :
    unitKind previous token.caseless = unitKind previous token := by
  cases token <;> rfl

theorem kindAfter_caseless (previous : Option UnitKind) (p : Piece) :
    kindAfter previous (Piece.caseless p) = kindAfter previous p := by
  cases p with
  | leaf l => simp [Piece.caseless, kindAfter, unitKind_caseless]
  | group => rfl

mutual

theorem unitOf_caseless (previous : Option UnitKind) : ∀ p : Piece,
    (unitOf previous (Piece.caseless p)).caseless = (unitOf previous p).caseless
  | .leaf l => by
    simp [Piece.caseless, unitOf, TermUnit.caseless, unitKind_caseless]
  | .group opening inner closing => by
    have hInner := caseless_foldTerms_congr (units_caseless none inner)
    simp [Piece.caseless, Piece.caselessAll_eq_map, unitOf, TermUnit.caseless, hInner, Lexeme.written]

theorem units_caseless (previous : Option UnitKind) : ∀ ps : List Piece,
    (units previous (ps.map Piece.caseless)).map TermUnit.caseless = (units previous ps).map TermUnit.caseless
  | [] => rfl
  | p :: ps => by
    rw [List.map_cons, units, units, List.map_cons, List.map_cons, unitOf_caseless previous p,
      kindAfter_caseless, units_caseless _ ps]

end

theorem convertDivision_caseless (ls : List Lexeme) :
    caseless (convertDivision (ls.map Lexeme.caseless)) = caseless (convertDivision ls) := by
  rw [convertDivision, group_caseless]
  exact caseless_foldTerms_congr (units_caseless none (group ls))

/-! ## Alike rows -/

def CaseAlike (ls ls' : List Lexeme) : Prop :=
  ls.map Lexeme.caseless = ls'.map Lexeme.caseless

namespace CaseAlike

variable {ls ls' : List Lexeme}

/-- What does not see letter case does not tell alike rows apart. -/
theorem congr {β : Type} {f : List Lexeme → β} (h : CaseAlike ls ls')
    (hf : ∀ ls, f (ls.map Lexeme.caseless) = f ls) : f ls = f ls' := by
  rw [← hf ls, show _ = _ from h, hf]

theorem slice (h : CaseAlike ls ls') (s : Span) : CaseAlike (s.slice ls) (s.slice ls') := by
  rw [CaseAlike, ← slice_map, show _ = _ from h, slice_map]

theorem append {a a' : List Lexeme} (ha : CaseAlike a a') (h : CaseAlike ls ls') :
    CaseAlike (a ++ ls) (a' ++ ls') := by
  rw [CaseAlike, List.map_append, List.map_append, show _ = _ from ha, show _ = _ from h]

theorem mapFunctions (h : CaseAlike ls ls') : CaseAlike (mapFunctions t ls) (mapFunctions t ls') :=
  h.congr (f := fun ls => (Dax.mapFunctions t ls).map Lexeme.caseless) mapFunctions_caseless

theorem normalize (h : CaseAlike ls ls') : CaseAlike (normalize ls) (normalize ls') := by
  rw [CaseAlike, ← normalize_caseless, show _ = _ from h, normalize_caseless]

theorem qualify (h : CaseAlike ls ls') : CaseAlike (qualify t none ls) (qualify t none ls') :=
  h.congr (f := fun ls => (Dax.qualify t none ls).map Lexeme.caseless) (qualify_caseless none)

theorem render (h : CaseAlike ls ls') : caseless (render ls) = caseless (render ls') := by
  rw [← render_caseless, show _ = _ from h, render_caseless]

/-- Spelling and qualification see no letter case. -/
theorem qualified (h : CaseAlike ls ls') : caseless (qualified t ls) = caseless (qualified t ls') :=
  h.normalize.qualify.render

/-- The standard rules see no letter case. -/
theorem standard (h : CaseAlike ls ls') : caseless (standard t ls) = caseless (standard t ls') := by
  have hRow : CaseAlike (Dax.qualify t none (Dax.normalize (Dax.mapFunctions t ls)))
      (Dax.qualify t none (Dax.normalize (Dax.mapFunctions t ls'))) :=
    h.mapFunctions.normalize.qualify
  have hDivided := hRow.congr (f := fun ls => caseless (convertDivision ls)) convertDivision_caseless
  rw [Dax.standard, Dax.standard, ← trim_caseless, hDivided, trim_caseless]

end CaseAlike

/-! ## Verdicts -/

theorem isClosedField_caseless {cs : List Char} {l : Lexeme} {name : List Char} (h : l ∈ tokenize cs)
    (hName : l.token = .field name) : isClosedField l.caseless (caseless name) = isClosedField l name := by
  rw [isClosedField, isClosedField, bracketed_caseless, Lexeme.text_caseless]
  cases hClosed : l.isTerminated with
  | true =>
    have hText : l.text = bracketed name := by
      rw [Lexeme.isTerminated, hName] at hClosed
      exact beq_iff_eq.1 hClosed
    simp [hText]
  | false =>
    obtain ⟨_, q, -, -, hOpen⟩ := tokenize_of_unterminated h hClosed
    have hText : l.text = '[' :: double ']' name := by
      obtain ⟨hLiteral, s, leading⟩ := hOpen
      cases hLiteral <;> cases hName
      rfl
    have hShort : l.text.length ≠ (bracketed name).length := by
      simp [hText, bracketed]
    have hHere : (l.text == bracketed name) = false := beq_eq_false_iff_ne.2 fun hSame => hShort (hSame ▸ rfl)
    have hThere : (caseless l.text == caseless (bracketed name)) = false := by
      apply beq_eq_false_iff_ne.2
      intro hSame
      apply hShort
      rw [← length_caseless, hSame, length_caseless]
    rw [hHere, hThere]

theorem share_caseless {cs : List Char} {l : Lexeme} (h : l ∈ tokenize cs)
    (hShorter : ∀ x : List Char, x.length < cs.length → tally (caseless x) = tally x) :
    share l.caseless = share l := by
  cases hToken : l.token with
  | field name =>
    have hTail : tally (caseless l.text.tail) = tally l.text.tail := by
      apply hShorter
      have hLength := text_of_mem_tokenize h
      rw [List.length_tail]
      omega
    have hDrop : (caseless l.text).tail = caseless l.text.tail := by
      rw [caseless, caseless, List.map_tail]
    have hClosed := isClosedField_caseless h hToken
    rw [share, share, Lexeme.token_caseless, hToken]
    simp only [Token.caseless, hClosed, Lexeme.text_caseless, hDrop, hTail]
  | illegal c =>
    rw [share, share, Lexeme.token_caseless, hToken]
    by_cases hBracket : c = ']'
    · subst hBracket
      rfl
    · simp [Token.caseless, hBracket]
  | _ => rw [share, share, Lexeme.token_caseless, hToken]; rfl

/-- Delimiters are counted without letter case, and so is what an unclosed reference takes in. -/
theorem tally_caseless (cs : List Char) : tally (caseless cs) = tally cs := by
  induction hn : cs.length using Nat.strongRecOn generalizing cs with
  | ind n ih =>
    rw [tally_eq, tally_eq, tokenize_caseless, List.foldl_map]
    apply List.foldl_ext
    intro acc l hl
    rw [share_caseless hl fun x hx => ih x.length (hn ▸ hx) x rfl]

theorem hasAssignment_caseless (cs : List Char) : hasAssignment (caseless cs) = hasAssignment cs := by
  rw [hasAssignment, hasAssignment, tokenize_caseless,
    topLevelFrom_caseless _ fun token => token.beq_caseless rfl]

/-- A text is judged without letter case. -/
theorem issues_caseless (cs : List Char) : issues (caseless cs) = issues cs := by
  rw [issues, issues, allBlank_caseless, tally_caseless, hasAssignment_caseless]

end DaxMigration.Dax
