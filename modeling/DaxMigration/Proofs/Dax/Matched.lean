import DaxMigration.Proofs.Dax.Constructs
import DaxMigration.Proofs.Dax.Counting

/-!
# Balanced formulas

A formula in which every bracket is closed is converted to a text in which every bracket is closed,
provided that each of its divisions and products has an operand on either side. An operator without
one can meet the mark of another in the text, and the two are read as a comment.
-/

namespace DaxMigration.Dax

open Formula Text

variable {t : Target} {ls : List Lexeme}

/-! ## The standard rules -/

theorem grouped_matched : Grouped true IsMatched IsMatched Faithful where
  brackets hOpening hClosing hOpens hCloses := by
    have hBrackets := grouped_single.brackets hOpening hClosing hOpens hCloses
    exact { hBrackets with text := fun inner hInner => (hBrackets.text inner hInner).toIsMatched }
  inner hl := grouped_single.inner hl
  outer hl hOpens hCloses _ := grouped_single.inner hl hOpens hCloses
  weaken h := h

/-- The standard rules make a matched text of a balanced row. -/
theorem isMatched_standard (ht : t.IsNamed) (hAll : ∀ l ∈ ls, Faithful l)
    (hFlanked : Flanked true ls) (hBalanced : Balanced ls) : IsMatched (standard t ls) := by
  obtain ⟨hFaithful, hRow, hTokens⟩ := faithful_rules ht hAll hFlanked
  have hComma : ∀ l, Faithful l → l.token = .comma → Bears true IsMatched l := fun l hl hToken =>
    grouped_single.inner hl (by rw [hToken]; rfl) (by rw [hToken]; rfl)
  have hPieces := piecesHave_group grouped_matched hFaithful
    (.inr ⟨balanced_of_filter hTokens hBalanced, .inl hComma⟩)
  exact (convertDivision_keeps keeps_matched keeps_matched hPieces hRow.flanked).1.trim

/-! ## Formulas -/

theorem isMatched_daxText (ht : t.IsNamed) {formula : List Char} (h : IsSound (tokenize formula))
    (hBalanced : Balanced (tokenize formula)) {kind : Kind} {dax : List Char}
    (hGives : Gives (daxText t kind (tokenize formula)) dax) : IsMatched dax := by
  have hSustains := sustains_argument ht
  have hAll := h.faithful (List.infix_refl _)
  have hFlanked := h.operators
  have hKept : ∀ {row : List Lexeme}, Preserved true Faithful (tokenize formula) row →
      IsMatched (standard t row) := fun hRow =>
    isMatched_standard ht hRow.lexemes (hRow.flanked hFlanked) ((hRow.level 0).trans hBalanced)
  unfold daxText at hGives
  split at hGives
  · rw [gives_standardRemarked hGives]
    exact isMatched_standard ht hAll hFlanked hBalanced
  · obtain ⟨row, hRow, hText⟩ := hGives.of_bind
    have hPreserved := preserved_spliceConditionals hAll hFlanked.chain hRow
    rw [gives_pure_iff.1 hText]
    exact (isMatched_qualified t hPreserved.lexemes (hPreserved.flanked hFlanked)
      ((hPreserved.level 0).trans hBalanced)).1
  · obtain ⟨row, hRow, hText⟩ := hGives.of_bind
    rw [gives_standardRemarked hText]
    exact hKept (hSustains.spliceTableCalcs hAll hFlanked.chain hRow)
  · obtain ⟨first, hFirst, hGives⟩ := hGives.of_bind
    obtain ⟨second, hSecond, hGives⟩ := hGives.of_bind
    obtain ⟨third, hThird, hText⟩ := hGives.of_bind
    have hLods := hSustains.spliceLods hAll hFlanked.chain h.bodies hFirst
    have hConditionals := hLods.trans
      (preserved_spliceConditionals hLods.lexemes (hLods.isChain hFlanked.chain) hSecond)
    rw [gives_standardRemarked hText]
    exact hKept (hConditionals.trans
      (hSustains.spliceTableCalcs hConditionals.lexemes (hConditionals.isChain hFlanked.chain) hThird))

/-! ## Verdicts -/

theorem mem_issues {cs : List Char} :
    (.unbalancedParens ∈ issues cs → (tally cs).parens ≠ 0) ∧
      (.unbalancedBrackets ∈ issues cs → (tally cs).brackets ≠ 0) := by
  unfold issues
  split
  · simp
  · constructor
    · intro hMem hZero
      simp [hZero] at hMem
    · intro hMem hZero
      simp [hZero] at hMem

/-- As many brackets are opened as are closed, but for the depth that is gained. -/
theorem count_of_level {depth stop : Nat} {ts : List Token} (h : level depth ts = some stop) :
    depth + ts.countP Token.opens = stop + ts.countP Token.closes := by
  induction ts generalizing depth with
  | nil =>
    obtain rfl : depth = stop := Option.some.inj h
    rfl
  | cons t ts ih =>
    rw [level] at h
    cases hOpens : t.opens with
    | true =>
      have hNot : t.closes = false := by cases t <;> first | rfl | cases hOpens
      rw [if_pos hOpens] at h
      have hRest := ih h
      simp only [List.countP_cons, hOpens, hNot, if_true, Bool.false_eq_true, if_false]
      omega
    | false =>
      rw [if_neg (Bool.eq_false_iff.1 hOpens)] at h
      cases hCloses : t.closes with
      | true =>
        rw [if_pos hCloses] at h
        split at h
        · cases h
        · have hRest := ih h
          simp only [List.countP_cons, hOpens, hCloses, if_true, Bool.false_eq_true, if_false]
          omega
      | false =>
        rw [if_neg (Bool.eq_false_iff.1 hCloses)] at h
        simpa [hOpens, hCloses] using ih h

/-- A balanced row without braces has as many opening as closing parentheses. -/
theorem parenBalance_of_balanced (h : Balanced ls)
    (hBraces : ∀ l ∈ ls, l.token ≠ .lbrace ∧ l.token ≠ .rbrace) : parenBalance ls = 0 := by
  have hCount := count_of_level h
  have hOpens : ls.countP (·.token == .lparen) = ls.countP (Token.opens ∘ Lexeme.token) := by
    refine List.countP_congr fun l hl => ?_
    have hNot := (hBraces l hl).1
    cases hToken : l.token <;> simp_all [Token.opens]
  have hCloses : ls.countP (·.token == .rparen) = ls.countP (Token.closes ∘ Lexeme.token) := by
    refine List.countP_congr fun l hl => ?_
    have hNot := (hBraces l hl).2
    cases hToken : l.token <;> simp_all [Token.closes]
  rw [List.countP_map, List.countP_map] at hCount
  rw [parenBalance, hOpens, hCloses]
  omega

/-- What is read of a matched text. -/
theorem IsMatched.tokens {text : List Char} (h : IsMatched text) : Balanced (tokenize text) ∧
    (∀ l ∈ tokenize text, l.isTerminated = true) ∧ ∀ l ∈ tokenize text, l.token ≠ .illegal ']' := by
  refine ⟨?_, isTerminated_of_calm h.fluent.calm, fun l hl hToken => h.fluent.closed ?_⟩
  · rw [Formula.Balanced, ← level_filter, ← Mode.delimiters_eq_filter]
    exact h.balanced
  · rw [Mode.delimiters_eq_filter, List.mem_filter]
    exact ⟨hToken ▸ List.mem_map_of_mem hl, rfl⟩

/-- The text that a balanced formula is converted to is balanced and its references are closed, so
that no verdict finds its square brackets unbalanced, nor its parentheses if no brace is left. -/
theorem balanced_of_attempt (ht : t.IsNamed) {formula : List Char} (h : IsSound (tokenize formula))
    (hBalanced : Balanced (tokenize formula)) {kind : Kind} {facts : Facts} {dax : List Char}
    {remarks : List Remark} (hAttempt : attempt t formula = .converted kind facts dax remarks) :
    Balanced (tokenize dax) ∧ (∀ l ∈ tokenize dax, l.isTerminated = true) ∧
      .unbalancedBrackets ∉ issues dax ∧
      ((∀ l ∈ tokenize dax, l.token ≠ .lbrace ∧ l.token ≠ .rbrace) →
        .unbalancedParens ∉ issues dax) := by
  obtain ⟨rfl, hGives⟩ := gives_of_attempt hAttempt
  obtain ⟨hLevel, hTerminated, hStray⟩ := (isMatched_daxText ht h hBalanced hGives).tokens
  have hTally := tally_of_closed fun l hl _ => hTerminated l hl
  refine ⟨hLevel, hTerminated, fun hMem => mem_issues.2 hMem ?_, fun hBraces hMem =>
    mem_issues.1 hMem ?_⟩
  · rw [hTally]
    simpa [rowTally, strayBrackets, List.countP_eq_zero] using hStray
  · rw [hTally]
    exact parenBalance_of_balanced hLevel hBraces

end DaxMigration.Dax
