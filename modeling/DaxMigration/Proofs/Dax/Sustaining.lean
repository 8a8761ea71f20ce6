import DaxMigration.Proofs.Dax.Arguments

/-!
# Rows that make arguments

Whatever a row is spliced from, its lexemes have the brackets and commas of their texts. So every
construct is converted to a text that can stand as one argument, however deep it lies.
-/

namespace DaxMigration.Dax

open Formula Text

variable {t : Target} {l : Lexeme} {ls ls' : List Lexeme}

theorem faithful_verbatim {text leading : List Char} (hText : IsArgument text)
    (hMarks : inked text ≠ []) (hBlank : allBlank leading = true) :
    Faithful (Lexeme.verbatim text leading) where
  bears := ⟨hBlank, hMarks, rfl, fun _ => hText.fluent, fun _ hSlash => (nomatch hSlash),
    fun _ _ => hText.parts⟩
  sign hSlash := nomatch hSlash
  delimiters hNot := nomatch hNot
  verbatim _ := hText

/-! ## Conditionals -/

/-- What a part is converted to has its brackets closed. -/
theorem isMatched_partText {room : Nat} {run : List Lexeme} {text : List Char}
    (ih : ∀ {ls ls' : List Lexeme}, (∀ l ∈ ls, Faithful l) → ls.IsChain (Meets true) →
      Gives (spliceConditionals t room ls) ls' → Preserved true Faithful ls ls')
    (hAll : ∀ l ∈ run, Faithful l) (hChain : run.IsChain (Meets true))
    (h : PartText t room run text) : IsMatched text := by
  obtain ⟨row, spliced, hPart, hSpliced, rfl⟩ := h
  obtain ⟨first, last, -, -, hWithin⟩ := hPart.between
  have hRow : row <:+: run := List.IsInfix.trans ⟨[first], [last], by simp⟩ hWithin
  have hPreserved := ih (fun l hl => hAll l (hRow.subset hl)) (isChain_within hChain hRow) hSpliced
  have hBalanced : Balanced spliced := (hPreserved.level 0).trans hPart.balanced
  exact (isMatched_qualified t hPreserved.lexemes (hPreserved.flanked (hPart.flanked hChain))
    hBalanced).1

theorem isMatched_callText {name : String} (hName : name ∈ generatedFunctions)
    (texts : List (List Char)) (h : ∀ u ∈ texts, IsMatched u) : IsMatched (callText name texts) :=
  (isArgument_callText hName h).toIsMatched

theorem neutral_conditionalSwap {room : Nat}
    (ih : ∀ {ls ls' : List Lexeme}, (∀ l ∈ ls, Faithful l) → ls.IsChain (Meets true) →
      Gives (spliceConditionals t room ls) ls' → Preserved true Faithful ls ls')
    {run made : List Lexeme} (hAll : ∀ l ∈ run, Faithful l) (hChain : run.IsChain (Meets true))
    (h : ConditionalSwap t room run made) : Neutral true Faithful run made := by
  cases h with
  | @made word body name args hBalanced hShape =>
    have hName : name ∈ generatedFunctions := hShape.1
    have hTexts : ∀ u ∈ Shape.writtenAll args, IsMatched u := by
      rw [Shape.writtenAll_eq]
      intro u hu
      obtain ⟨s, hs, rfl⟩ := List.mem_map.1 hu
      have hPart := (Shape.allOf_iff.1 hShape.2 s hs).mono fun text hText =>
        isMatched_partText ih hAll hChain hText
      exact hPart.written fun name hName texts hAll => isMatched_callText hName texts hAll
    have hText := isArgument_callText hName hTexts
    have hBlank := (hAll word List.mem_cons_self).bears.blank
    exact neutral_verbatim (faithful_verbatim hText (marks_callText hName _) hBlank) hBalanced

/-- Splicing conditionals preserves a row. -/
theorem preserved_spliceConditionals {room : Nat} (hAll : ∀ l ∈ ls, Faithful l)
    (hChain : ls.IsChain (Meets true)) (h : Gives (spliceConditionals t room ls) ls') :
    Preserved true Faithful ls ls' := by
  induction room generalizing ls ls' with
  | zero => exact absurd h (not_gives_failure _)
  | succ room ih =>
    refine preserved_of_replaced ((replaced_spliceConditionals h).within.mono ?_) hAll
    rintro run made ⟨hSwap, hWithin⟩
    exact neutral_conditionalSwap ih (fun l hl => hAll l (hWithin.subset hl))
      (isChain_within hChain hWithin) hSwap

/-- What is converted is an argument, in rows that no comma parts. -/
theorem sustains_argument (ht : t.IsNamed) : Sustains t true Faithful IsArgument IsSlot where
  comment h := h.bears.comment
  blank h := h.bears.blank
  verbatim := faithful_verbatim
  slot := id
  kept h hRow := h.isSlot hRow
  standard := isArgument_standard ht
  call hName _ h := isArgument_callText hName fun u hu => (h u hu).toIsMatched
  texts := isArgument_texts t
  column := isArgument_column t
  conditionals := preserved_spliceConditionals

/-- Whatever derives from a row in which no comma parts the expressions of blocks. -/
theorem preserved_of_derived (ht : t.IsNamed) (hAll : ∀ l ∈ ls, Faithful l)
    (hChain : ls.IsChain (Meets true)) (hBodies : BodiesHave IsSlot ls) (h : Derived t ls ls') :
    Preserved true Faithful ls ls' := by
  have hSustains := sustains_argument ht
  induction h with
  | refl => exact .refl hAll
  | lods h =>
    refine preserved_of_replaced (h.within.mono ?_) hAll
    rintro run made ⟨hSwap, hWithin⟩
    exact hSustains.neutral_lodSwap hSustains.spliceLods (fun l hl => hAll l (hWithin.subset hl))
      (isChain_within hChain hWithin) (hBodies.within hWithin) hSwap
  | conditionals _ hSwaps ih =>
    have hMid := ih hAll hChain hBodies
    refine hMid.trans (preserved_of_replaced (hSwaps.within.mono ?_) hMid.lexemes)
    rintro run made ⟨hSwap, hWithin⟩
    exact neutral_conditionalSwap preserved_spliceConditionals
      (fun l hl => hMid.lexemes l (hWithin.subset hl)) (isChain_within (hMid.isChain hChain) hWithin) hSwap

/-! ## Formulas -/

theorem faithful_of_mem_tokenize {formula : List Char} (hl : l ∈ tokenize formula)
    (hTerminated : l.isTerminated = true) (hComment : l.isComment = false)
    (hClosed : l.token ≠ .illegal ']') : Faithful l where
  bears := bears_of_mem_tokenize true hl hTerminated hComment hClosed
  sign := text_of_slash hl
  delimiters := (spelled_of_mem_tokenize hl hTerminated hComment).delimiters
  verbatim hVerbatim := by
    rw [(isRead_tokenize formula).original l hl] at hVerbatim
    cases hVerbatim

end DaxMigration.Dax
