import DaxMigration.Proofs.Formula.Legible

/-!
# Reading loses nothing

A text is its lexemes, each with the white space in front of it, and white space at the end. A
lexeme also stands for itself: its own characters, read alone, give its token and nothing else, open
literals and comments included. What is written of all lexemes is therefore the text without the
white space around it.
-/

namespace DaxMigration.Formula

open Text

/-! ## One token alone -/

namespace Scan

/-- A literal takes from its own characters what it took from the text. -/
theorem literal_taken (q : Char) (token : List Char → Token) (cs : List Char) :
    literal q token (readLiteral q cs).taken =
      ⟨⟨(readLiteral q cs).taken, []⟩, token (readLiteral q cs).content⟩ := by
  cases hClosed : (readLiteral q cs).closed with
  | true => simpa using @literal_closed q cs token hClosed [] (by simp)
  | false =>
    have hAll : (readLiteral q cs).taken = cs := by
      have hAppend := readLiteral_append q cs
      rwa [rest_readLiteral_of_open hClosed, List.append_nil] at hAppend
    have hTaken : (readLiteral q cs).toTaken = ⟨cs, []⟩ :=
      congrArg₂ Taken.mk hAll (rest_readLiteral_of_open hClosed)
    rw [literal, hAll, hTaken]

theorem readBlockComment_taken (previous : Char) (cs : List Char) :
    readBlockComment previous (readBlockComment previous cs).taken =
      ⟨(readBlockComment previous cs).taken, []⟩ := by
  fun_induction readBlockComment previous cs with
  | case1 => rfl
  | case2 previous c cs hEnd => simp [readBlockComment, hEnd]
  | case3 previous c cs hInside ih =>
    rw [Taken.push, readBlockComment, if_neg hInside, ih]
    rfl

/-- The characters of a token, read alone, are that token and nothing else. -/
theorem scan_taken (c : Char) (cs : List Char) :
    scan c (scan c cs).taken = ⟨⟨(scan c cs).taken, []⟩, (scan c cs).token⟩ := by
  have hForm := form_scan c cs
  refine scan_of_form ?_
  generalize scan c cs = s at hForm
  cases hForm with
  | sign hSign _ => exact .sign hSign (by simp)
  | pair hPair => exact .pair hPair
  | @line after =>
    have hForm := @Form.line (after.takeWhile (· != '\n'))
    have hAll : ∀ d ∈ after.takeWhile (· != '\n'), (d != '\n') = true :=
      fun d hd => @List.mem_takeWhile_imp _ (· != '\n') _ _ hd
    rw [Taken.while_, List.takeWhile_eq_self_iff.2 hAll, List.dropWhile_eq_nil_iff.2 hAll] at hForm
    exact hForm
  | @block after =>
    have hForm := @Form.block (readBlockComment '\x00' after).taken
    rw [readBlockComment_taken] at hForm
    exact hForm
  | @literal _ q token _ hLiteral =>
    have hForm := @Form.literal _ _ _ (readLiteral q cs).taken hLiteral
    rw [literal_taken] at hForm
    exact hForm
  | number hNumber =>
    have hSame := @readNumber_taken_append (c == '.') cs [] (by simp)
    rw [List.append_nil] at hSame
    have hDigits : c.isDigit = true ∨
        c = '.' ∧ startsWithDigit (readNumber (c == '.') cs).taken = true := by
      refine hNumber.imp_right (And.imp_right fun hDigit => ?_)
      obtain ⟨d, taken, hTaken, hFirst⟩ := startsWithDigit_readNumber hDigit (c == '.')
      rw [hTaken]
      exact hFirst
    have hForm := Form.number hDigits
    rw [number, hSame] at hForm
    exact hForm
  | name hLetter =>
    have hForm := @Form.name _ (cs.takeWhile isNameCharacter) hLetter
    have hSame := @takeWhile_taken_append cs [] (by simp)
    rw [List.append_nil] at hSame
    rw [name, hSame] at hForm
    exact hForm
  | unknown hSign hLiteral hDigit hLetter => exact .unknown hSign hLiteral hDigit hLetter

end Scan

/-- The text of a lexeme, read alone, is that lexeme without white space in front. -/
theorem tokenize_text {cs : List Char} {l : Lexeme} (h : l ∈ tokenize cs) :
    tokenize l.text = [⟨l.token, l.text, []⟩] := by
  obtain ⟨c, rest, hToken, hText, hBlank, -⟩ := scan_of_mem_tokenize h
  have hDrop : l.text.dropWhile isBlank = c :: (Scan.scan c rest).taken := by
    rw [hText, List.dropWhile_cons_of_neg (by simp [hBlank])]
  have hTake : l.text.takeWhile isBlank = [] := by
    rw [hText, List.takeWhile_cons_of_neg (by simp [hBlank])]
  rw [tokenize_of_cons hDrop, hTake, Scan.scan_taken, tokenize_nil, ← hToken, ← hText]

/-! ## Whole texts -/

theorem trimEnd_append_of_blank {w : List Char} (hBlank : allBlank w = true) (cs : List Char) :
    trimEnd (cs ++ w) = trimEnd cs := by
  have hNone : trimEnd w = [] := by
    induction w with
    | nil => rfl
    | cons c w ih =>
      obtain ⟨hFirst, hRest⟩ := Bool.and_eq_true_iff.1 hBlank
      have ih : dropTrailing isBlank w = [] := ih hRest
      rw [trimEnd, dropTrailing_cons, ih, if_pos (by simpa using hFirst)]
  rw [trimEnd, dropTrailing, List.foldr_append]
  exact congrArg (fun tail => cs.foldr _ tail) hNone

/-- All lexemes written out are the text without the white space around it. -/
theorem render_tokenize_eq_trim (cs : List Char) : render (tokenize cs) = trim cs := by
  cases hCons : cs.dropWhile isBlank with
  | nil =>
    rw [tokenize_of_blank hCons, trim, trimStart, hCons]
    rfl
  | cons c rest =>
    obtain ⟨trailing, hBlank, hRest⟩ := written_tokenize (Scan.scan c rest).rest
    have hFirst : isBlank c = false := by
      have hNot := List.head?_dropWhile_not isBlank cs
      simpa [hCons] using hNot
    have hText : c :: rest =
        c :: ((Scan.scan c rest).taken ++ written (tokenize (Scan.scan c rest).rest)) ++ trailing := by
      rw [List.cons_append, List.append_assoc, hRest, Scan.scan_append]
    rw [tokenize_of_cons hCons, render, trim, trim, trimStart, trimStart, hCons, hText,
      trimEnd_append_of_blank hBlank, List.cons_append,
      List.dropWhile_cons_of_neg (by simp [hFirst])]

/-- Reading is lossless: a text is the white space and characters of its lexemes, and white space at
the end; every lexeme has characters, of which the first is no white space, is no spliced text, and
stands for itself; and all of them together are the text but for the white space around it. -/
theorem tokenize_lossless (cs : List Char) :
    (∃ trailing, allBlank trailing = true ∧ (tokenize cs).flatMap Lexeme.written ++ trailing = cs) ∧
      (∀ l ∈ tokenize cs, allBlank l.leading = true ∧
        (∃ c rest, l.text = c :: rest ∧ isBlank c = false) ∧
        (∀ text, l.token ≠ .verbatim text) ∧ tokenize l.text = [⟨l.token, l.text, []⟩]) ∧
      render (tokenize cs) = trim cs := by
  refine ⟨written_tokenize cs, fun l hl => ?_, render_tokenize_eq_trim cs⟩
  obtain ⟨c, rest, _, hText, hFirst, hLeading⟩ := scan_of_mem_tokenize hl
  refine ⟨hLeading, ⟨c, _, hText, hFirst⟩, fun text hToken => ?_, tokenize_text hl⟩
  have hOriginal := (isRead_tokenize cs).original l hl
  rw [hToken] at hOriginal
  cases hOriginal

end DaxMigration.Formula
