import DaxMigration.Proofs.Formula.Reading

/-!
# Unclosed literals

A literal without its closing mark takes in all the text behind it. So a text has at most one, as
its last lexeme; and where the mark is added at the end, the same lexemes are read again, with the
last one closed.
-/

namespace DaxMigration.Formula

open Text Scan

inductive Unclosed : (q : Char) → Lexeme → Prop
  | intro {c q : Char} {token : List Char → Token} (hLiteral : IsLiteral c q token)
      (s leading : List Char) : Unclosed q ⟨token s, c :: double q s, leading⟩

def Lexeme.push (l : Lexeme) (q : Char) : Lexeme :=
  { l with text := l.text ++ [q] }

theorem isTerminated_literal {c q : Char} {token : List Char → Token} (h : IsLiteral c q token)
    (s text leading : List Char) :
    Lexeme.isTerminated ⟨token s, text, leading⟩ = (text == c :: (double q s ++ [q])) := by
  cases h <;> rfl

theorem Unclosed.isTerminated {q : Char} {l : Lexeme} (h : Unclosed q l) : l.isTerminated = false := by
  obtain ⟨hLiteral, s, leading⟩ := h
  rw [isTerminated_literal hLiteral]
  simp

/-- The literal that a square bracket closes is a reference. -/
theorem Unclosed.exists_field {l : Lexeme} (h : Unclosed ']' l) :
    ∃ name, l.token = .field name ∧ l.text = '[' :: double ']' name := by
  obtain ⟨hLiteral, name, leading⟩ := h
  cases hLiteral
  exact ⟨name, rfl, rfl⟩

/-- The mark is told by the token. -/
theorem Unclosed.mark_eq {q q' : Char} {l : Lexeme} (h : Unclosed q l) (h' : Unclosed q' l) :
    q' = q := by
  obtain ⟨hLiteral, s, leading⟩ := h
  generalize hSame : Lexeme.mk _ _ _ = l at h'
  obtain ⟨hLiteral', s', leading'⟩ := h'
  cases hLiteral <;> cases hLiteral' <;> cases hSame <;> rfl

theorem Unclosed.divides {q : Char} {l : Lexeme} (h : Unclosed q l) : Divided [q] := by
  obtain ⟨hLiteral, s, leading⟩ := h
  intro d hd
  obtain rfl : q = d := by simpa using hd
  cases hLiteral <;> decide

namespace Scan

/-- The scanner leaves nothing behind a literal that it finds no end of. -/
theorem unclosed_of_scan {c : Char} {rest leading : List Char}
    (h : Lexeme.isTerminated ⟨(scan c rest).token, c :: (scan c rest).taken, leading⟩ = false) :
    ∃ q token s, IsLiteral c q token ∧ rest = double q s ∧ scan c rest = ⟨⟨rest, []⟩, token s⟩ := by
  have hForm := form_scan c rest
  generalize scan c rest = scanned at h hForm
  cases hForm with
  | sign hSign => unfold signToken? at hSign; split at hSign <;> cases hSign <;> cases h
  | pair hPair => cases isPair_of_pairToken hPair <;> cases h
  | line | block | number | unknown => cases h
  | name =>
    simp only [name, nameToken] at h
    split at h
    · cases h
    split at h <;> cases h
  | @literal _ q token _ hLiteral =>
    rw [literal, isTerminated_literal hLiteral, taken_readLiteral] at h
    have hClosed : (readLiteral q rest).closed = false := by
      cases hClosed : (readLiteral q rest).closed with
      | false => rfl
      | true => simp [hClosed] at h
    have hTaken := taken_readLiteral q rest
    have hRest := rest_readLiteral_of_open hClosed
    have hAll := readLiteral_append q rest
    rw [hRest, List.append_nil] at hAll
    rw [hClosed, hAll, if_neg (by simp), List.append_nil] at hTaken
    have hSame : (readLiteral q rest).toTaken = ⟨rest, []⟩ := congrArg₂ Taken.mk hAll hRest
    exact ⟨q, token, _, hLiteral, hTaken, by rw [literal, hSame]⟩

end Scan

/-- An unclosed literal is the last lexeme of its text, and the only one. -/
theorem tokenize_of_unterminated {cs : List Char} {l : Lexeme} (h : l ∈ tokenize cs)
    (hOpen : l.isTerminated = false) :
    ∃ before q, tokenize cs = before ++ [l] ∧ (∀ m ∈ before, m.isTerminated = true) ∧
      Unclosed q l := by
  fun_induction tokenize cs with
  | case1 => cases h
  | case2 cs c rest hCons s ih =>
    cases hHead : Lexeme.isTerminated ⟨s.token, c :: s.taken, cs.takeWhile isBlank⟩ with
    | false =>
      obtain ⟨q, token, name, hLiteral, hRest, hScan⟩ := unclosed_of_scan hHead
      have hScan : s = ⟨⟨rest, []⟩, token name⟩ := hScan
      rw [hScan, tokenize_nil] at h ⊢
      obtain rfl := List.mem_singleton.1 h
      exact ⟨[], q, rfl, by simp, hRest ▸ .intro hLiteral name _⟩
    | true =>
      rcases List.mem_cons.1 h with rfl | h
      · rw [hHead] at hOpen
        cases hOpen
      · obtain ⟨before, q, hSplit, hBefore, hUnclosed⟩ := ih h
        exact ⟨_ :: before, q, by rw [hSplit]; rfl, List.forall_mem_cons.2 ⟨hHead, hBefore⟩, hUnclosed⟩

/-- A text that leaves nothing open has no unclosed literal. -/
theorem isTerminated_of_calm {cs : List Char} (hCalm : (Mode.code.after cs).isCalm = true) :
    ∀ l ∈ tokenize cs, l.isTerminated = true := by
  fun_induction tokenize cs with
  | case1 => simp
  | case2 cs c rest hCons s ih =>
    have hForm := Mode.resumes_form (form_scan c rest)
    have hSplit : cs = cs.takeWhile isBlank ++ (c :: s.taken ++ s.rest) := by
      rw [List.cons_append, scan_append, ← hCons, List.takeWhile_append_dropWhile]
    rw [hSplit, Mode.after_append, Mode.after_of_plain (Mode.plain_takeWhile_blank cs),
      Mode.after_append] at hCalm
    refine List.forall_mem_cons.2 ⟨?_, ?_⟩
    · cases hHead : Lexeme.isTerminated ⟨s.token, c :: s.taken, cs.takeWhile isBlank⟩ with
      | true => rfl
      | false =>
        obtain ⟨q, token, name, hLiteral, hRest, hScan⟩ := unclosed_of_scan hHead
        have hScan : s = ⟨⟨rest, []⟩, token name⟩ := hScan
        have hInside := Mode.inside_of_isLiteral hLiteral
        rw [hScan, hRest, Mode.after_nil, Mode.after_cons, hInside.after_double,
          hInside.isCalm_inside] at hCalm
        cases hCalm
    · by_cases hEmpty : s.rest = []
      · rw [hEmpty, tokenize_nil]
        simp
      · rw [hForm.after_eq hEmpty] at hCalm
        exact ih hCalm

/-- An unclosed field is the last lexeme of its text. -/
theorem tokenize_of_open_field {cs : List Char} {l : Lexeme} (h : l ∈ tokenize cs)
    (hField : l.token.isField = true) (hOpen : l.isTerminated = false) :
    ∃ before, tokenize cs = before ++ [l] ∧ (∀ m ∈ before, m.isTerminated = true) ∧
      Unclosed ']' l := by
  obtain ⟨before, q, hSplit, hBefore, hUnclosed⟩ := tokenize_of_unterminated h hOpen
  have hMark : q = ']' := by
    obtain ⟨hLiteral, name, leading⟩ := hUnclosed
    cases hLiteral <;> first | rfl | cases hField
  exact ⟨before, hSplit, hBefore, hMark ▸ hUnclosed⟩

/-- With its mark added, an unclosed literal is closed, and nothing else is read otherwise. -/
theorem tokenize_append_mark {cs : List Char} {before : List Lexeme} {l : Lexeme} {q : Char}
    (h : tokenize cs = before ++ [l]) (hOpen : Unclosed q l) :
    tokenize (cs ++ [q]) = before ++ [l.push q] := by
  fun_induction tokenize cs generalizing before with
  | case1 => simp at h
  | case2 cs c rest hCons s =>
    rename_i ih
    obtain ⟨hDrop, hTake⟩ := dropWhile_append_of_cons hCons [q]
    rw [tokenize_of_cons hDrop, hTake]
    cases before with
    | nil =>
      obtain ⟨rfl, -⟩ := List.cons.inj h
      obtain ⟨q', token, name, hLiteral, hRest, hScan⟩ := unclosed_of_scan hOpen.isTerminated
      have hScan : s = ⟨⟨rest, []⟩, token name⟩ := hScan
      have hUnclosed : Unclosed q' ⟨s.token, c :: s.taken, cs.takeWhile isBlank⟩ := by
        rw [hScan, hRest]
        exact .intro hLiteral name _
      obtain rfl := hOpen.mark_eq hUnclosed
      have hClosed := @readLiteral_closed q' [] (by simp) name
      rw [← hRest] at hClosed
      have hForm := @Form.literal _ _ _ (rest ++ [q']) hLiteral
      rw [literal, hClosed] at hForm
      rw [scan_of_form hForm, hScan, tokenize_nil]
      rfl
    | cons m before =>
      obtain ⟨rfl, hRest⟩ := List.cons.inj h
      have hFilled : s.rest ≠ [] := by
        intro hEmpty
        rw [hEmpty, tokenize_nil] at hRest
        simp at hRest
      rw [scan_append_of_divided hOpen.divides (fun hEmpty => absurd hEmpty hFilled) (.inl hFilled),
        ih hRest]
      rfl

/-- An unclosed literal reaches to the end of its text: not even white space is left behind it. -/
theorem written_of_unclosed {cs : List Char} {before : List Lexeme} {l : Lexeme} {q : Char}
    (h : tokenize cs = before ++ [l]) (hOpen : Unclosed q l) : written (tokenize cs) = cs := by
  obtain ⟨trailing, hBlank, hWritten⟩ := written_tokenize (cs ++ [q])
  rw [tokenize_append_mark h hOpen] at hWritten
  have hMark : isBlank q = false := by
    obtain ⟨hLiteral, s, leading⟩ := hOpen
    cases hLiteral <;> decide
  rcases List.eq_nil_or_concat trailing with rfl | ⟨front, c, rfl⟩
  · have hAll : written (before ++ [l]) ++ [q] = cs ++ [q] := by
      simpa [Lexeme.push] using hWritten
    rw [h]
    exact List.append_cancel_right hAll
  · -- the text ends with the mark, which is no white space
    rw [List.concat_eq_append, ← List.append_assoc] at hWritten
    obtain rfl : c = q := by simpa using (List.append_inj' hWritten rfl).2
    have hLast : isBlank c = true := List.all_eq_true.1 hBlank c (by simp)
    rw [hMark] at hLast
    cases hLast

theorem suffix_of_unclosed {cs : List Char} {before : List Lexeme} {l : Lexeme} {q : Char}
    (h : tokenize cs = before ++ [l]) (hOpen : Unclosed q l) : l.text <:+ cs := by
  have hWritten := written_of_unclosed h hOpen
  rw [h, written_append] at hWritten
  exact ⟨written before ++ l.leading, by simpa using hWritten⟩

end DaxMigration.Formula
