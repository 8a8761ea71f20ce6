import DaxMigration.Dax.Verdict
import DaxMigration.Proofs.Formula.Legible
import DaxMigration.Proofs.Formula.Unclosed

/-!
# What a verdict counts

A verdict goes by totals. Where all references of a text are closed these are the totals of its
lexemes, so that a valid text has as many opening as closing parentheses, in whatever order they
stand. What an unclosed reference takes in is counted as a text of its own; there an escaped bracket
counts as two, and so an unclosed reference goes unnoticed only with closing brackets about.
-/

namespace DaxMigration.Dax

open Formula Text

theorem Tally.eq_iff {a b : Tally} : a = b ↔ a.parens = b.parens ∧ a.brackets = b.brackets := by
  cases a
  cases b
  simp

@[simp]
theorem Tally.parens_add (a b : Tally) : (a + b).parens = a.parens + b.parens := rfl

@[simp]
theorem Tally.brackets_add (a b : Tally) : (a + b).brackets = a.brackets + b.brackets := rfl

/-! ## Totals of rows -/

def parenBalance (ls : List Lexeme) : Int :=
  ls.countP (·.token == .lparen) - ls.countP (·.token == .rparen)

/-- Closing square brackets that close nothing. -/
def strayBrackets (ls : List Lexeme) : Nat :=
  ls.countP (·.token == .illegal ']')

def rowTally (ls : List Lexeme) : Tally :=
  ⟨parenBalance ls, -strayBrackets ls⟩

theorem rowTally_append (a b : List Lexeme) : rowTally (a ++ b) = rowTally a + rowTally b := by
  rw [Tally.eq_iff]
  simp only [rowTally, parenBalance, strayBrackets, List.countP_append, Tally.parens_add,
    Tally.brackets_add]
  omega

def share (l : Lexeme) : Tally :=
  match l.token with
  | .lparen => ⟨1, 0⟩
  | .rparen => ⟨-1, 0⟩
  | .illegal ']' => ⟨0, -1⟩
  | .field name => if isClosedField l name then .zero else ⟨0, 1⟩ + tally l.text.tail
  | _ => .zero

theorem tally_eq (cs : List Char) :
    tally cs = (tokenize cs).foldl (fun acc l => acc + share l) .zero := by
  rw [tally, ← List.foldl_attach (l := tokenize cs) (f := fun acc l => acc + share l)]
  rfl

theorem share_eq_rowTally {l : Lexeme} (h : l.token.isField = true → l.isTerminated = true) :
    share l = rowTally [l] := by
  obtain ⟨token, text, leading⟩ := l
  rw [Tally.eq_iff]
  cases token with
  | field name =>
    have hClosed : isClosedField ⟨.field name, text, leading⟩ name = true := h rfl
    simp [share, hClosed, rowTally, parenBalance, strayBrackets, Tally.zero]
  | illegal c =>
    by_cases hBracket : c = ']'
    · subst hBracket
      simp [share, rowTally, parenBalance, strayBrackets]
    · simp [share, rowTally, parenBalance, strayBrackets, Tally.zero, hBracket]
  | _ => simp [share, rowTally, parenBalance, strayBrackets, Tally.zero]

theorem foldl_share {ls : List Lexeme}
    (h : ∀ l ∈ ls, l.token.isField = true → l.isTerminated = true) (acc : Tally) :
    ls.foldl (fun acc l => acc + share l) acc = acc + rowTally ls := by
  induction ls generalizing acc with
  | nil =>
    rw [Tally.eq_iff]
    simp [rowTally, parenBalance, strayBrackets]
  | cons l ls ih =>
    obtain ⟨hFirst, hRest⟩ := List.forall_mem_cons.1 h
    have hSplit := rowTally_append [l] ls
    rw [List.singleton_append] at hSplit
    rw [List.foldl_cons, ih hRest, share_eq_rowTally hFirst, hSplit, Tally.eq_iff]
    simp only [Tally.parens_add, Tally.brackets_add]
    omega

/-! ## Totals of texts -/

def ClosesFields (cs : List Char) : Prop :=
  ∀ l ∈ tokenize cs, l.token.isField = true → l.isTerminated = true

theorem tally_of_closed {cs : List Char} (h : ClosesFields cs) : tally cs = rowTally (tokenize cs) := by
  rw [tally_eq, foldl_share h, Tally.eq_iff]
  simp [Tally.zero]

/-- An unclosed reference counts for itself and for the text that it takes in. -/
theorem tally_of_unclosed {cs : List Char} {before : List Lexeme} {l : Lexeme}
    (hSplit : tokenize cs = before ++ [l]) (hOpen : Unclosed ']' l)
    (hBefore : ∀ m ∈ before, m.isTerminated = true) :
    tally cs = rowTally before + ⟨0, 1⟩ + tally l.text.tail := by
  have hShare : share l = ⟨0, 1⟩ + tally l.text.tail := by
    have hTerminated := hOpen.isTerminated
    obtain ⟨hLiteral, name, leading⟩ := hOpen
    cases hLiteral
    exact if_neg (Bool.eq_false_iff.1 hTerminated)
  rw [tally_eq, hSplit, List.foldl_append, foldl_share fun m hm _ => hBefore m hm, List.foldl_cons,
    List.foldl_nil, hShare, Tally.eq_iff]
  simp only [Tally.parens_add, Tally.brackets_add, Tally.zero]
  omega

/-- A text whose references are closed is valid exactly if it is not blank, its parentheses agree in
number, no `]` is left over and no equals sign stands outside. -/
theorem isValid_iff_of_closed {cs : List Char} (h : ClosesFields cs) :
    isValid cs = true ↔ allBlank cs = false ∧
      (tokenize cs).countP (·.token == .lparen) = (tokenize cs).countP (·.token == .rparen) ∧
      (∀ l ∈ tokenize cs, l.token ≠ .illegal ']') ∧ hasAssignment cs = false := by
  have hParens : (rowTally (tokenize cs)).parens = 0 ↔
      (tokenize cs).countP (·.token == .lparen) = (tokenize cs).countP (·.token == .rparen) := by
    simp only [rowTally, parenBalance]
    omega
  have hBrackets : (rowTally (tokenize cs)).brackets = 0 ↔
      ∀ l ∈ tokenize cs, l.token ≠ .illegal ']' := by
    simp [rowTally, strayBrackets, List.countP_eq_zero]
  rw [isValid_iff, tally_of_closed h, hParens, hBrackets]

-- The order of the parentheses does not matter.
example : isValid ")(".toList = true := by decide +kernel

/-! ## Unclosed references -/

theorem count_written_of_mem {c : Char} {ls : List Lexeme} {p : Lexeme → Bool}
    (h : ∀ l ∈ ls, p l = true → c ∈ l.text) : ls.countP p ≤ (written ls).count c := by
  induction ls with
  | nil => simp
  | cons l ls ih =>
    obtain ⟨hFirst, hRest⟩ := List.forall_mem_cons.1 h
    have hLess := ih hRest
    rw [written_cons, List.count_append, List.count_append, List.countP_cons]
    split
    · have hThis := List.count_pos_iff.2 (hFirst ‹_›)
      omega
    · omega

/-- A closing bracket among the lexemes is one in the text. -/
theorem mem_text_of_stray {cs : List Char} {l : Lexeme} (h : l ∈ tokenize cs)
    (hToken : (l.token == .illegal ']') = true) : ']' ∈ l.text := by
  obtain ⟨c, rest, hScan, hText, -, -⟩ := scan_of_mem_tokenize h
  have hBegins := begins_of_form (Scan.form_scan c rest)
  rw [← hScan, beq_iff_eq.1 hToken] at hBegins
  obtain rfl : c = ']' := by simpa [Token.begins] using hBegins
  rw [hText]
  exact List.mem_cons_self

theorem count_written_le (cs : List Char) (c : Char) :
    (written (tokenize cs)).count c ≤ cs.count c := by
  obtain ⟨trailing, -, hWritten⟩ := written_tokenize cs
  conv_rhs => rw [← hWritten]
  rw [List.count_append]
  omega

/-- The count of brackets falls short by no more than the closing brackets of the text. -/
theorem neg_count_le_brackets (cs : List Char) : -(cs.count ']' : Int) ≤ (tally cs).brackets := by
  have hCount := count_written_le cs ']'
  by_cases hClosed : ClosesFields cs
  · have hStray := count_written_of_mem fun l (hl : l ∈ tokenize cs) => mem_text_of_stray hl
    rw [tally_of_closed hClosed]
    simp only [rowTally, strayBrackets]
    omega
  · obtain ⟨l, hl, hField, hOpen⟩ := by simpa [ClosesFields] using hClosed
    obtain ⟨before, hSplit, hBefore, hUnclosed⟩ := tokenize_of_open_field hl hField hOpen
    have hShorter : l.text.tail.length < cs.length := by
      have hText := text_of_mem_tokenize hl
      rw [List.length_tail]
      omega
    have hInside := neg_count_le_brackets l.text.tail
    have hFront : ∀ m ∈ before, m ∈ tokenize cs := by
      intro m hm
      rw [hSplit]
      exact List.mem_append_left _ hm
    have hStray := count_written_of_mem fun m hm => mem_text_of_stray (hFront m hm)
    have hTail := (List.tail_sublist l.text).count_le ']'
    rw [hSplit, written_append, List.count_append, written_cons, written_nil, List.append_nil,
      List.count_append] at hCount
    rw [tally_of_unclosed hSplit hUnclosed hBefore]
    simp only [Tally.brackets_add, rowTally, strayBrackets]
    omega
termination_by cs.length
decreasing_by exact hShorter

/-- An unclosed reference is reported unless a closing bracket is left over in front of it or stands
in what it takes in. -/
theorem exists_bracket_of_isValid {cs : List Char} {before : List Lexeme} {l : Lexeme}
    (hSplit : tokenize cs = before ++ [l]) (hOpen : Unclosed ']' l)
    (hBefore : ∀ m ∈ before, m.isTerminated = true) (hValid : isValid cs = true) :
    (∃ m ∈ before, m.token = .illegal ']') ∨ ']' ∈ l.text.tail := by
  by_contra hNone
  obtain ⟨hStray, hInside⟩ := not_or.1 hNone
  have hZero : strayBrackets before = 0 := by
    rw [strayBrackets, List.countP_eq_zero]
    intro m hm hToken
    exact hStray ⟨m, hm, beq_iff_eq.1 hToken⟩
  have hBrackets := (isValid_iff.1 hValid).2.2.1
  have hTail := neg_count_le_brackets l.text.tail
  rw [List.count_eq_zero.2 hInside] at hTail
  rw [tally_of_unclosed hSplit hOpen hBefore] at hBrackets
  simp only [Tally.brackets_add, rowTally, hZero] at hBrackets
  omega

-- Within the reference, the escaped bracket makes up for both opening ones.
example : isValid "[[a]]".toList = true := by decide +kernel

end DaxMigration.Dax
