import DaxMigration.Proofs.Formula.Reading
import Mathlib.Data.List.Chain

/-!
# Legible rows

Which character may stand directly after a token, and rows in which no lexeme is followed by one
that continues it. Such a row is read back lexeme by lexeme from the text it is written as, whatever
text its lexemes came from.
-/

namespace DaxMigration.Formula

open Text

def Token.goesOn : Token → Char → Bool
  | .number _, d => d.isDigit || d == '.' || d == 'e' || d == 'E'
  | .string _, d => d == '"'
  | .singleQuoted _, d => d == '\''
  | .field _, d => d == ']'
  | .identifier _, d | .boolean _, d => isNameCharacter d
  | .slash, d => d == '/' || d == '*'
  | .equals, d | .greaterThan, d => d == '='
  | .lessThan, d => d == '=' || d == '>'
  | .dot, d => d.isDigit
  | .illegal c, d => c == '!' && d == '='
  | _, _ => false

namespace Scan

theorem not_lengthens_of_goesOn {c d : Char} {t : Token} (h : signToken? c = some t)
    (hEnds : t.goesOn d = false) : lengthens c d = false := by
  unfold signToken? at h
  split at h <;> cases h <;> simp_all [Token.goesOn, lengthens, pairToken?]

theorem readNumber_of_ends {rest : List Char}
    (hRest : ∀ d ∈ rest.head?, (d.isDigit || d == '.' || d == 'e' || d == 'E') = false)
    (dotted : Bool) : readNumber dotted rest = ⟨[], rest⟩ := by
  cases rest with
  | nil => rfl
  | cons c rest =>
    have hc := hRest c rfl
    simp only [Bool.or_eq_false_iff, beq_eq_false_iff_ne] at hc
    obtain ⟨⟨⟨hDigit, hDot⟩, hLower⟩, hUpper⟩ := hc
    rw [readNumber.eq_def]
    simp [hDigit, hDot, hLower, hUpper]

theorem readNumber_taken_append {dotted : Bool} {cs rest : List Char}
    (hRest : ∀ d ∈ rest.head?, (d.isDigit || d == '.' || d == 'e' || d == 'E') = false) :
    readNumber dotted ((readNumber dotted cs).taken ++ rest) =
      ⟨(readNumber dotted cs).taken, rest⟩ := by
  fun_induction readNumber dotted cs with
  | case1 | case4 | case7 | case8 => exact readNumber_of_ends hRest _
  | case2 _ c cs hDigit ih =>
    rw [Taken.push, List.cons_append, readNumber_digit hDigit, ih]
    rfl
  | case3 _ c cs hDigit hDot ih =>
    rw [Taken.push, List.cons_append, readNumber.eq_def]
    simp [hDigit, hDot, ih, Taken.push]
  | case5 dotted c hDigit hDot hMark s cs hSecond ih =>
    obtain ⟨d, taken, hTaken, hFirst⟩ := @startsWithDigit_readNumber (s :: cs) hSecond dotted
    rw [hTaken, List.cons_append] at ih
    rw [Taken.push, hTaken, List.cons_append, List.cons_append, readNumber.eq_def]
    simp [hDigit, hDot, hMark, hFirst, ih, Taken.push]
  | case6 dotted c hDigit hDot hMark s cs hSecond hSign ih =>
    have hDigits : startsWithDigit cs = true := by simp_all
    obtain ⟨d, taken, hTaken, hFirst⟩ := startsWithDigit_readNumber hDigits dotted
    rw [hTaken, List.cons_append] at ih
    rw [Taken.push, Taken.push, hTaken, List.cons_append, List.cons_append, List.cons_append,
      readNumber.eq_def]
    simp_all [startsWithDigit, Taken.push]

theorem takeWhile_taken_append {cs rest : List Char}
    (hRest : ∀ d ∈ rest.head?, isNameCharacter d = false) :
    Taken.while_ isNameCharacter (cs.takeWhile isNameCharacter ++ rest) =
      ⟨cs.takeWhile isNameCharacter, rest⟩ := by
  have hAll : ∀ c ∈ cs.takeWhile isNameCharacter, isNameCharacter c = true :=
    fun c hc => List.mem_takeWhile_imp hc
  rw [Taken.while_, List.takeWhile_append_of_pos hAll, List.dropWhile_append_of_pos hAll]
  cases rest with
  | nil => simp
  | cons c rest => simp [hRest c rfl]

/-- A token that leaves nothing open is read from its own characters alone, in front of any text
that does not continue it. -/
theorem scan_taken_append {c : Char} {cs rest : List Char}
    (hCalm : (Mode.code.after (c :: (scan c cs).taken)).isCalm = true)
    (hEnds : ∀ d ∈ rest.head?, (scan c cs).token.goesOn d = false) :
    scan c ((scan c cs).taken ++ rest) = ⟨⟨(scan c cs).taken, rest⟩, (scan c cs).token⟩ := by
  have hForm := form_scan c cs
  refine scan_of_form ?_
  generalize scan c cs = s at hForm hCalm hEnds
  cases hForm with
  | sign hSign hAlone =>
    exact .sign hSign fun d hd => not_lengthens_of_goesOn hSign (hEnds d hd)
  | pair hPair => exact .pair hPair
  | @line after =>
    have hLine : Mode.code.after ('/' :: '/' :: after.takeWhile (· != '\n')) = .line :=
      Mode.after_line Mode.mem_takeWhile_ne_newline
    simp only [Taken.push, Taken.while_, hLine] at hCalm
    cases hCalm
  | @block after =>
    have hSame := readBlockComment_closed (blockComment_closed_of_ends (.inr hCalm)) rest
    have hForm := @Form.block ((readBlockComment '\x00' after).taken ++ rest)
    rw [hSame] at hForm
    exact hForm
  | @literal _ q token _ hLiteral =>
    have hNe : ∀ d ∈ rest.head?, d ≠ q := by
      rintro d hd rfl
      have hEnd := hEnds d hd
      cases hLiteral <;> simp [Scan.literal, Token.goesOn] at hEnd
    have hSame := literal_closed token (closed_of_ends hLiteral (.inr hCalm)) hNe
    have hForm := @Form.literal _ _ _ ((readLiteral q cs).taken ++ rest) hLiteral
    rw [hSame] at hForm
    exact hForm
  | number hNumber =>
    have hSame := @readNumber_taken_append (c == '.') cs _ hEnds
    have hDigits : c.isDigit = true ∨
        c = '.' ∧ startsWithDigit ((readNumber (c == '.') cs).taken ++ rest) = true := by
      refine hNumber.imp_right (And.imp_right fun hDigit => ?_)
      obtain ⟨d, taken, hTaken, hFirst⟩ := startsWithDigit_readNumber hDigit (c == '.')
      rw [hTaken]
      exact hFirst
    have hForm := Form.number hDigits
    rw [number, hSame] at hForm
    exact hForm
  | name hLetter =>
    have hName : ∀ d ∈ rest.head?, isNameCharacter d = false := by
      intro d hd
      have hEnd := hEnds d hd
      simp only [name, nameToken] at hEnd
      split at hEnd
      · exact hEnd
      split at hEnd <;> exact hEnd
    have hForm := @Form.name _ (cs.takeWhile isNameCharacter ++ rest) hLetter
    rw [name, takeWhile_taken_append hName] at hForm
    exact hForm
  | unknown hSign hLiteral hDigit hLetter => exact .unknown hSign hLiteral hDigit hLetter

end Scan

/-- A lexeme whose text alone is read as its token, and leaves nothing open. -/
structure Whole (l : Lexeme) : Prop where
  scanned : ∃ c w, l.text = c :: w ∧ isBlank c = false ∧ Scan.scan c w = ⟨⟨w, []⟩, l.token⟩
  calm : (Mode.code.after l.text).isCalm = true

theorem whole_of_mem_tokenize {cs : List Char} {l : Lexeme} (h : l ∈ tokenize cs)
    (hCalm : (Mode.code.after l.text).isCalm = true) : Whole l := by
  obtain ⟨c, rest, hToken, hText, hBlank, _⟩ := scan_of_mem_tokenize h
  refine ⟨⟨c, (Scan.scan c rest).taken, hText, hBlank, ?_⟩, hCalm⟩
  rw [hText] at hCalm
  have hAlone := @Scan.scan_taken_append _ _ [] hCalm (by simp)
  rwa [List.append_nil, ← hToken] at hAlone

theorem whole_literal {c q : Char} {token : List Char → Token} (h : Scan.IsLiteral c q token)
    (s leading : List Char) : Whole ⟨token s, c :: (double q s ++ [q]), leading⟩ where
  scanned := by
    refine ⟨c, double q s ++ [q], rfl, by cases h <;> decide, ?_⟩
    have hForm := @Scan.Form.literal _ _ _ (double q s ++ [q]) h
    have hClosed := @Scan.readLiteral_closed q [] (by simp) s
    rw [Scan.literal, hClosed] at hForm
    exact Scan.scan_of_form hForm
  calm := (settled_literal h s).calm

theorem Whole.quiet {l : Lexeme} (h : Whole l) (hComment : l.isComment = false) :
    beginsComment l.text = false := by
  obtain ⟨c, w, hText, -, hScan⟩ := h.scanned
  refine Bool.eq_false_iff.2 fun hBegins => ?_
  rw [hText] at hBegins
  obtain ⟨rfl, d, hd, hMark⟩ := beginsComment_cons hBegins
  obtain ⟨after, rfl⟩ := List.head?_eq_some_iff.1 hd
  have hToken : ∃ body, l.token = .comment body := by
    rcases hMark with rfl | rfl
    · exact ⟨_, congrArg Scan.token (hScan.symm.trans (Scan.scan_of_form .line))⟩
    · exact ⟨_, congrArg Scan.token (hScan.symm.trans (Scan.scan_of_form .block))⟩
  obtain ⟨body, hToken⟩ := hToken
  rw [Lexeme.isComment, hToken] at hComment
  cases hComment

/-- A comment that leaves nothing open is one in asterisks. -/
theorem Whole.trimmed {l : Lexeme} (h : Whole l) (hComment : l.isComment = true) :
    Trimmed l.text := by
  obtain ⟨c, w, hText, hBlank, hScan⟩ := h.scanned
  have hCalm := h.calm
  have hLast : (c :: w).getLast? = some '/' := by
    rw [hText] at hCalm
    have hForm := Scan.form_scan c w
    have hToken : (Scan.scan c w).token.isComment = true := by
      rw [hScan]
      exact hComment
    have hTaken : (Scan.scan c w).taken = w := by rw [hScan]
    generalize Scan.scan c w = s at hForm hToken hTaken
    cases hForm with
    | sign hSign => unfold Scan.signToken? at hSign; split at hSign <;> cases hSign <;> cases hToken
    | pair hPair => cases Scan.isPair_of_pairToken hPair <;> cases hToken
    | @line after =>
      have hLine : Mode.code.after ('/' :: '/' :: after.takeWhile (· != '\n')) = .line :=
        Mode.after_line Mode.mem_takeWhile_ne_newline
      rw [← hTaken] at hCalm
      simp only [Taken.push, Taken.while_, hLine] at hCalm
      cases hCalm
    | @block after =>
      rw [← hTaken] at hCalm ⊢
      have hClosed := @Scan.blockComment_closed_of_ends after (.inr hCalm)
      rw [Taken.push, List.getLast?_cons, List.getLast?_cons, Scan.last_readBlockComment hClosed]
      rfl
    | literal hLiteral => cases hLiteral <;> cases hToken
    | number => cases hToken
    | name =>
      simp only [Scan.name, nameToken] at hToken
      split at hToken
      · cases hToken
      split at hToken <;> cases hToken
    | unknown => cases hToken
  refine ⟨by simp [hText], fun d hd => ?_, fun d hd => ?_⟩
  · rw [hText] at hd
    obtain rfl : c = d := by simpa using hd
    exact hBlank
  · rw [hText, hLast] at hd
    obtain rfl : '/' = d := Option.some.inj hd
    decide

def isNameText : List Char → Bool
  | c :: rest => isLetter c && rest.all isNameCharacter
  | [] => false

theorem characters_of_isNameText {text : List Char} (h : isNameText text = true) :
    text ≠ [] ∧ (∀ d ∈ text.head?, isLetter d = true) ∧ ∀ d ∈ text, isNameCharacter d = true := by
  cases text with
  | nil => cases h
  | cons c w =>
    obtain ⟨hLetter, hAll⟩ := Bool.and_eq_true_iff.1 h
    refine ⟨by simp, by simpa using hLetter, List.forall_mem_cons.2 ⟨?_, List.all_eq_true.1 hAll⟩⟩
    simp [isNameCharacter, hLetter]

theorem whole_name {text : List Char} (h : isNameText text = true) (leading : List Char) :
    Whole ⟨nameToken text, text, leading⟩ := by
  obtain ⟨-, -, hName⟩ := characters_of_isNameText h
  cases text with
  | nil => cases h
  | cons c w =>
    obtain ⟨hLetter, hAll⟩ := Bool.and_eq_true_iff.1 h
    have hAll : ∀ d ∈ w, isNameCharacter d = true := List.all_eq_true.1 hAll
    have hForm := @Scan.Form.name _ w hLetter
    have hTake : w.takeWhile isNameCharacter = w := List.takeWhile_eq_self_iff.2 hAll
    have hDrop : w.dropWhile isNameCharacter = [] := List.dropWhile_eq_nil_iff.2 hAll
    rw [Scan.name, Taken.while_, hTake, hDrop] at hForm
    have hPlain : ∀ d ∈ c :: w, Mode.IsPlain d := fun d hd =>
      Mode.isPlain_of (by decide) (hName d hd)
    refine ⟨⟨c, w, rfl, isBlank_of_isNameCharacter (hName c List.mem_cons_self),
      Scan.scan_of_form hForm⟩, ?_⟩
    show (Mode.code.after (c :: w)).isCalm = true
    rw [Mode.after_of_plain hPlain]
    rfl

theorem settled_name {text : List Char} (h : isNameText text = true) : Settled text := by
  obtain ⟨hFilled, -, hName⟩ := characters_of_isNameText h
  exact settled_of_plain (fun d hd => Mode.isPlain_of_isNameCharacter (hName d hd)) hFilled
    fun d hd => isBlank_of_isNameCharacter (hName d hd)

/-- A lexeme with the token of a name is written as one. -/
theorem Whole.nameText {l : Lexeme} (h : Whole l) {name : List Char}
    (hToken : l.token = .identifier name) : isNameText l.text = true ∧ nameToken l.text = l.token := by
  obtain ⟨c, w, hText, _, hScan⟩ := h.scanned
  have hForm := Scan.form_scan c w
  rw [hToken] at hScan ⊢
  rw [hText]
  generalize hSame : Scan.scan c w = s at hForm
  rw [hScan] at hSame
  cases hForm with
  | sign hSign =>
    have hToken := congrArg Scan.token hSame
    unfold Scan.signToken? at hSign
    split at hSign <;> cases hSign <;> cases hToken
  | pair hPair =>
    have hToken := congrArg Scan.token hSame
    cases Scan.isPair_of_pairToken hPair <;> cases hToken
  | line | block | number | unknown => cases congrArg Scan.token hSame
  | literal hLiteral => cases hLiteral <;> cases congrArg Scan.token hSame
  | name hLetter =>
    have hTaken : w = w.takeWhile isNameCharacter := congrArg (·.taken) hSame
    have hToken : Token.identifier name = nameToken (c :: w.takeWhile isNameCharacter) :=
      congrArg Scan.token hSame
    have hAll : ∀ d ∈ w, isNameCharacter d = true := List.takeWhile_eq_self_iff.1 hTaken.symm
    rw [← hTaken] at hToken
    exact ⟨Bool.and_eq_true_iff.2 ⟨hLetter, List.all_eq_true.2 hAll⟩, hToken.symm⟩

def Fits (l m : Lexeme) : Prop :=
  m.leading ≠ [] ∨ ∀ d ∈ m.text.head?, l.token.goesOn d = false

def Token.begins : Token → Char → Bool
  | .number _, d => d.isDigit || d == '.'
  | .string _, d => d == '"'
  | .singleQuoted _, d => d == '\''
  | .field _, d => d == '['
  | .identifier _, d | .boolean _, d => isLetter d
  | .comment _, d => d == '/'
  | .notEqual, d => d == '!' || d == '<'
  | .illegal c, d => d == c
  | .verbatim _, _ => true
  | t, d => t.display.head? == some d

theorem begins_of_form {c : Char} {rest : List Char} {s : Scan} (h : Scan.Form c rest s) :
    s.token.begins c = true := by
  cases h with
  | sign hSign => unfold Scan.signToken? at hSign; split at hSign <;> cases hSign <;> rfl
  | pair hPair => cases Scan.isPair_of_pairToken hPair <;> rfl
  | line | block => rfl
  | literal hLiteral => cases hLiteral <;> rfl
  | number hNumber => simpa [Scan.number, Token.begins] using hNumber.imp_right And.left
  | name hLetter =>
    simp only [Scan.name, nameToken]
    split
    · exact hLetter
    split <;> exact hLetter
  | unknown => simp [Token.begins]

theorem Whole.begins {l : Lexeme} (h : Whole l) : ∀ d ∈ l.text.head?, l.token.begins d = true := by
  obtain ⟨c, w, hText, _, hScan⟩ := h.scanned
  rw [hText]
  intro d hd
  obtain rfl : c = d := by simpa using hd
  have hBegins := begins_of_form (Scan.form_scan c w)
  rwa [hScan] at hBegins

structure Legible (ls : List Lexeme) : Prop where
  whole : ∀ l ∈ ls, Whole l
  blank : ∀ l ∈ ls, allBlank l.leading = true
  fits : ls.IsChain Fits

def continues (d : Char) : Bool :=
  isNameCharacter d || d ∈ ['.', 'e', 'E', '"', '\'', ']', '/', '*', '=', '>']

theorem Token.continues_of_goesOn {t : Token} {d : Char} (h : t.goesOn d = true) :
    continues d = true := by
  cases t <;> simp_all [goesOn, continues, isNameCharacter] <;> grind

theorem Token.goesOn_of_isBlank {d : Char} (h : isBlank d = true) (t : Token) :
    t.goesOn d = false := by
  cases hGoes : t.goesOn d with
  | false => rfl
  | true =>
    have hBlank := isBlank_of_none (p := continues) (by decide +kernel) (continues_of_goesOn hGoes)
    rw [h] at hBlank
    cases hBlank

/-- What is written next begins with no character that the lexeme in front is continued by. -/
theorem goesOn_written {l : Lexeme} {ls : List Lexeme} (hBlank : ∀ m ∈ ls, allBlank m.leading = true)
    (hFilled : ∀ m ∈ ls, m.text ≠ []) (hFits : ∀ m ∈ ls.head?, Fits l m) :
    ∀ d ∈ (written ls).head?, l.token.goesOn d = false := by
  cases ls with
  | nil => simp
  | cons m ls =>
    intro d hd
    obtain ⟨e, text, hText⟩ := List.exists_cons_of_ne_nil (hFilled m List.mem_cons_self)
    rw [written_cons] at hd
    cases hLeading : m.leading with
    | cons b leading =>
      obtain rfl : b = d := by simpa [hLeading] using hd
      have hAll := hBlank m List.mem_cons_self
      rw [hLeading] at hAll
      exact Token.goesOn_of_isBlank (List.all_eq_true.1 hAll b List.mem_cons_self) _
    | nil =>
      rcases hFits m rfl with hSpace | hHead
      · exact absurd hLeading hSpace
      · refine hHead d ?_
        simpa [hLeading, hText] using hd

/-- A legible row is read back from its text. -/
theorem tokenize_written {ls : List Lexeme} (h : Legible ls) : tokenize (written ls) = ls := by
  induction ls with
  | nil => exact tokenize_of_blank rfl
  | cons l ls ih =>
    have hTail : Legible ls :=
      ⟨fun m hm => h.whole m (List.mem_cons_of_mem _ hm),
        fun m hm => h.blank m (List.mem_cons_of_mem _ hm), h.fits.tail⟩
    have hWhole := h.whole l List.mem_cons_self
    obtain ⟨c, w, hText, hFirst, hScan⟩ := hWhole.scanned
    have hFilled : ∀ m ∈ ls, m.text ≠ [] := by
      intro m hm
      obtain ⟨d, v, hm, _⟩ := (hTail.whole m hm).scanned
      simp [hm]
    have hEnds : ∀ d ∈ (written ls).head?, (Scan.scan c w).token.goesOn d = false := by
      rw [hScan]
      refine goesOn_written hTail.blank hFilled ?_
      intro m hm
      cases ls with
      | nil => cases hm
      | cons n ls =>
        obtain rfl : n = m := by simpa using hm
        exact (List.isChain_cons_cons.1 h.fits).1
    have hCalm : (Mode.code.after (c :: (Scan.scan c w).taken)).isCalm = true := by
      rw [hScan, ← hText]
      exact hWhole.calm
    have hRead := Scan.scan_taken_append hCalm hEnds
    rw [hScan] at hRead
    have hBlank : ∀ d ∈ l.leading, isBlank d = true :=
      List.all_eq_true.1 (h.blank l List.mem_cons_self)
    have hDrop : (written (l :: ls)).dropWhile isBlank = c :: (w ++ written ls) := by
      rw [written_cons, hText, List.dropWhile_append_of_pos hBlank, List.cons_append,
        List.dropWhile_cons_of_neg (by simp [hFirst])]
    have hTake : (written (l :: ls)).takeWhile isBlank = l.leading := by
      rw [written_cons, hText, List.takeWhile_append_of_pos hBlank, List.cons_append,
        List.takeWhile_cons_of_neg (by simp [hFirst]), List.append_nil]
    rw [tokenize_of_cons hDrop, hTake, hRead, ih hTail, ← hText]

end DaxMigration.Formula
