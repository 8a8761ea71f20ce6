import DaxMigration.Proofs.Formula.Rows

/-!
# Reading written lexemes back

A lexeme reads as itself in front of a text when the scanner, given both, takes the lexeme and
leaves the text. Lexemes each of which reads as itself in front of the others are what their text
is read as.
-/

namespace DaxMigration.Formula

open Text

namespace Scan

def marks : List Char :=
  ['+', '-', '*', '/', '%', '^', '&', '(', ')', '\x7b', '\x7d', ',', ':', '=', '!', '<', '>', '"',
    '\'', '[', '.']

theorem scan_of_not_mem {c : Char} (h : c ∉ marks) (rest : List Char) :
    scan c rest =
      if c.isDigit then number c rest
      else if isLetter c then name c rest
      else single (.illegal c) rest := by
  unfold scan
  split <;> first | rfl | exact absurd (by decide) h

theorem not_mem_marks {p : Char → Bool} (hMarks : ∀ c ∈ marks, p c = false) {c : Char}
    (h : p c = true) : c ∉ marks := by
  intro hMem
  rw [hMarks c hMem] at h
  cases h

theorem isLetter_of_isDigit {c : Char} (h : c.isDigit = true) : isLetter c = false := by
  have hDigits : ∀ n ∈ List.range' 48 10, isLetter (Char.ofNat n) = false := by decide
  have hMem : c.toNat ∈ List.range' 48 10 := by
    rw [List.mem_range'_1]
    simp only [Char.isDigit, Bool.and_eq_true, decide_eq_true_eq] at h
    exact ⟨h.1, Nat.lt_succ_of_le h.2⟩
  have := hDigits _ hMem
  rwa [Char.ofNat_toNat] at this

theorem orElseIf_of_ne {d : Char} {long : Token} {short : List Char → Scan} {rest : List Char}
    (h : ∀ e ∈ rest.head?, e ≠ d) : orElseIf d long short rest = short rest := by
  cases rest with
  | nil => rfl
  | cons e rest => simp [orElseIf, h e rfl]

theorem scan_of_sign {c : Char} {t : Token} {rest : List Char} (hSign : signToken? c = some t)
    (hAlone : ∀ d ∈ rest.head?, lengthens c d = false) : scan c rest = single t rest := by
  have hNe : ∀ e, lengthens c e = true → ∀ d ∈ rest.head?, d ≠ e := by
    rintro e hEq d hd rfl
    rw [hAlone d hd] at hEq
    cases hEq
  unfold signToken? at hSign
  split at hSign
  case h_4 =>
    cases hSign
    have hLine := hNe '/' (by decide)
    have hBlock := hNe '*' (by decide)
    change slash rest = _
    unfold slash
    split
    · exact absurd rfl (hLine _ rfl)
    · exact absurd rfl (hBlock _ rfl)
    · rfl
  case h_16 =>
    cases hSign
    exact (orElseIf_of_ne (hNe '=' (by decide))).trans (orElseIf_of_ne (hNe '>' (by decide)))
  case h_18 =>
    cases hSign
    have hDigit : startsWithDigit rest = false := by
      cases rest with
      | nil => rfl
      | cons d rest =>
        have hAlone := hAlone d rfl
        simpa [lengthens, pairToken?, startsWithDigit] using hAlone
    simp [scan, hDigit]
  all_goals cases hSign
  all_goals first
    | rfl
    | exact orElseIf_of_ne (hNe '=' (by decide))

theorem scan_of_pair {c d : Char} {t : Token} (h : pairToken? c d = some t) (rest : List Char) :
    scan c (d :: rest) = ⟨⟨[d], rest⟩, t⟩ := by
  cases isPair_of_pairToken h <;> rfl

/-- The forms determine the scanner. -/
theorem scan_of_form {c : Char} {rest : List Char} {s : Scan} (h : Form c rest s) :
    scan c rest = s := by
  cases h with
  | sign hSign hAlone => exact scan_of_sign hSign hAlone
  | pair hPair => exact scan_of_pair hPair _
  | line => rfl
  | block => rfl
  | literal hLiteral => cases hLiteral <;> rfl
  | number hNumber =>
    rcases hNumber with hDigit | ⟨rfl, hDigit⟩
    · rw [scan_of_not_mem (not_mem_marks (by decide) hDigit), if_pos hDigit]
    · simp [scan, hDigit]
  | name hLetter =>
    have hDigit : c.isDigit = false := by
      cases hDigit : c.isDigit with
      | false => rfl
      | true => rw [isLetter_of_isDigit hDigit] at hLetter; cases hLetter
    rw [scan_of_not_mem (not_mem_marks (by decide) hLetter), hDigit, if_neg (by simp),
      if_pos hLetter]
  | unknown hSign hLiteral hDigit hLetter =>
    have hMark : c ∉ marks := by
      have hMarks : ∀ d ∈ marks, (signToken? d).isSome = true ∨ isLiteralMark d = true := by decide
      intro hMem
      rcases hMarks c hMem with h | h
      · rw [hSign] at h; cases h
      · rw [hLiteral] at h; cases h
    rw [scan_of_not_mem hMark, hDigit, if_neg (by simp), hLetter, if_neg (by simp)]
    rfl

/-! ## What may follow a token -/

def divides (c : Char) : Bool :=
  !isNameCharacter c && c ∉ ['.', '+', '-', '=', '>', '/', '*']

def parts (c : Char) : Bool :=
  !isNameCharacter c && c ∉ ['.', '+', '-', '"', '\'', ']', '=', '>', '/', '*']

theorem divides_of_parts {c : Char} (h : parts c = true) : divides c = true := by
  simp_all [parts, divides]

def Parted (rest : List Char) : Prop :=
  ∀ c ∈ rest.head?, parts c = true

theorem parted_cons {c : Char} (h : parts c = true) (rest : List Char) : Parted (c :: rest) := by
  simpa [Parted] using h

def Divided (rest : List Char) : Prop :=
  ∀ c ∈ rest.head?, divides c = true

theorem Parted.divided {rest : List Char} (h : Parted rest) : Divided rest :=
  fun c hc => divides_of_parts (h c hc)

theorem not_lengthens_of_divides {d : Char} (h : divides d = true) (c : Char) :
    lengthens c d = false := by
  simp only [divides, List.mem_cons, List.not_mem_nil, or_false, not_or, Bool.and_eq_true,
    Bool.not_eq_true', decide_eq_true_eq] at h
  obtain ⟨hName, _, _, _, hEqual, hGreater, hSlash, hStar⟩ := h
  have hDigit : d.isDigit = false := by
    simp only [isNameCharacter, Bool.or_eq_false_iff] at hName
    exact hName.2
  simp [lengthens, pairToken?, hEqual, hGreater, hSlash, hStar, hDigit]

theorem readLiteral_closed {q : Char} {rest : List Char} (hRest : ∀ d ∈ rest.head?, d ≠ q)
    (s : List Char) :
    readLiteral q (double q s ++ q :: rest) = ⟨⟨double q s ++ [q], rest⟩, s, true⟩ := by
  induction s with
  | nil =>
    cases rest with
    | nil => simp [double, readLiteral]
    | cons d rest => simp [double, readLiteral, hRest d rfl]
  | cons c s ih =>
    rw [double]
    split
    · rename_i hEq
      subst hEq
      simp [readLiteral, ih]
    · rename_i hNe
      rw [List.cons_append]
      obtain ⟨d, tail, hTail⟩ : ∃ d tail, double q s ++ q :: rest = d :: tail :=
        List.exists_cons_of_ne_nil (by simp)
      rw [hTail, readLiteral, if_neg hNe, ← hTail, ih]
      rfl

theorem readNumber_digit {c : Char} (h : c.isDigit = true) (dotted : Bool) (cs : List Char) :
    readNumber dotted (c :: cs) = (readNumber dotted cs).push c := by
  rw [readNumber.eq_def]
  exact if_pos h

theorem readNumber_stop {rest : List Char} (hRest : Divided rest) (dotted : Bool) :
    readNumber dotted rest = ⟨[], rest⟩ := by
  cases rest with
  | nil => rfl
  | cons c rest =>
    have hPart := hRest c rfl
    have hDigit : c.isDigit = false := by
      cases hDigit : c.isDigit with
      | false => rfl
      | true => simp [divides, isNameCharacter, hDigit] at hPart
    have hDot : c ≠ '.' := by rintro rfl; revert hPart; decide
    have hLower : c ≠ 'e' := by rintro rfl; revert hPart; decide
    have hUpper : c ≠ 'E' := by rintro rfl; revert hPart; decide
    rw [readNumber.eq_def]
    simp [hDigit, hDot, hLower, hUpper]

theorem startsWithDigit_readNumber {cs : List Char} (h : startsWithDigit cs = true)
    (dotted : Bool) : ∃ s taken, (readNumber dotted cs).taken = s :: taken ∧ s.isDigit = true := by
  cases cs with
  | nil => cases h
  | cons c cs => exact ⟨c, _, by rw [readNumber_digit h, Taken.push], h⟩

theorem startsWithDigit_append {cs rest : List Char} (hRest : Divided rest) :
    startsWithDigit (cs ++ rest) = startsWithDigit cs := by
  cases cs with
  | cons => rfl
  | nil =>
    cases rest with
    | nil => rfl
    | cons c rest =>
      have hPart := hRest c rfl
      simp only [divides, isNameCharacter, Bool.and_eq_true, Bool.not_eq_true',
        Bool.or_eq_false_iff] at hPart
      exact hPart.1.2

theorem readNumber_append_of_divided {dotted : Bool} {cs rest : List Char} (hRest : Divided rest) :
    readNumber dotted (cs ++ rest) =
      ⟨(readNumber dotted cs).taken, (readNumber dotted cs).rest ++ rest⟩ := by
  fun_induction readNumber dotted cs with
  | case1 => exact readNumber_stop hRest _
  | case2 dotted c cs hDigit ih =>
    rw [List.cons_append, readNumber_digit hDigit, ih]
    rfl
  | case3 dotted c cs hDigit hDot ih =>
    rw [List.cons_append, readNumber.eq_def]
    simp [hDigit, hDot, ih, Taken.push]
  | case4 dotted c hDigit hDot hMark =>
    cases rest with
    | nil => simp [readNumber.eq_def, hDigit, hDot, hMark]
    | cons d rest =>
      have hPart := hRest d rfl
      have hSecond : d.isDigit = false := @startsWithDigit_append [] _ hRest
      have hPlus : d ≠ '+' := by rintro rfl; revert hPart; decide
      have hMinus : d ≠ '-' := by rintro rfl; revert hPart; decide
      rw [List.singleton_append, readNumber.eq_def]
      simp [hDigit, hDot, hMark, hSecond, hPlus, hMinus]
  | case5 dotted c hDigit hDot hMark s cs hSecond ih =>
    rw [List.cons_append] at ih
    rw [List.cons_append, List.cons_append, readNumber.eq_def]
    simp [hDigit, hDot, hMark, hSecond, ih, Taken.push]
  | case6 dotted c hDigit hDot hMark s cs hSecond hSign ih =>
    rw [List.cons_append, List.cons_append, readNumber.eq_def]
    simp [hDigit, hDot, hMark, hSecond, startsWithDigit_append hRest, hSign, ih, Taken.push]
  | case7 dotted c hDigit hDot hMark s cs hSecond hSign =>
    rw [List.cons_append, List.cons_append, readNumber.eq_def]
    simp [hDigit, hDot, hMark, hSecond, startsWithDigit_append hRest, hSign]
  | case8 dotted c cs hDigit hDot hMark =>
    rw [List.cons_append, readNumber.eq_def]
    simp [hDigit, hDot, hMark]

theorem readBlockComment_closed {previous : Char} {cs : List Char}
    (h : (Mode.inBlock previous).after (readBlockComment previous cs).taken = .code)
    (rest : List Char) :
    readBlockComment previous ((readBlockComment previous cs).taken ++ rest) =
      ⟨(readBlockComment previous cs).taken, rest⟩ := by
  fun_induction readBlockComment previous cs with
  | case1 previous =>
    unfold Mode.inBlock at h
    split at h <;> cases h
  | case2 previous c cs hEnd => simp [readBlockComment, hEnd]
  | case3 previous c cs hInside ih =>
    rw [Taken.push, Mode.after_cons, Mode.next_inBlock (by simpa using hInside)] at h
    rw [Taken.push, List.cons_append, readBlockComment, if_neg hInside, ih h]
    rfl

/-- A block comment ends with its closing mark. -/
theorem last_readBlockComment {previous : Char} {cs : List Char}
    (h : (Mode.inBlock previous).after (readBlockComment previous cs).taken = .code) :
    (readBlockComment previous cs).taken.getLast? = some '/' := by
  fun_induction readBlockComment previous cs with
  | case1 previous =>
    unfold Mode.inBlock at h
    split at h <;> cases h
  | case2 previous c cs hEnd =>
    obtain ⟨-, rfl⟩ : previous = '*' ∧ c = '/' := by simpa using hEnd
    rfl
  | case3 previous c cs hInside ih =>
    rw [Taken.push, Mode.after_cons, Mode.next_inBlock (by simpa using hInside)] at h
    rw [Taken.push, List.getLast?_cons, ih h]
    rfl

theorem takeWhile_append_of_divided {cs rest : List Char} (hRest : Divided rest) :
    Taken.while_ isNameCharacter (cs ++ rest) =
      ⟨cs.takeWhile isNameCharacter, cs.dropWhile isNameCharacter ++ rest⟩ := by
  induction cs with
  | nil =>
    cases rest with
    | nil => rfl
    | cons c rest =>
      have hPart := hRest c rfl
      simp only [divides, Bool.and_eq_true, Bool.not_eq_true'] at hPart
      simp [Taken.while_, hPart.1]
  | cons c cs ih =>
    simp only [Taken.while_, Taken.mk.injEq] at ih
    cases hName : isNameCharacter c with
    | true => simp [Taken.while_, hName, ih]
    | false => simp [Taken.while_, hName]

theorem while_append_of_rest {p : Char → Bool} {cs : List Char} (h : (Taken.while_ p cs).rest ≠ [])
    (rest : List Char) : Taken.while_ p (cs ++ rest) =
      ⟨(Taken.while_ p cs).taken, (Taken.while_ p cs).rest ++ rest⟩ := by
  induction cs with
  | nil => exact absurd rfl h
  | cons c cs ih =>
    cases hc : p c with
    | true =>
      have hRest : (Taken.while_ p cs).rest ≠ [] := by simpa [Taken.while_, hc] using h
      have hTail := ih hRest
      simp only [Taken.while_, Taken.mk.injEq] at hTail
      simp [Taken.while_, hc, hTail]
    | false => simp [Taken.while_, hc]

/-- A literal is closed where something follows it or nothing stays open. -/
theorem closed_of_ends {c q : Char} {token : List Char → Token} (h : IsLiteral c q token)
    {cs : List Char} (hEnds : (readLiteral q cs).rest ≠ [] ∨
      (Mode.code.after (c :: (readLiteral q cs).taken)).isCalm = true) :
    (readLiteral q cs).closed = true := by
  have hInside := Mode.inside_of_isLiteral h
  cases hClosed : (readLiteral q cs).closed with
  | true => rfl
  | false =>
    rcases hEnds with hRest | hCalm
    · exact absurd (rest_readLiteral_of_open hClosed) hRest
    · rw [taken_readLiteral, hClosed, if_neg (by simp), List.append_nil, Mode.after_cons,
        hInside.after_double, hInside.isCalm_inside] at hCalm
      cases hCalm

theorem literal_closed {q : Char} {cs : List Char} (token : List Char → Token)
    (hClosed : (readLiteral q cs).closed = true) {rest : List Char}
    (hRest : ∀ d ∈ rest.head?, d ≠ q) :
    literal q token ((readLiteral q cs).taken ++ rest) =
      ⟨⟨(readLiteral q cs).taken, rest⟩, token (readLiteral q cs).content⟩ := by
  have hTaken := taken_readLiteral q cs
  rw [hClosed, if_pos rfl] at hTaken
  rw [hTaken, List.append_assoc, List.singleton_append, literal, readLiteral_closed hRest]

theorem blockComment_closed_of_ends {cs : List Char}
    (hEnds : (readBlockComment '\x00' cs).rest ≠ [] ∨
      ((Mode.inBlock '\x00').after (readBlockComment '\x00' cs).taken).isCalm = true) :
    (Mode.inBlock '\x00').after (readBlockComment '\x00' cs).taken = .code := by
  rcases (Mode.delimiters_readBlockComment '\x00' cs).2 with ⟨hRest, hOpen⟩ | hClosed
  · rcases hEnds with hEnds | hCalm
    · exact absurd hRest hEnds
    · exact absurd (hOpen.symm.trans hCalm) (by decide)
  · exact hClosed

theorem head_append {cs rest : List Char} {p : Char → Prop} (hHead : ∀ d ∈ cs.head?, p d)
    (hRest : cs = [] → ∀ d ∈ rest.head?, p d) : ∀ d ∈ (cs ++ rest).head?, p d := by
  cases cs with
  | nil => exact hRest rfl
  | cons => exact hHead

/-- A token that leaves nothing open, or that something follows already, reads the same where more
text follows. Only a literal that nothing follows yet can take in its own mark once more. -/
theorem scan_append_of_divided {c : Char} {cs rest : List Char} (hRest : Divided rest)
    (hParted : (scan c cs).rest = [] → Parted rest)
    (hEnds : (scan c cs).rest ≠ [] ∨ (Mode.code.after (c :: (scan c cs).taken)).isCalm = true) :
    scan c (cs ++ rest) =
      ⟨⟨(scan c cs).taken, (scan c cs).rest ++ rest⟩, (scan c cs).token⟩ := by
  have hForm := form_scan c cs
  refine scan_of_form ?_
  generalize scan c cs = s at hForm hParted hEnds
  cases hForm with
  | sign hSign hAlone =>
    exact .sign hSign (head_append hAlone fun _ d hd => not_lengthens_of_divides (hRest d hd) c)
  | pair hPair => exact .pair hPair
  | @line after =>
    have hNewline : (Taken.while_ (· != '\n') after).rest ≠ [] := by
      rcases hEnds with hEnds | hCalm
      · exact hEnds
      · have hLine : Mode.code.after ('/' :: '/' :: after.takeWhile (· != '\n')) = .line :=
          Mode.after_line Mode.mem_takeWhile_ne_newline
        simp only [Taken.push, Taken.while_, hLine] at hCalm
        cases hCalm
    have hSame := while_append_of_rest hNewline rest
    have hForm := @Form.line (after ++ rest)
    simp only [Taken.while_, Taken.mk.injEq] at hSame
    simpa [Taken.while_, Taken.push, hSame] using hForm
  | @block after =>
    have hSame := readBlockComment_closed (blockComment_closed_of_ends hEnds)
      ((readBlockComment '\x00' after).rest ++ rest)
    rw [← List.append_assoc, readBlockComment_append] at hSame
    have hForm := @Form.block (after ++ rest)
    rw [hSame] at hForm
    exact hForm
  | @literal _ q token _ hLiteral =>
    have hClosed := closed_of_ends hLiteral hEnds
    have hNe : ∀ d, parts d = true → d ≠ q := by
      rintro d hd rfl
      revert hd
      cases hLiteral <;> decide
    have hSame := literal_closed token hClosed
      (head_append (head_rest_readLiteral hClosed) fun h d hd => hNe d (hParted h d hd))
    rw [← List.append_assoc, readLiteral_append] at hSame
    have hForm := @Form.literal _ _ _ (cs ++ rest) hLiteral
    rw [hSame] at hForm
    exact hForm
  | number hNumber =>
    have hForm := @Form.number _ (cs ++ rest)
      (hNumber.imp_right (And.imp_right fun hDigit => by rwa [startsWithDigit_append hRest]))
    rw [number, readNumber_append_of_divided hRest] at hForm
    exact hForm
  | name hLetter =>
    have hForm := @Form.name _ (cs ++ rest) hLetter
    rw [name, takeWhile_append_of_divided hRest] at hForm
    exact hForm
  | unknown hSign hLiteral hDigit hLetter => exact .unknown hSign hLiteral hDigit hLetter

end Scan

theorem dropWhile_append_of_cons {p : Char → Bool} {a rest : List Char} {c : Char}
    (h : a.dropWhile p = c :: rest) (b : List Char) :
    (a ++ b).dropWhile p = c :: (rest ++ b) ∧ (a ++ b).takeWhile p = a.takeWhile p := by
  have hSame := @Scan.while_append_of_rest p a (by rw [Taken.while_, h]; simp) b
  simp only [Taken.while_, Taken.mk.injEq, h] at hSame
  exact ⟨hSame.2, hSame.1⟩

/-- Texts are read one after the other where the first leaves nothing open and has no white space at
its end, and the second continues no token. -/
theorem tokenize_append {a b : List Char} (hCalm : (Mode.code.after a).isCalm = true)
    (hLast : ∀ c ∈ a.getLast?, isBlank c = false) (hParted : Scan.Parted b) :
    tokenize (a ++ b) = tokenize a ++ tokenize b := by
  fun_induction tokenize a with
  | case1 a hEmpty =>
    cases hEnd : a.getLast? with
    | none =>
      rw [List.getLast?_eq_none_iff.1 hEnd]
      rfl
    | some c =>
      have hBlank : isBlank c = true := List.dropWhile_eq_nil_iff.1 hEmpty c (List.mem_of_mem_getLast? hEnd)
      rw [hLast c hEnd] at hBlank
      cases hBlank
  | case2 a c rest hCons s ih =>
    obtain ⟨hDrop, hTake⟩ := dropWhile_append_of_cons hCons b
    have hSplit : a = a.takeWhile isBlank ++ (c :: s.taken ++ s.rest) := by
      rw [List.cons_append, Scan.scan_append, ← hCons, List.takeWhile_append_dropWhile]
    have hForm := Mode.resumes_form (Scan.form_scan c rest)
    have hAfter : Mode.code.after a = (Mode.code.after (c :: s.taken)).after s.rest := by
      rw [hSplit, Mode.after_append, Mode.after_of_plain (Mode.plain_takeWhile_blank a),
        Mode.after_append]
    have hEnds : s.rest ≠ [] ∨ (Mode.code.after (c :: s.taken)).isCalm = true := by
      by_cases hRest : s.rest = []
      · rw [hAfter, hRest] at hCalm
        exact .inr hCalm
      · exact .inl hRest
    have hRest : tokenize (s.rest ++ b) = tokenize s.rest ++ tokenize b := by
      by_cases hEmpty : s.rest = []
      · rw [hEmpty, tokenize_nil]
        rfl
      · refine ih ?_ ?_
        · rwa [hAfter, hForm.after_eq hEmpty] at hCalm
        · intro d hd
          refine hLast d ?_
          rw [hSplit, List.getLast?_append, List.getLast?_append, Option.mem_def.1 hd]
          rfl
    rw [tokenize_of_cons hDrop, hTake,
      Scan.scan_append_of_divided hParted.divided (fun _ => hParted) hEnds, hRest]
    rfl

def indent (w : List Char) : List Lexeme → List Lexeme
  | [] => []
  | l :: ls => { l with leading := w ++ l.leading } :: ls

theorem tokenize_blank_append {w : List Char} (hBlank : allBlank w = true) (cs : List Char) :
    tokenize (w ++ cs) = indent w (tokenize cs) := by
  have hAll : ∀ c ∈ w, isBlank c = true := List.all_eq_true.1 hBlank
  have hDrop : (w ++ cs).dropWhile isBlank = cs.dropWhile isBlank :=
    List.dropWhile_append_of_pos hAll
  cases hCons : cs.dropWhile isBlank with
  | nil =>
    rw [tokenize_of_blank hCons, tokenize_of_blank (hDrop.trans hCons)]
    rfl
  | cons c rest =>
    rw [tokenize_of_cons hCons, tokenize_of_cons (hDrop.trans hCons),
      List.takeWhile_append_of_pos hAll]
    rfl

@[simp]
theorem render_indent (w : List Char) (ls : List Lexeme) : render (indent w ls) = render ls := by
  cases ls <;> rfl

@[simp]
theorem map_token_indent (w : List Char) (ls : List Lexeme) :
    (indent w ls).map Lexeme.token = ls.map Lexeme.token := by
  cases ls <;> rfl

@[simp]
theorem indent_nil (ls : List Lexeme) : indent [] ls = ls := by
  cases ls <;> rfl

theorem written_tokenize_of_settled {text : List Char} (h : Settled text) :
    written (tokenize text) = text := by
  obtain ⟨trailing, hBlank, hWritten⟩ := written_tokenize text
  have hTrailing : trailing = [] := by
    by_contra hFilled
    have hLast := List.getLast?_eq_some_getLast hFilled
    have hc := h.last (trailing.getLast hFilled) (by rw [← hWritten, List.getLast?_append, hLast]; rfl)
    rw [List.all_eq_true.1 hBlank _ (List.getLast_mem hFilled)] at hc
    cases hc
  rwa [hTrailing, List.append_nil] at hWritten

theorem leading_of_settled {text : List Char} (h : Settled text) {l : Lexeme} {ls : List Lexeme}
    (hCons : tokenize text = l :: ls) : l.leading = [] := by
  have hWritten := written_tokenize_of_settled h
  have hMem : l ∈ tokenize text := by rw [hCons]; exact List.mem_cons_self
  obtain ⟨_, _, _, _, _, hLeading⟩ := scan_of_mem_tokenize hMem
  rw [hCons, written_cons] at hWritten
  cases hSpace : l.leading with
  | nil => rfl
  | cons c leading =>
    have hc := h.head c (by rw [← hWritten, hSpace]; rfl)
    rw [List.all_eq_true.1 hLeading c (by rw [hSpace]; exact List.mem_cons_self)] at hc
    cases hc

/-- A settled text is what its lexemes are written as. -/
theorem render_tokenize {text : List Char} (h : Settled text) : render (tokenize text) = text := by
  have hWritten := written_tokenize_of_settled h
  cases hCons : tokenize text with
  | nil =>
    rw [hCons] at hWritten
    exact absurd hWritten.symm h.filled
  | cons l ls =>
    rw [hCons, written_cons, leading_of_settled h hCons, List.nil_append] at hWritten
    rw [render, hWritten]
    exact h.trim_eq

end DaxMigration.Formula
