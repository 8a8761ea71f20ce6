import DaxMigration.Proofs.Formula.Rows

/-!
# Fluent texts

Texts in which a reader comes upon no comment, and where asked for upon no division sign either.
Such texts can be put one after the other in any order, since none of them ends where the next one
could be read otherwise than from code.
-/

namespace DaxMigration.Formula

open Text

namespace Mode

def allows (signs : Bool) : Mode → Bool
  | code | string | singleQuoted | field | fieldEnd => true
  | slash => signs
  | line | block | blockStar => false

def stays (signs : Bool) (m : Mode) : List Char → Bool
  | [] => true
  | c :: cs => (m.next c).allows signs && (m.next c).stays signs cs

variable {signs : Bool}

theorem stays_append (m : Mode) (a b : List Char) :
    m.stays signs (a ++ b) = (m.stays signs a && (m.after a).stays signs b) := by
  induction a generalizing m with
  | nil => rfl
  | cons c a ih => simp [stays, ih, Bool.and_assoc]

theorem allows_after {m : Mode} (hMode : m.allows signs = true) {cs : List Char}
    (h : m.stays signs cs = true) : (m.after cs).allows signs = true := by
  induction cs generalizing m with
  | nil => exact hMode
  | cons c cs ih =>
    obtain ⟨hNext, hRest⟩ := Bool.and_eq_true_iff.1 h
    exact ih hNext hRest

theorem Resumes.stays_eq {m : Mode} {rest : List Char} (h : m.Resumes rest) :
    m.stays signs rest = code.stays signs rest := by
  cases rest with
  | nil => rfl
  | cons d rest => rw [stays, stays, (h d rfl).1]

theorem stays_of_plain {cs : List Char} (h : ∀ c ∈ cs, IsPlain c) :
    code.stays signs cs = true := by
  induction cs with
  | nil => rfl
  | cons c cs ih =>
    obtain ⟨hFirst, hRest⟩ := List.forall_mem_cons.1 h
    rw [stays, next, hFirst.1, ih hRest]
    rfl

theorem stays_double {c q : Char} {token : List Char → Token} (h : Scan.IsLiteral c q token)
    (s : List Char) : (code.next c).stays signs (double q s) = true := by
  induction s with
  | nil => rfl
  | cons d s ih =>
    rw [double]
    split
    · cases h <;> simpa [stays, next, ofCode, allows] using ih
    · cases h <;> simpa [stays, next, ofCode, allows, *] using ih

theorem stays_literal {c q : Char} {token : List Char → Token} (h : Scan.IsLiteral c q token)
    (s : List Char) : code.stays signs (c :: (double q s ++ [q])) = true := by
  rw [stays, stays_append, stays_double h, (inside_of_isLiteral h).after_double]
  cases h <;> rfl

/-- White space ends nothing but a sign. -/
theorem next_of_blank {m : Mode} (hMode : m.allows signs = true) {c : Char}
    (hBlank : isBlank c = true) : m.next c = if m.isCalm then code else m := by
  have hMarks : c ≠ '"' ∧ c ≠ '\'' ∧ c ≠ ']' ∧ c ≠ '/' ∧ c ≠ '*' := by
    refine ⟨?_, ?_, ?_, ?_, ?_⟩ <;> rintro rfl <;> revert hBlank <;> decide
  have hCode := (isPlain_of_isBlank hBlank).1
  cases m <;> simp_all [next, isCalm, allows]

theorem isCalm_of_after_blank {m : Mode} (hMode : m.allows signs = true) {cs : List Char}
    (hBlank : allBlank cs = true) (h : (m.after cs).isCalm = true) : m.isCalm = true := by
  induction cs with
  | nil => exact h
  | cons c cs ih =>
    obtain ⟨hFirst, hRest⟩ := Bool.and_eq_true_iff.1 hBlank
    rw [after_cons, next_of_blank hMode hFirst] at h
    split at h
    · assumption
    · exact ih hRest h

theorem eq_slash_of_next {m : Mode} {c : Char} (h : m.next c = slash) : c = '/' := by
  have hCode : ofCode c = slash → c = '/' := by
    unfold ofCode
    split_ifs <;> simp_all
  cases m <;> simp only [next] at h <;> (try split_ifs at h) <;> exact hCode h

theorem eq_slash_of_after {m : Mode} {cs : List Char} (hFilled : cs ≠ []) (h : m.after cs = slash) :
    cs.getLast? = some '/' := by
  obtain ⟨cs, c, rfl⟩ := (List.eq_nil_or_concat cs).resolve_left hFilled
  rw [List.concat_eq_append, after_append] at h
  rw [List.concat_eq_append, eq_slash_of_next h, List.getLast?_concat]

end Mode

/-! ## Marks -/

def inked (text : List Char) : List Char :=
  text.filter fun c => !isBlank c

@[simp]
theorem inked_append (a b : List Char) : inked (a ++ b) = inked a ++ inked b :=
  List.filter_append ..

theorem inked_eq_nil {text : List Char} : inked text = [] ↔ allBlank text = true := by
  simp [inked, allBlank, List.filter_eq_nil_iff]

theorem exists_trim (text : List Char) :
    ∃ before after, allBlank before = true ∧ allBlank after = true ∧
      text = before ++ (trim text ++ after) := by
  have hTrailing : ∀ cs : List Char, ∃ after, allBlank after = true ∧ trimEnd cs ++ after = cs := by
    intro cs
    induction cs with
    | nil => exact ⟨[], rfl, rfl⟩
    | cons c cs ih =>
      obtain ⟨after, hBlank, hSplit⟩ := ih
      rw [trimEnd, dropTrailing_cons]
      split
      · rename_i hDropped
        obtain ⟨hEmpty, hc⟩ := Bool.and_eq_true_iff.1 hDropped
        rw [trimEnd, List.isEmpty_iff.1 hEmpty, List.nil_append] at hSplit
        exact ⟨c :: cs, by rw [← hSplit]; simpa [allBlank, hc] using hBlank, rfl⟩
      · exact ⟨after, hBlank, by rw [List.cons_append]; exact congrArg _ hSplit⟩
  obtain ⟨after, hAfter, hSplit⟩ := hTrailing (text.dropWhile isBlank)
  refine ⟨text.takeWhile isBlank, after, ?_, hAfter, ?_⟩
  · exact List.all_eq_true.2 fun c hc => List.mem_takeWhile_imp hc
  · rw [trim, trimStart, hSplit, List.takeWhile_append_dropWhile]

theorem inked_trim (text : List Char) : inked (trim text) = inked text := by
  obtain ⟨before, after, hBefore, hAfter, hSplit⟩ := exists_trim text
  have hMarks := congrArg inked hSplit
  rw [inked_append, inked_append, inked_eq_nil.2 hBefore, inked_eq_nil.2 hAfter, List.nil_append,
    List.append_nil] at hMarks
  exact hMarks.symm

theorem head_dropTrailing {p : Char → Bool} {cs : List Char} :
    ∀ c ∈ (dropTrailing p cs).head?, c ∈ cs.head? := by
  cases cs with
  | nil => simp
  | cons d cs =>
    rw [dropTrailing_cons]
    split
    · simp
    · exact fun c hc => hc

theorem last_dropTrailing {p : Char → Bool} {cs : List Char} :
    ∀ c ∈ (dropTrailing p cs).getLast?, p c = false := by
  induction cs with
  | nil => simp
  | cons d cs ih =>
    rw [dropTrailing_cons]
    split
    · simp
    · rename_i hKept
      intro c hc
      cases hRest : dropTrailing p cs with
      | nil =>
        obtain rfl : d = c := by simpa [hRest] using hc
        simpa [hRest] using hKept
      | cons e rest =>
        rw [hRest, List.getLast?_cons_cons, ← hRest] at hc
        exact ih c hc

/-- A trimmed text has no white space at its ends. -/
theorem trim_ends (text : List Char) :
    (∀ c ∈ (trim text).head?, isBlank c = false) ∧ ∀ c ∈ (trim text).getLast?, isBlank c = false := by
  refine ⟨fun c hc => ?_, last_dropTrailing⟩
  have hHead : c ∈ (text.dropWhile isBlank).head? := head_dropTrailing c hc
  have hNot := List.head?_dropWhile_not isBlank text
  rw [Option.mem_def.1 hHead] at hNot
  simpa using hNot

theorem trim_trim (text : List Char) : trim (trim text) = trim text :=
  trim_eq_self (trim_ends text).1 (trim_ends text).2

def partsSign (c : Char) : Bool :=
  c != '/' && c != '*'

/-- A text whose first mark begins no comment after a division sign. -/
def Parting (text : List Char) : Prop :=
  ∀ c ∈ (inked text).head?, partsSign c = true

theorem partsSign_of_isBlank {c : Char} (h : isBlank c = true) : partsSign c = true := by
  have hMarks : c ≠ '/' ∧ c ≠ '*' := by
    constructor <;> rintro rfl <;> revert h <;> decide
  simp [partsSign, hMarks]

namespace Parting

variable {a b text : List Char}

theorem head (h : Parting text) : ∀ c ∈ text.head?, partsSign c = true := by
  cases text with
  | nil => simp
  | cons d text =>
    intro c hc
    obtain rfl : d = c := by simpa using hc
    cases hBlank : isBlank d with
    | true => exact partsSign_of_isBlank hBlank
    | false => exact h d (by simp [inked, hBlank])

theorem append (h : Parting a) (hMarks : inked a ≠ []) (b : List Char) : Parting (a ++ b) := by
  obtain ⟨c, rest, hCons⟩ := List.exists_cons_of_ne_nil hMarks
  rw [Parting, hCons] at h
  rw [Parting, inked_append, hCons]
  simpa using h

theorem indent (h : Parting b) (hBlank : allBlank a = true) : Parting (a ++ b) := by
  rw [Parting, inked_append, inked_eq_nil.2 hBlank]
  exact h

/-- A division sign in front of the text is read as nothing more. -/
theorem resumes (h : Parting text) : Mode.slash.Resumes text := by
  intro c hc
  have hParts := h.head c hc
  simp only [partsSign, Bool.and_eq_true, bne_iff_ne] at hParts
  simp [Mode.next, Mode.emit, hParts]

theorem delimiters_slash (h : Parting text) :
    Mode.code.delimiters ('/' :: text) = Mode.code.delimiters text := by
  rw [Mode.delimiters]
  exact h.resumes.delimiters_eq

theorem trim (h : Parting text) : Parting (Text.trim text) := by
  rw [Parting, inked_trim]
  exact h

end Parting

/-! ## Fluent texts -/

/-- A text without comments, and without division signs unless `signs`, in which every literal is
closed and whose last mark is no division sign. -/
structure Fluent (signs : Bool) (text : List Char) : Prop where
  stays : Mode.code.stays signs text = true
  calm : (Mode.code.after text).isCalm = true
  closed : Token.illegal ']' ∉ Mode.code.delimiters text
  last : ∀ c ∈ (inked text).getLast?, c ≠ '/'

namespace Fluent

variable {signs : Bool} {a b text : List Char}

theorem after (h : Fluent signs text) :
    Mode.code.after text = .code ∨ Mode.code.after text = .fieldEnd := by
  have hCalm := h.calm
  cases hAfter : Mode.code.after text with
  | code => exact .inl rfl
  | fieldEnd => exact .inr rfl
  | slash =>
    have hFilled : text ≠ [] := by
      rintro rfl
      cases hAfter
    have hLast := Mode.eq_slash_of_after hFilled hAfter
    obtain ⟨cs, hText⟩ := List.getLast?_eq_some_iff.1 hLast
    refine absurd rfl (h.last '/' ?_)
    rw [hText, inked_append, List.getLast?_append]
    rfl
  | _ => rw [hAfter] at hCalm; cases hCalm

theorem head (h : Fluent signs text) : ∀ c ∈ text.head?, c ≠ ']' := by
  rintro c hc rfl
  cases text with
  | nil => cases hc
  | cons d text =>
    obtain rfl : d = ']' := by simpa using hc
    refine h.closed ?_
    simp [Mode.delimiters, Mode.emit, Mode.delimiter]

/-- What follows a fluent text is read as from code. -/
theorem resumes (h : Fluent signs a) {rest : List Char} (hRest : ∀ c ∈ rest.head?, c ≠ ']') :
    (Mode.code.after a).Resumes rest := by
  intro c hc
  rcases h.after with hAfter | hAfter
  · rw [hAfter]
    exact ⟨rfl, rfl⟩
  · simp [hAfter, Mode.next, Mode.emit, hRest c hc]

theorem delimiters_append (ha : Fluent signs a) (hb : Fluent signs b) :
    Mode.code.delimiters (a ++ b) = Mode.code.delimiters a ++ Mode.code.delimiters b := by
  rw [Mode.delimiters_append, (ha.resumes hb.head).delimiters_eq]

theorem append (ha : Fluent signs a) (hb : Fluent signs b) : Fluent signs (a ++ b) where
  stays := by
    rw [Mode.stays_append, ha.stays, (ha.resumes hb.head).stays_eq, hb.stays]
    rfl
  calm := by
    rw [Mode.after_append]
    by_cases hEmpty : b = []
    · rw [hEmpty]
      exact ha.calm
    · rw [(ha.resumes hb.head).after_eq hEmpty]
      exact hb.calm
  closed := by
    rw [ha.delimiters_append hb, List.mem_append]
    exact not_or.2 ⟨ha.closed, hb.closed⟩
  last c hc := by
    rw [inked_append, List.getLast?_append] at hc
    cases hEnd : (inked b).getLast? with
    | none => exact ha.last c (by simpa [hEnd] using hc)
    | some d => exact hb.last c (by simpa [hEnd] using hc)

end Fluent

theorem fluent_of_plain (signs : Bool) {text : List Char} (h : ∀ c ∈ text, Mode.IsPlain c) :
    Fluent signs text where
  stays := Mode.stays_of_plain h
  calm := by
    rw [Mode.after_of_plain h]
    rfl
  closed := by simp [Mode.delimiters_of_plain h]
  last := by
    rintro c hc rfl
    have hMem := List.mem_filter.1 (List.mem_of_mem_getLast? hc)
    exact absurd (h _ hMem.1) (by decide)

theorem fluent_of_blank (signs : Bool) {text : List Char} (h : allBlank text = true) :
    Fluent signs text :=
  fluent_of_plain signs (Mode.plain_of_allBlank h)

theorem fluent_literal (signs : Bool) {c q : Char} {token : List Char → Token}
    (h : Scan.IsLiteral c q token) (s : List Char) : Fluent signs (c :: (double q s ++ [q])) where
  stays := Mode.stays_literal h s
  calm := (settled_literal h s).calm
  closed := by simp [delimiters_literal h]
  last d hd := by
    have hMark : inked [q] = [q] := by cases h <;> rfl
    rw [← List.cons_append, inked_append, hMark, List.getLast?_concat] at hd
    obtain rfl : q = d := by simpa using hd
    cases h <;> decide

/-- A bracket, a comma or another character that opens nothing. -/
theorem fluent_single (signs : Bool) {c : Char} (hCode : Mode.ofCode c = .code) (hClose : c ≠ ']') :
    Fluent signs [c] where
  stays := by
    rw [Mode.stays, Mode.next, hCode]
    rfl
  calm := by
    rw [Mode.after_cons, Mode.next, hCode]
    rfl
  closed := by
    simp only [Mode.delimiters, Mode.emit, Mode.delimiter, hClose, if_false, List.append_nil]
    split_ifs <;> simp
  last := by
    rintro d hd rfl
    obtain rfl : c = '/' := by
      have hMem := List.mem_filter.1 (List.mem_of_mem_getLast? hd)
      exact (List.mem_singleton.1 hMem.1).symm
    cases hCode

/-- A division sign in front of its right operand. -/
theorem Fluent.slash {text : List Char} (h : Fluent true text) (hMarks : inked text ≠ [])
    (hParts : Parting text) : Fluent true ('/' :: text) where
  stays := by
    rw [Mode.stays]
    exact hParts.resumes.stays_eq.trans h.stays
  calm := by
    have hFilled : text ≠ [] := by
      rintro rfl
      exact hMarks rfl
    rw [Mode.after_cons]
    exact (congrArg Mode.isCalm (hParts.resumes.after_eq hFilled)).trans h.calm
  closed := by
    rw [hParts.delimiters_slash]
    exact h.closed
  last c hc := by
    obtain ⟨d, rest, hCons⟩ := List.exists_cons_of_ne_nil hMarks
    have hSplit : inked ('/' :: text) = '/' :: inked text := rfl
    refine h.last c ?_
    rwa [hSplit, hCons, List.getLast?_cons_cons, ← hCons] at hc

theorem Mode.delimiters_of_blank {m : Mode} (hCalm : m.isCalm = true) {cs : List Char}
    (h : allBlank cs = true) : m.delimiters cs = [] := by
  have hPlain := plain_of_allBlank h
  have hResumes : m.Resumes cs := by
    intro c hc
    have hBlank := List.all_eq_true.1 h c (List.mem_of_mem_head? hc)
    have hMarks : c ≠ ']' ∧ c ≠ '/' ∧ c ≠ '*' := by
      refine ⟨?_, ?_, ?_⟩ <;> rintro rfl <;> revert hBlank <;> decide
    cases m <;> simp_all [next, emit, isCalm]
  rw [hResumes.delimiters_eq, delimiters_of_plain hPlain]

/-- White space at the ends means nothing. -/
theorem Mode.delimiters_trim {text : List Char} (h : (code.after (trim text)).isCalm = true) :
    code.delimiters (trim text) = code.delimiters text := by
  obtain ⟨before, after, hBefore, hAfter, hSplit⟩ := exists_trim text
  have hDelimiters := congrArg code.delimiters hSplit
  rw [delimiters_append, delimiters_of_plain (plain_of_allBlank hBefore),
    after_of_plain (plain_of_allBlank hBefore), delimiters_append, delimiters_of_blank h hAfter,
    List.nil_append, List.append_nil] at hDelimiters
  exact hDelimiters.symm

theorem Fluent.trim {signs : Bool} {text : List Char} (h : Fluent signs text) :
    Fluent signs (trim text) := by
  obtain ⟨before, after, hBefore, hAfter, hSplit⟩ := exists_trim text
  have hCode := Mode.after_of_plain (Mode.plain_of_allBlank hBefore)
  have hStays := h.stays
  have hEnd := h.calm
  rw [hSplit, Mode.stays_append, hCode, Mode.stays_append, Bool.and_eq_true_iff,
    Bool.and_eq_true_iff] at hStays
  rw [hSplit, Mode.after_append, hCode, Mode.after_append] at hEnd
  have hCalm := Mode.isCalm_of_after_blank (Mode.allows_after rfl hStays.2.1) hAfter hEnd
  refine ⟨hStays.2.1, hCalm, ?_, ?_⟩
  · rw [Mode.delimiters_trim hCalm]
    exact h.closed
  · rw [inked_trim]
    exact h.last

/-! ## Lexemes -/

theorem token_ne_slash_of_form {c : Char} {rest : List Char} {s : Scan} (h : Scan.Form c rest s)
    (hStays : Mode.code.stays false (c :: s.taken) = true) : s.token ≠ .slash := by
  cases h with
  | sign hSign =>
    rintro rfl
    have hMode : Mode.ofCode c = .slash := (modeAfter_of_sign hSign).1
    simp [Mode.stays, Mode.next, hMode, Mode.allows] at hStays
  | pair hPair => cases Scan.isPair_of_pairToken hPair <;> simp
  | literal hLiteral => cases hLiteral <;> simp [Scan.literal]
  | name =>
    simp only [Scan.name, nameToken]
    split
    · simp
    split <;> simp
  | _ => simp [Scan.number]

/-- No division sign is read from a text without one. -/
theorem token_ne_slash_of_stays {cs : List Char} (h : Mode.code.stays false cs = true) :
    ∀ l ∈ tokenize cs, l.token ≠ .slash := by
  fun_induction tokenize cs with
  | case1 => simp
  | case2 cs c rest hCons s ih =>
    have hForm := Scan.form_scan c rest
    have hSplit : cs = cs.takeWhile isBlank ++ (c :: s.taken ++ s.rest) := by
      rw [List.cons_append, Scan.scan_append, ← hCons, List.takeWhile_append_dropWhile]
    rw [hSplit, Mode.stays_append, Mode.after_of_plain (Mode.plain_takeWhile_blank cs),
      Mode.stays_append, (Mode.resumes_form hForm).stays_eq, Bool.and_eq_true_iff,
      Bool.and_eq_true_iff] at h
    obtain ⟨-, hToken, hRest⟩ := h
    exact List.forall_mem_cons.2 ⟨token_ne_slash_of_form hForm hToken, ih hRest⟩

theorem fluent_of_mem_tokenize (signs : Bool) {cs : List Char} {l : Lexeme} (h : l ∈ tokenize cs)
    (hTerminated : l.isTerminated = true) (hComment : l.isComment = false)
    (hStray : l.token ≠ .illegal ']') (hSlash : l.token ≠ .slash) : Fluent signs l.text := by
  obtain ⟨c, rest, hToken, hText, -⟩ := scan_of_mem_tokenize h
  have hForm := Scan.form_scan c rest
  rw [Lexeme.isComment, hToken] at hComment
  rw [Lexeme.isTerminated, hToken, hText] at hTerminated
  rw [hToken] at hStray hSlash
  rw [hText]
  generalize Scan.scan c rest = s at hForm hComment hTerminated hStray hSlash
  cases hForm with
  | sign hSign =>
    refine fluent_single signs ?_ (by rintro rfl; cases hSign)
    rw [(modeAfter_of_sign hSign).1]
    unfold Scan.signToken? at hSign
    split at hSign <;> cases hSign <;> first | rfl | exact absurd rfl hSlash
  | pair hPair =>
    obtain ⟨hFirst, hSecond, -⟩ := Mode.plain_of_pair hPair
    exact fluent_of_plain signs (by simp [hFirst, hSecond])
  | line => cases hComment
  | block => cases hComment
  | @literal _ q _ rest hLiteral =>
    have hClosed : c :: (readLiteral q rest).taken =
        c :: (double q (readLiteral q rest).content ++ [q]) := by
      cases hLiteral <;> simpa [Scan.literal] using hTerminated
    rw [Scan.literal, hClosed]
    exact fluent_literal signs hLiteral _
  | number hNumber => exact fluent_of_plain signs (Mode.plain_of_number hNumber)
  | name hLetter => exact fluent_of_plain signs (Mode.plain_of_name hLetter)
  | unknown hSign hLiteral =>
    rcases Mode.unknown_spec hSign hLiteral with rfl | hPlain
    · exact absurd rfl hStray
    · exact fluent_of_plain signs (by simpa using hPlain)

/-- Only an operator begins with a character that could begin a comment after a division sign. -/
theorem partsSign_of_form {c : Char} {rest : List Char} {s : Scan} (h : Scan.Form c rest s)
    (hComment : s.token.isComment = false) (hSlash : s.token ≠ .slash)
    (hAsterisk : s.token ≠ .asterisk) : partsSign c = true := by
  cases h with
  | sign hSign =>
    have hMarks : c ≠ '/' ∧ c ≠ '*' := by
      constructor <;> rintro rfl <;> cases hSign <;> contradiction
    simp [partsSign, hMarks]
  | pair hPair => cases Scan.isPair_of_pairToken hPair <;> decide
  | line | block => cases hComment
  | literal hLiteral => cases hLiteral <;> decide
  | number hNumber =>
    have hMarks : c ≠ '/' ∧ c ≠ '*' := by
      constructor <;> rintro rfl <;> revert hNumber <;> simp
    simp [partsSign, hMarks]
  | name hLetter =>
    have hMarks : c ≠ '/' ∧ c ≠ '*' := by
      constructor <;> rintro rfl <;> revert hLetter <;> decide
    simp [partsSign, hMarks]
  | unknown hSign =>
    have hMarks : c ≠ '/' ∧ c ≠ '*' := by
      constructor <;> rintro rfl <;> cases hSign
    simp [partsSign, hMarks]

theorem inked_of_mem_tokenize {cs : List Char} {l : Lexeme} (h : l ∈ tokenize cs) :
    inked l.text ≠ [] := by
  obtain ⟨c, _, _, hText, hBlank, _⟩ := scan_of_mem_tokenize h
  simp [hText, inked, hBlank]

theorem parting_of_mem_tokenize {cs : List Char} {l : Lexeme} (h : l ∈ tokenize cs)
    (hComment : l.isComment = false) (hSlash : l.token ≠ .slash) (hAsterisk : l.token ≠ .asterisk) :
    Parting l.text := by
  obtain ⟨c, rest, hToken, hText, hBlank, -⟩ := scan_of_mem_tokenize h
  rw [Lexeme.isComment, hToken] at hComment
  rw [hToken] at hSlash hAsterisk
  have hParts := partsSign_of_form (Scan.form_scan c rest) hComment hSlash hAsterisk
  rw [Parting, hText]
  simpa [inked, hBlank] using hParts

def Token.isSign : Token → Bool
  | plus | minus | asterisk | slash | percent | caret | ampersand | equals | doubleEquals | notEqual
  | lessThan | greaterThan | lessEqual | greaterEqual | lparen | rparen | lbrace | rbrace | comma
  | colon | dot => true
  | _ => false

theorem text_of_form {c : Char} {rest : List Char} {s : Scan} (h : Scan.Form c rest s)
    (hSign : s.token.isSign = true) (hNot : s.token ≠ .notEqual) : c :: s.taken = s.token.display := by
  cases h with
  | sign hChar =>
    unfold Scan.signToken? at hChar
    split at hChar <;> first | (cases hChar; rfl) | cases hChar
    cases hSign
  | pair hPair => cases Scan.isPair_of_pairToken hPair <;> first | rfl | exact absurd rfl hNot
  | literal hLiteral => cases hLiteral <;> cases hSign
  | name =>
    simp only [Scan.name, nameToken] at hSign
    split at hSign
    · cases hSign
    split at hSign <;> cases hSign
  | line | block | number | unknown => cases hSign

/-- Every sign has one spelling, except that inequality has two. -/
theorem text_of_isSign {cs : List Char} {l : Lexeme} (h : l ∈ tokenize cs)
    (hSign : l.token.isSign = true) (hNot : l.token ≠ .notEqual) : l.text = l.token.display := by
  obtain ⟨c, rest, hToken, hText, -⟩ := scan_of_mem_tokenize h
  rw [hToken] at hSign hNot
  rw [hToken, hText]
  exact text_of_form (Scan.form_scan c rest) hSign hNot

theorem text_of_slash {cs : List Char} {l : Lexeme} (h : l ∈ tokenize cs) (hSlash : l.token = .slash) :
    l.text = ['/'] := by
  rw [text_of_isSign h (by rw [hSlash]; rfl) (by simp [hSlash]), hSlash]
  rfl

end DaxMigration.Formula
