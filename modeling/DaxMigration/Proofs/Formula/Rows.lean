import DaxMigration.Proofs.Formula.Delimiters

/-!
# Rows

A row is a run of lexemes that can be written one after the other without one of them reaching into
the next: none ends inside a literal or a comment, and where one ends the next is read as from code.
The delimiters of a written row are those of its lexemes, which is what every replacement of a
lexeme by another text goes by.
-/

namespace DaxMigration.Formula

open Text

/-! ## White space and names -/

theorem mem_of_isBlank {c : Char} (h : isBlank c = true) :
    c.toNat ∈ blankRanges.flatMap fun r => List.range' r.1 (r.2 - r.1 + 1) := by
  obtain ⟨r, hMem, hLow, hHigh⟩ := within_iff.1 h
  refine List.mem_flatMap.2 ⟨r, hMem, List.mem_range'_1.2 ⟨hLow, ?_⟩⟩
  omega

/-- What holds of no white space, as far as the listed code points go, holds of none. -/
theorem isBlank_of_none {p : Char → Bool}
    (hNone : ∀ n ∈ blankRanges.flatMap fun r => List.range' r.1 (r.2 - r.1 + 1),
      p (Char.ofNat n) = false) {c : Char} (h : p c = true) : isBlank c = false := by
  cases hBlank : isBlank c with
  | false => rfl
  | true =>
    have hFalse := hNone _ (mem_of_isBlank hBlank)
    rw [Char.ofNat_toNat, h] at hFalse
    cases hFalse

theorem isBlank_of_isNameCharacter {c : Char} (h : isNameCharacter c = true) :
    isBlank c = false :=
  isBlank_of_none (by decide +kernel) h

theorem isBlank_of_isNumberCharacter {c : Char} (h : isNumberCharacter c = true) :
    isBlank c = false :=
  isBlank_of_none (by decide) h

/-! ## Texts of lexemes -/

/-- The literal that a lexeme holds, if it is one, is closed. -/
def Lexeme.isTerminated (l : Lexeme) : Bool :=
  match l.token with
  | .string s => l.text == '"' :: double '"' s ++ ['"']
  | .singleQuoted s => l.text == '\'' :: double '\'' s ++ ['\'']
  | .field s => l.text == '[' :: double ']' s ++ [']']
  | _ => true

def beginsComment : List Char → Bool
  | '/' :: '/' :: _ | '/' :: '*' :: _ => true
  | _ => false

theorem beginsComment_cons {c : Char} {text : List Char} (h : beginsComment (c :: text) = true) :
    c = '/' ∧ ∃ d ∈ text.head?, d = '/' ∨ d = '*' := by
  unfold beginsComment at h
  split at h <;> simp_all

structure Trimmed (text : List Char) : Prop where
  filled : text ≠ []
  head : ∀ c ∈ text.head?, isBlank c = false
  last : ∀ c ∈ text.getLast?, isBlank c = false

/-- A text that leaves nothing open, begins no comment and has no white space at its ends. -/
structure Settled (text : List Char) : Prop where
  calm : (Mode.code.after text).isCalm = true
  quiet : beginsComment text = false
  filled : text ≠ []
  head : ∀ c ∈ text.head?, isBlank c = false
  last : ∀ c ∈ text.getLast?, isBlank c = false

theorem Settled.trimmed {text : List Char} (h : Settled text) : Trimmed text :=
  ⟨h.filled, h.head, h.last⟩

theorem settled_of_plain {text : List Char} (hPlain : ∀ c ∈ text, Mode.IsPlain c)
    (hFilled : text ≠ []) (hBlank : ∀ c ∈ text, isBlank c = false) : Settled text where
  calm := by rw [Mode.after_of_plain hPlain]; rfl
  quiet := by
    obtain ⟨c, text, rfl⟩ := List.exists_cons_of_ne_nil hFilled
    refine Bool.eq_false_iff.2 fun h => ?_
    obtain ⟨rfl, _⟩ := beginsComment_cons h
    exact absurd (hPlain '/' List.mem_cons_self) (by decide)
  filled := hFilled
  head c hc := hBlank c (List.mem_of_mem_head? hc)
  last c hc := hBlank c (List.mem_of_mem_getLast? hc)

theorem settled_literal {c q : Char} {token : List Char → Token}
    (h : Scan.IsLiteral c q token) (s : List Char) : Settled (c :: (double q s ++ [q])) where
  calm := by
    have hInside := Mode.inside_of_isLiteral h
    rw [Mode.after_cons, Mode.after_append, hInside.after_double]
    exact hInside.isCalm_close
  quiet := by cases h <;> rfl
  filled := by simp
  head := by
    intro d hd
    obtain rfl : c = d := by simpa using hd
    cases h <;> decide
  last := by
    intro d hd
    rw [← List.cons_append, List.getLast?_append] at hd
    obtain rfl : q = d := by simpa using hd
    cases h <;> decide

theorem settled_single {c : Char} (hBlank : isBlank c = false)
    (hCalm : (Mode.ofCode c).isCalm = true) : Settled [c] where
  calm := hCalm
  quiet := by
    refine Bool.eq_false_iff.2 fun h => ?_
    obtain ⟨_, d, hd, _⟩ := beginsComment_cons h
    cases hd
  filled := by simp
  head := by simpa using hBlank
  last := by simpa using hBlank

/-- Where a lexeme of a text comes from. -/
theorem scan_of_mem_tokenize {cs : List Char} {l : Lexeme} (h : l ∈ tokenize cs) :
    ∃ c rest, l.token = (Scan.scan c rest).token ∧ l.text = c :: (Scan.scan c rest).taken ∧
      isBlank c = false ∧ allBlank l.leading = true := by
  fun_induction tokenize cs with
  | case1 => simp at h
  | case2 cs c rest hCons s ih =>
    rcases List.mem_cons.1 h with rfl | h
    · refine ⟨c, rest, rfl, rfl, ?_, ?_⟩
      · have := List.head?_dropWhile_not isBlank cs
        simpa [hCons] using this
      · exact List.all_eq_true.2 fun d hd => List.mem_takeWhile_imp hd
    · exact ih h

def Token.modeAfter : Token → Mode
  | .field _ => .fieldEnd
  | .slash => .slash
  | _ => .code

def Token.isVerbatim : Token → Bool
  | .verbatim _ => true
  | _ => false

/-- A lexeme whose text is read as its token says, unless it is spliced text. -/
structure Spelled (l : Lexeme) : Prop where
  settled : Settled l.text
  after : l.token.isVerbatim = false → Mode.code.after l.text = l.token.modeAfter
  delimiters : l.token.isVerbatim = false →
    Mode.code.delimiters l.text = [l.token].filter Token.isDelimiter

theorem modeAfter_of_sign {c : Char} {t : Token} (h : Scan.signToken? c = some t) :
    Mode.ofCode c = t.modeAfter ∧ t.modeAfter.isCalm = true := by
  unfold Scan.signToken? at h
  split at h <;> cases h <;> exact ⟨rfl, rfl⟩

theorem after_literal {c q : Char} {token : List Char → Token} (h : Scan.IsLiteral c q token)
    (s : List Char) : Mode.code.after (c :: (double q s ++ [q])) = (token s).modeAfter := by
  rw [Mode.after_cons, Mode.after_append, (Mode.inside_of_isLiteral h).after_double]
  cases h <;> rfl

theorem delimiters_literal {c q : Char} {token : List Char → Token} (h : Scan.IsLiteral c q token)
    (s : List Char) : Mode.code.delimiters (c :: (double q s ++ [q])) = [] := by
  have hInside := Mode.inside_of_isLiteral h
  rw [Mode.delimiters, Mode.delimiters_append, hInside.delimiters_double, hInside.after_double,
    Mode.delimiters, hInside.emit_close]
  cases h <;> rfl

theorem modeAfter_nameToken (name : List Char) : (nameToken name).modeAfter = .code := by
  rcases nameToken_cases name with ⟨value, hSame⟩ | ⟨word, hSame⟩ <;> rw [hSame] <;> rfl

theorem isVerbatim_of_form {c : Char} {rest : List Char} {s : Scan} (h : Scan.Form c rest s) :
    s.token.isVerbatim = false := by
  cases h with
  | sign hSign => unfold Scan.signToken? at hSign; split at hSign <;> cases hSign <;> rfl
  | pair hPair => cases Scan.isPair_of_pairToken hPair <;> rfl
  | literal hLiteral => cases hLiteral <;> rfl
  | name =>
    simp only [Scan.name, nameToken]
    split
    · rfl
    split <;> rfl
  | _ => rfl

theorem spelled_of_mem_tokenize {cs : List Char} {l : Lexeme} (h : l ∈ tokenize cs)
    (hTerminated : l.isTerminated = true) (hComment : l.isComment = false) : Spelled l := by
  obtain ⟨c, rest, hToken, hText, hBlank, _⟩ := scan_of_mem_tokenize h
  have hForm := Scan.form_scan c rest
  suffices hSpelled : Settled l.text ∧ Mode.code.after l.text = l.token.modeAfter by
    refine ⟨hSpelled.1, fun _ => hSpelled.2, fun _ => ?_⟩
    rw [hText, hToken]
    exact Mode.delimiters_form hForm
  rw [Lexeme.isComment, hToken] at hComment
  rw [Lexeme.isTerminated, hToken, hText] at hTerminated
  rw [hText, hToken]
  generalize Scan.scan c rest = s at hForm hComment hTerminated
  cases hForm with
  | sign hSign =>
    obtain ⟨hMode, hCalm⟩ := modeAfter_of_sign hSign
    exact ⟨settled_single hBlank (hMode ▸ hCalm), hMode⟩
  | @pair _ d _ _ hPair =>
    obtain ⟨hFirst, hSecond, _, hLast⟩ := Mode.plain_of_pair hPair
    have hPlain : ∀ e ∈ [c, d], Mode.IsPlain e := by simp [hFirst, hSecond]
    refine ⟨settled_of_plain hPlain (by simp) (by simp [hBlank, hLast]), ?_⟩
    rw [Mode.after_of_plain hPlain]
    cases Scan.isPair_of_pairToken hPair <;> rfl
  | line => simp [Token.isComment] at hComment
  | block => simp [Token.isComment] at hComment
  | @literal _ q _ rest hLiteral =>
    have hClosed : c :: (readLiteral q rest).taken =
        c :: (double q (readLiteral q rest).content ++ [q]) := by
      cases hLiteral <;> simpa [Scan.literal] using hTerminated
    rw [Scan.literal, hClosed]
    exact ⟨settled_literal hLiteral _, after_literal hLiteral _⟩
  | number hNumber =>
    have hPlain := Mode.plain_of_number hNumber
    refine ⟨settled_of_plain hPlain (by simp) ?_, Mode.after_of_plain hPlain⟩
    intro d hd
    rcases List.mem_cons.1 hd with rfl | hd
    · exact hBlank
    · exact isBlank_of_isNumberCharacter (isNumberCharacter_of_mem d hd)
  | name hLetter =>
    have hPlain := @Mode.plain_of_name _ rest hLetter
    refine ⟨settled_of_plain hPlain (by simp) ?_, ?_⟩
    · intro d hd
      rcases List.mem_cons.1 hd with rfl | hd
      · exact hBlank
      · exact isBlank_of_isNameCharacter (List.mem_takeWhile_imp hd)
    · rw [Mode.after_of_plain hPlain]
      exact (modeAfter_nameToken _).symm
  | unknown hSign hLiteral _ _ =>
    have hMode : Mode.ofCode c = .code := by
      rcases Mode.unknown_spec hSign hLiteral with rfl | hPlain
      · rfl
      · exact hPlain.1
    exact ⟨settled_single hBlank (by rw [hMode]; rfl), hMode⟩

/-! ## Rows -/

def Joined : List Lexeme → Prop
  | [] => True
  | l :: rest => Mode.Resumes (Mode.code.after l.text) (written rest) ∧ Joined rest

structure IsRow (ls : List Lexeme) : Prop where
  settled : ∀ l ∈ ls, Settled l.text
  blank : ∀ l ∈ ls, allBlank l.leading = true
  joined : Joined ls

theorem Mode.Resumes.of_append {m : Mode} {a b : List Char} (h : Resumes m (a ++ b)) :
    Resumes m a := by
  intro d hd
  refine h d ?_
  rw [List.head?_append, Option.mem_def.1 hd]
  rfl

theorem joined_append {a b : List Lexeme} (h : Joined (a ++ b)) : Joined a ∧ Joined b := by
  induction a with
  | nil => exact ⟨trivial, h⟩
  | cons l a ih =>
    obtain ⟨hHead, hRest⟩ := h
    obtain ⟨hLeft, hRight⟩ := ih hRest
    have hSplit : Mode.Resumes (Mode.code.after l.text) (written a ++ written b) := by
      rwa [← written_append]
    exact ⟨⟨hSplit.of_append, hLeft⟩, hRight⟩

theorem IsRow.append_right {a b : List Lexeme} (h : IsRow (a ++ b)) : IsRow b where
  settled l hl := h.settled l (List.mem_append_right _ hl)
  blank l hl := h.blank l (List.mem_append_right _ hl)
  joined := (joined_append h.joined).2

theorem IsRow.tail {l : Lexeme} {ls : List Lexeme} (h : IsRow (l :: ls)) : IsRow ls :=
  IsRow.append_right (a := [l]) h

theorem allBlank_of_tokenize {cs : List Char} (h : tokenize cs ≠ []) : allBlank cs = false := by
  refine Bool.eq_false_iff.2 fun hBlank => h (tokenize_of_blank ?_)
  exact List.dropWhile_eq_nil_iff.2 (List.all_eq_true.1 hBlank)

/-- The lexemes of a text give it back up to the white space at its end. -/
theorem written_tokenize (cs : List Char) :
    ∃ trailing, allBlank trailing = true ∧ written (tokenize cs) ++ trailing = cs := by
  fun_induction tokenize cs with
  | case1 cs hEmpty =>
    refine ⟨cs, ?_, rfl⟩
    simpa [List.dropWhile_eq_nil_iff, allBlank] using hEmpty
  | case2 cs c rest hCons s ih =>
    obtain ⟨trailing, hBlank, hRest⟩ := ih
    refine ⟨trailing, hBlank, ?_⟩
    have hScan : s.taken ++ s.rest = rest := Scan.scan_append c rest
    have hSplit : cs.takeWhile isBlank ++ c :: rest = cs := by
      rw [← hCons, List.takeWhile_append_dropWhile]
    simp only [written_cons, List.append_assoc, List.cons_append, hRest, hScan, hSplit]

theorem joined_tokenize (cs : List Char) : Joined (tokenize cs) := by
  fun_induction tokenize cs with
  | case1 => trivial
  | case2 cs c rest hCons s ih =>
    refine ⟨?_, ih⟩
    have hResumes : Mode.Resumes (Mode.code.after (c :: s.taken)) s.rest :=
      Mode.resumes_form (Scan.form_scan c rest)
    obtain ⟨trailing, _, hRest⟩ := written_tokenize s.rest
    rw [← hRest] at hResumes
    exact hResumes.of_append

structure IsRead (ls : List Lexeme) : Prop where
  original : ∀ l ∈ ls, l.token.isVerbatim = false
  spelled : ∀ l ∈ ls, l.isTerminated = true → l.isComment = false → Spelled l
  blank : ∀ l ∈ ls, allBlank l.leading = true
  joined : Joined ls

theorem isRead_tokenize (cs : List Char) : IsRead (tokenize cs) where
  original l hl := by
    obtain ⟨c, rest, hToken, _⟩ := scan_of_mem_tokenize hl
    rw [hToken]
    exact isVerbatim_of_form (Scan.form_scan c rest)
  spelled _ hl := spelled_of_mem_tokenize hl
  blank l hl := by
    obtain ⟨_, _, _, _, _, hBlank⟩ := scan_of_mem_tokenize hl
    exact hBlank
  joined := joined_tokenize cs

theorem IsRead.append_left {a b : List Lexeme} (h : IsRead (a ++ b)) : IsRead a where
  original l hl := h.original l (List.mem_append_left _ hl)
  spelled l hl := h.spelled l (List.mem_append_left _ hl)
  blank l hl := h.blank l (List.mem_append_left _ hl)
  joined := (joined_append h.joined).1

theorem IsRead.append_right {a b : List Lexeme} (h : IsRead (a ++ b)) : IsRead b where
  original l hl := h.original l (List.mem_append_right _ hl)
  spelled l hl := h.spelled l (List.mem_append_right _ hl)
  blank l hl := h.blank l (List.mem_append_right _ hl)
  joined := (joined_append h.joined).2

theorem IsRead.tail {l : Lexeme} {ls : List Lexeme} (h : IsRead (l :: ls)) : IsRead ls :=
  IsRead.append_right (a := [l]) h

/-- The delimiters of lexemes of a text are those among their tokens. -/
theorem IsRead.delimiters {ls : List Lexeme} (h : IsRead ls) (hSpelled : ∀ l ∈ ls, Spelled l) :
    (ls.flatMap fun l => Mode.code.delimiters l.text) =
      (ls.map Lexeme.token).filter Token.isDelimiter := by
  induction ls with
  | nil => rfl
  | cons l ls ih =>
    have hHead := (hSpelled l List.mem_cons_self).delimiters (h.original l List.mem_cons_self)
    have hRest := ih h.tail fun d hd => hSpelled d (List.mem_cons_of_mem _ hd)
    rw [List.flatMap_cons, hHead, hRest, List.map_cons]
    exact (List.filter_append [l.token] _).symm

/-- Lexemes of a text among which every literal is closed and no comment stands. -/
theorem IsRead.isRow {ls : List Lexeme} (h : IsRead ls)
    (hTerminated : ∀ l ∈ ls, l.isTerminated = true) (hComment : ∀ l ∈ ls, l.isComment = false) :
    IsRow ls where
  settled l hl := (h.spelled l hl (hTerminated l hl) (hComment l hl)).settled
  blank := h.blank
  joined := h.joined

/-! ## Rows as texts -/

namespace Mode

theorem plain_of_allBlank {cs : List Char} (h : allBlank cs = true) : ∀ c ∈ cs, IsPlain c :=
  fun c hc => isPlain_of_isBlank (List.all_eq_true.1 h c hc)

theorem delimiters_written {ls : List Lexeme} (h : IsRow ls) :
    code.delimiters (written ls) = ls.flatMap fun l => code.delimiters l.text := by
  induction ls with
  | nil => rfl
  | cons l ls ih =>
    have hBlank := plain_of_allBlank (h.blank l List.mem_cons_self)
    rw [written_cons, delimiters_append, delimiters_of_plain hBlank, after_of_plain hBlank,
      delimiters_append, h.joined.1.delimiters_eq, ih h.tail]
    rfl

theorem isCalm_written {ls : List Lexeme} (h : IsRow ls) : (code.after (written ls)).isCalm = true := by
  induction ls with
  | nil => rfl
  | cons l ls ih =>
    rw [written_cons, after_append, after_of_plain (plain_of_allBlank (h.blank l List.mem_cons_self)),
      after_append]
    by_cases hEmpty : written ls = []
    · rw [hEmpty]
      exact (h.settled l List.mem_cons_self).calm
    · rw [h.joined.1.after_eq hEmpty]
      exact ih h.tail

end Mode

theorem dropTrailing_eq_self {p : Char → Bool} {cs : List Char}
    (h : ∀ c ∈ cs.getLast?, p c = false) : dropTrailing p cs = cs := by
  induction cs with
  | nil => rfl
  | cons c cs ih =>
    cases cs with
    | nil => simp [dropTrailing_cons, h c rfl]
    | cons d cs =>
      rw [dropTrailing_cons, ih (by simpa using h)]
      rfl

theorem trim_eq_self {cs : List Char} (hHead : ∀ c ∈ cs.head?, isBlank c = false)
    (hLast : ∀ c ∈ cs.getLast?, isBlank c = false) : trim cs = cs := by
  have hStart : trimStart cs = cs := by
    cases cs with
    | nil => rfl
    | cons c cs => simp [trimStart, hHead c rfl]
  rw [trim, hStart]
  exact dropTrailing_eq_self hLast

theorem Settled.trim_eq {text : List Char} (h : Settled text) : trim text = text :=
  trim_eq_self h.head h.last

theorem last_written {ls : List Lexeme} (h : ∀ l ∈ ls, Trimmed l.text) :
    ∀ c ∈ (written ls).getLast?, isBlank c = false := by
  induction ls with
  | nil => simp
  | cons l ls ih =>
    intro c hc
    rw [written_cons, ← List.append_assoc, List.getLast?_append] at hc
    cases hRest : (written ls).getLast? with
    | some d =>
      rw [hRest] at hc
      exact ih (fun m hm => h m (List.mem_cons_of_mem _ hm)) c (by simpa [hRest] using hc)
    | none =>
      rw [hRest, List.getLast?_append] at hc
      have hTrimmed := h l List.mem_cons_self
      cases hText : l.text.getLast? with
      | some d => exact hTrimmed.last c (by simpa [hText] using hc)
      | none => exact absurd (List.getLast?_eq_none_iff.1 hText) hTrimmed.filled

/-- A row without the white space in front of its first lexeme. -/
theorem IsRow.flush {l : Lexeme} {ls : List Lexeme} (h : IsRow (l :: ls)) :
    IsRow ({ l with leading := [] } :: ls) where
  settled d hd := by
    rcases List.mem_cons.1 hd with rfl | hd
    · exact h.settled l List.mem_cons_self
    · exact h.settled d (List.mem_cons_of_mem _ hd)
  blank d hd := by
    rcases List.mem_cons.1 hd with rfl | hd
    · rfl
    · exact h.blank d (List.mem_cons_of_mem _ hd)
  joined := h.joined

theorem settled_flush {l : Lexeme} {ls : List Lexeme} (h : IsRow (l :: ls)) :
    Settled (l.text ++ written ls) where
  calm := Mode.isCalm_written h.flush
  quiet := by
    have hSettled := h.settled l List.mem_cons_self
    obtain ⟨c, text, hText⟩ := List.exists_cons_of_ne_nil hSettled.filled
    refine Bool.eq_false_iff.2 fun hBegins => ?_
    rw [hText, List.cons_append] at hBegins
    obtain ⟨rfl, d, hd, hMark⟩ := beginsComment_cons hBegins
    cases text with
    | nil =>
      have hNext := (h.joined.1 d hd).1
      rw [hText] at hNext
      rcases hMark with rfl | rfl <;> exact absurd hNext (by decide)
    | cons e text =>
      obtain rfl : e = d := by simpa using hd
      have hQuiet := hSettled.quiet
      rw [hText] at hQuiet
      rcases hMark with rfl | rfl <;> cases hQuiet
  filled := by simp [(h.settled l List.mem_cons_self).filled]
  head c hc := by
    have hSettled := h.settled l List.mem_cons_self
    obtain ⟨d, text, hText⟩ := List.exists_cons_of_ne_nil hSettled.filled
    refine hSettled.head c ?_
    simpa [hText] using hc
  last := last_written fun m hm => (h.flush.settled m hm).trimmed

/-- A row stands as it was written, but for the white space in front of its first lexeme. -/
theorem render_of_row {l : Lexeme} {ls : List Lexeme} (h : IsRow (l :: ls)) :
    render (l :: ls) = l.text ++ written ls :=
  (settled_flush h).trim_eq

theorem settled_render {ls : List Lexeme} (h : IsRow ls) (hFilled : ls ≠ []) :
    Settled (render ls) := by
  obtain ⟨l, ls, rfl⟩ := List.exists_cons_of_ne_nil hFilled
  rw [render_of_row h]
  exact settled_flush h

theorem delimiters_render {ls : List Lexeme} (h : IsRow ls) :
    Mode.code.delimiters (render ls) = ls.flatMap fun l => Mode.code.delimiters l.text := by
  cases ls with
  | nil => rfl
  | cons l ls =>
    rw [render_of_row h]
    exact Mode.delimiters_written h.flush

end DaxMigration.Formula
