import DaxMigration.Proofs.Formula.Scanning

/-!
# Delimiters of a text

A reader that goes through a text one character at a time and remembers only whether it stands in
code, in a literal or in a comment. It finds the same brackets, commas and stray square brackets as
the lexemes do, and unlike these it can stop and go on at any place: what a text holds is what its
parts hold, each read from where the one before it ends.
-/

namespace DaxMigration.Formula

open Text

section Decidable

variable {p : Char → Prop} [DecidablePred p]

-- What holds of the characters of a text is decided along the text. Without the priorities it may be
-- decided over all characters there are.
instance (priority := high) decidableForallMem (cs : List Char) : Decidable (∀ c ∈ cs, p c) :=
  List.decidableBAll p cs

instance (priority := high) decidableForallMemOption (c? : Option Char) :
    Decidable (∀ c ∈ c?, p c) :=
  c?.decidableForallMem

end Decidable

/-- Brackets, commas, and closing square brackets outside references. -/
def Token.isDelimiter : Token → Bool
  | lparen | rparen | lbrace | rbrace | comma => true
  | illegal c => c == ']'
  | _ => false

inductive Mode where
  | code
  /-- After a division sign, which the next character may turn into a comment. -/
  | slash
  | string
  | singleQuoted
  | field
  /-- After a closing square bracket, which a second one turns into a part of the name. -/
  | fieldEnd
  | line
  | block
  /-- In a block comment, after an asterisk. -/
  | blockStar
deriving DecidableEq

namespace Mode

def ofCode (c : Char) : Mode :=
  if c = '/' then slash
  else if c = '"' then string
  else if c = '\'' then singleQuoted
  else if c = '[' then field
  else code

def next : Mode → Char → Mode
  | code, c => ofCode c
  | slash, c => if c = '/' then line else if c = '*' then block else ofCode c
  | string, c => if c = '"' then code else string
  | singleQuoted, c => if c = '\'' then code else singleQuoted
  | field, c => if c = ']' then fieldEnd else field
  | fieldEnd, c => if c = ']' then field else ofCode c
  | line, c => if c = '\n' then code else line
  | block, c => if c = '*' then blockStar else block
  | blockStar, c => if c = '/' then code else if c = '*' then blockStar else block

def delimiter (c : Char) : List Token :=
  if c = '(' then [.lparen]
  else if c = ')' then [.rparen]
  else if c = '\x7b' then [.lbrace]
  else if c = '\x7d' then [.rbrace]
  else if c = ',' then [.comma]
  else if c = ']' then [.illegal ']']
  else []

def emit : Mode → Char → List Token
  | code, c | slash, c => delimiter c
  | fieldEnd, c => if c = ']' then [] else delimiter c
  | _, _ => []

def after (m : Mode) (cs : List Char) : Mode :=
  cs.foldl next m

def delimiters (m : Mode) : List Char → List Token
  | [] => []
  | c :: cs => m.emit c ++ (m.next c).delimiters cs

def isCalm : Mode → Bool
  | code | slash | fieldEnd => true
  | _ => false

@[simp]
theorem after_nil (m : Mode) : m.after [] = m := rfl

@[simp]
theorem after_cons (m : Mode) (c : Char) (cs : List Char) :
    m.after (c :: cs) = (m.next c).after cs := rfl

theorem after_append (m : Mode) (a b : List Char) : m.after (a ++ b) = (m.after a).after b := by
  simp [after]

theorem delimiters_append (m : Mode) (a b : List Char) :
    m.delimiters (a ++ b) = m.delimiters a ++ (m.after a).delimiters b := by
  induction a generalizing m with
  | nil => rfl
  | cons c a ih => simp [delimiters, ih]

/-! ## Characters that mean nothing to the reader -/

def IsPlain (c : Char) : Prop :=
  ofCode c = code ∧ delimiter c = []

instance (c : Char) : Decidable (IsPlain c) :=
  inferInstanceAs (Decidable (_ ∧ _))

theorem after_of_plain {cs : List Char} (h : ∀ c ∈ cs, IsPlain c) : code.after cs = code := by
  induction cs with
  | nil => rfl
  | cons c cs ih =>
    rw [after_cons, next, (h c List.mem_cons_self).1]
    exact ih fun d hd => h d (List.mem_cons_of_mem _ hd)

theorem delimiters_of_plain {cs : List Char} (h : ∀ c ∈ cs, IsPlain c) :
    code.delimiters cs = [] := by
  induction cs with
  | nil => rfl
  | cons c cs ih =>
    rw [delimiters, emit, next, (h c List.mem_cons_self).1, (h c List.mem_cons_self).2]
    exact ih fun d hd => h d (List.mem_cons_of_mem _ hd)

/-- The characters that are not plain. -/
def special : List Char :=
  ['/', '"', '\'', '[', ']', '(', ')', '\x7b', '\x7d', ',']

theorem isPlain_of_not_mem {c : Char} (h : c ∉ special) : IsPlain c := by
  simp only [special, List.mem_cons, List.not_mem_nil, or_false, not_or] at h
  simp [IsPlain, ofCode, delimiter, h]

theorem isPlain_of {p : Char → Bool} (hSpecial : ∀ c ∈ special, p c = false) {c : Char}
    (h : p c = true) : IsPlain c :=
  isPlain_of_not_mem fun hMem => by simp [hSpecial c hMem] at h

theorem isPlain_of_isBlank {c : Char} (h : isBlank c = true) : IsPlain c :=
  isPlain_of (by decide) h

theorem isPlain_of_isNameCharacter {c : Char} (h : isNameCharacter c = true) : IsPlain c :=
  isPlain_of (by decide) h

theorem isPlain_of_isDigit {c : Char} (h : c.isDigit = true) : IsPlain c :=
  isPlain_of (by decide) h

/-! ## Literals -/

structure Inside (m : Mode) (q : Char) : Prop where
  after_double : ∀ s, m.after (double q s) = m
  delimiters_double : ∀ s, m.delimiters (double q s) = []
  emit_close : m.emit q = []
  isCalm_close : (m.next q).isCalm = true
  next_close : ∀ d ≠ q, (m.next q).next d = code.next d
  emit_after : ∀ d ≠ q, (m.next q).emit d = code.emit d
  isCalm_inside : m.isCalm = false

theorem inside_of {m : Mode} {q : Char} (hOther : ∀ c ≠ q, m.next c = m ∧ m.emit c = [])
    (hTwice : (m.next q).next q = m ∧ m.emit q = [] ∧ (m.next q).emit q = [])
    (hCalm : (m.next q).isCalm = true ∧ m.isCalm = false)
    (hClose : ∀ d ≠ q, (m.next q).next d = code.next d ∧ (m.next q).emit d = code.emit d) :
    Inside m q where
  after_double s := by
    induction s with
    | nil => rfl
    | cons c s ih =>
      rw [double]
      split
      · rw [after_cons, after_cons, hTwice.1, ih]
      · rw [after_cons, (hOther c ‹_›).1, ih]
  delimiters_double s := by
    induction s with
    | nil => rfl
    | cons c s ih =>
      rw [double]
      split
      · rw [delimiters, delimiters, hTwice.1, hTwice.2.1, hTwice.2.2, ih]
        rfl
      · rw [delimiters, (hOther c ‹_›).1, (hOther c ‹_›).2, ih]
        rfl
  emit_close := hTwice.2.1
  isCalm_close := hCalm.1
  next_close d hd := (hClose d hd).1
  emit_after d hd := (hClose d hd).2
  isCalm_inside := hCalm.2

theorem inside_of_isLiteral {c q : Char} {token : List Char → Token}
    (h : Scan.IsLiteral c q token) : Inside (code.next c) q := by
  cases h with
  | string => exact inside_of (by simp [next, ofCode, emit]) (by decide) (by decide) (by simp [next, ofCode])
  | singleQuoted => exact inside_of (by simp [next, ofCode, emit]) (by decide) (by decide) (by simp [next, ofCode])
  | field =>
    refine inside_of (by simp [next, ofCode, emit]) (by decide) (by decide) ?_
    intro d hd
    simp [next, ofCode, emit, hd]

def Resumes (m : Mode) (rest : List Char) : Prop :=
  ∀ d ∈ rest.head?, m.next d = code.next d ∧ m.emit d = code.emit d

theorem Resumes.delimiters_eq {m : Mode} {rest : List Char} (h : Resumes m rest) :
    m.delimiters rest = code.delimiters rest := by
  cases rest with
  | nil => rfl
  | cons d rest =>
    obtain ⟨hNext, hEmit⟩ := h d rfl
    rw [delimiters, delimiters, hNext, hEmit]

theorem Resumes.after_eq {m : Mode} {rest : List Char} (h : Resumes m rest) (hRest : rest ≠ []) :
    m.after rest = code.after rest := by
  cases rest with
  | nil => exact absurd rfl hRest
  | cons d rest => rw [after_cons, after_cons, (h d rfl).1]

theorem resumes_code (rest : List Char) : Resumes code rest :=
  fun _ _ => ⟨rfl, rfl⟩

theorem resumes_nil (m : Mode) : Resumes m [] :=
  fun _ h => by simp at h

/-! ## Comments -/

theorem after_line {cs : List Char} (h : '\n' ∉ cs) : line.after cs = line := by
  induction cs with
  | nil => rfl
  | cons c cs ih =>
    simp only [List.mem_cons, not_or] at h
    rw [after_cons, next, if_neg (Ne.symm h.1), ih h.2]

theorem delimiters_line {cs : List Char} (h : '\n' ∉ cs) : line.delimiters cs = [] := by
  induction cs with
  | nil => rfl
  | cons c cs ih =>
    simp only [List.mem_cons, not_or] at h
    rw [delimiters, next, if_neg (Ne.symm h.1), ih h.2, emit]
    all_goals simp

/-- In a block comment: whether the character before is an asterisk is all that is remembered. -/
def inBlock (previous : Char) : Mode :=
  if previous = '*' then blockStar else block

theorem next_inBlock {previous c : Char} (h : ¬(previous = '*' ∧ c = '/')) :
    (inBlock previous).next c = inBlock c := by
  unfold inBlock
  split
  · have hc : c ≠ '/' := by simp_all
    simp [next, hc]
  · simp [next]

theorem delimiters_readBlockComment (previous : Char) (cs : List Char) :
    (inBlock previous).delimiters (readBlockComment previous cs).taken = [] ∧
      ((readBlockComment previous cs).rest = [] ∧
          ((inBlock previous).after (readBlockComment previous cs).taken).isCalm = false ∨
        (inBlock previous).after (readBlockComment previous cs).taken = code) := by
  fun_induction readBlockComment previous cs with
  | case1 previous =>
    refine ⟨rfl, .inl ⟨rfl, ?_⟩⟩
    unfold inBlock
    split <;> rfl
  | case2 previous c rest h =>
    obtain ⟨hStar, hSlash⟩ := by simpa using h
    subst hStar hSlash
    exact ⟨rfl, .inr rfl⟩
  | case3 previous c rest h ih =>
    have hNext : (inBlock previous).next c = inBlock c := next_inBlock (by simpa using h)
    have hEmit : (inBlock previous).emit c = [] := by
      unfold inBlock
      split <;> rfl
    simpa [Taken.push, delimiters, hNext, hEmit] using ih

/-! ## Tokens -/

theorem isPlain_of_isNumberCharacter {c : Char} (h : isNumberCharacter c = true) : IsPlain c :=
  isPlain_of (by decide) h

theorem resumes_of_plain {cs : List Char} (h : ∀ c ∈ cs, IsPlain c) (rest : List Char) :
    Resumes (code.after cs) rest := by
  rw [after_of_plain h]
  exact resumes_code rest

theorem delimiters_sign {c : Char} {t : Token} (h : Scan.signToken? c = some t) :
    code.delimiters [c] = [t].filter Token.isDelimiter := by
  unfold Scan.signToken? at h
  split at h <;> cases h <;> rfl

theorem resumes_sign {c : Char} {t : Token} {rest : List Char} (h : Scan.signToken? c = some t)
    (hAlone : ∀ d ∈ rest.head?, Scan.lengthens c d = false) : Resumes (code.after [c]) rest := by
  by_cases hc : c = '/'
  · subst hc
    intro d hd
    have hAlone := hAlone d hd
    simp only [Scan.lengthens, beq_self_eq_true, Bool.true_and, Bool.or_eq_false_iff] at hAlone
    simp_all [after, next, ofCode, emit]
  · have hCode : ofCode c = code := by
      unfold Scan.signToken? at h
      split at h <;> first | rfl | exact absurd rfl hc | cases h
    simpa [next, hCode] using resumes_code rest

theorem plain_of_pair {c d : Char} {t : Token} (h : Scan.pairToken? c d = some t) :
    IsPlain c ∧ IsPlain d ∧ t.isDelimiter = false ∧ isBlank d = false := by
  cases Scan.isPair_of_pairToken h <;> decide

theorem plain_of_number {c : Char} {rest : List Char}
    (h : c.isDigit = true ∨ c = '.' ∧ startsWithDigit rest = true) :
    ∀ d ∈ c :: (Scan.number c rest).taken, IsPlain d := by
  intro d hd
  rcases List.mem_cons.1 hd with rfl | hd
  · rcases h with h | ⟨rfl, _⟩
    · exact isPlain_of_isDigit h
    · decide
  · exact isPlain_of_isNumberCharacter (isNumberCharacter_of_mem d hd)

theorem plain_of_name {c : Char} {rest : List Char} (h : isLetter c = true) :
    ∀ d ∈ c :: (Scan.name c rest).taken, IsPlain d := by
  intro d hd
  rcases List.mem_cons.1 hd with rfl | hd
  · exact isPlain_of_isNameCharacter (by simp [isNameCharacter, h])
  · exact isPlain_of_isNameCharacter (List.mem_takeWhile_imp hd)

theorem isDelimiter_nameToken (name : List Char) : (nameToken name).isDelimiter = false := by
  rcases nameToken_cases name with ⟨value, hSame⟩ | ⟨word, hSame⟩ <;> rw [hSame] <;> rfl

theorem mem_takeWhile_ne_newline {cs : List Char} : '\n' ∉ cs.takeWhile (· != '\n') := by
  intro h
  simpa using List.mem_takeWhile_imp h

/-- A literal leaves no delimiter, and where it is closed the reader goes on as in code. -/
theorem literal_spec {c q : Char} {token : List Char → Token} (h : Scan.IsLiteral c q token)
    (rest : List Char) :
    code.delimiters (c :: (readLiteral q rest).taken) = [] ∧
      Resumes (code.after (c :: (readLiteral q rest).taken)) (readLiteral q rest).rest := by
  have hInside := inside_of_isLiteral h
  have hEmit : code.emit c = [] := by cases h <;> rfl
  rw [taken_readLiteral]
  split
  · rename_i hClosed
    constructor
    · rw [delimiters, hEmit, delimiters_append, hInside.delimiters_double, hInside.after_double,
        delimiters, hInside.emit_close]
      rfl
    · rw [after_cons, after_append, hInside.after_double]
      intro d hd
      have hNe := head_rest_readLiteral hClosed d hd
      exact ⟨hInside.next_close d hNe, hInside.emit_after d hNe⟩
  · rename_i hOpen
    constructor
    · rw [delimiters, hEmit, List.append_nil, hInside.delimiters_double]
      rfl
    · rw [rest_readLiteral_of_open (by simpa using hOpen)]
      exact resumes_nil _

theorem unknown_spec {c : Char} (hSign : Scan.signToken? c = none)
    (hLiteral : Scan.isLiteralMark c = false) : c = ']' ∨ IsPlain c := by
  have hSpecial : ∀ d ∈ special,
      d = ']' ∨ (Scan.signToken? d).isSome = true ∨ Scan.isLiteralMark d = true := by decide
  by_cases hMem : c ∈ special
  · rcases hSpecial c hMem with h | h | h
    · exact .inl h
    · simp [hSign] at h
    · simp [hLiteral] at h
  · exact .inr (isPlain_of_not_mem hMem)

/-- The delimiters in the text of a token are the token itself if it is one. -/
theorem delimiters_form {c : Char} {rest : List Char} {s : Scan} (h : Scan.Form c rest s) :
    code.delimiters (c :: s.taken) = [s.token].filter Token.isDelimiter := by
  cases h with
  | sign hSign => exact delimiters_sign hSign
  | pair hPair =>
    obtain ⟨hFirst, hSecond, hToken, _⟩ := plain_of_pair hPair
    rw [delimiters_of_plain (by simp [hFirst, hSecond])]
    simp [hToken]
  | line =>
    simpa [Taken.push, Taken.while_, delimiters, next, ofCode, emit, delimiter, Token.isDelimiter]
      using delimiters_line mem_takeWhile_ne_newline
  | @block rest =>
    have hRest := (delimiters_readBlockComment '\x00' rest).1
    simpa [Taken.push, delimiters, next, ofCode, emit, delimiter, Token.isDelimiter, inBlock]
      using hRest
  | literal hLiteral =>
    rw [Scan.literal, (literal_spec hLiteral rest).1]
    cases hLiteral <;> rfl
  | number hNumber =>
    rw [delimiters_of_plain (plain_of_number hNumber)]
    rfl
  | name hLetter =>
    rw [delimiters_of_plain (plain_of_name hLetter)]
    simp [Scan.name, isDelimiter_nameToken]
  | unknown hSign hLiteral _ _ =>
    rcases unknown_spec hSign hLiteral with rfl | hPlain
    · rfl
    · rw [delimiters_of_plain (by simpa using hPlain)]
      have hc : c ≠ ']' := by rintro rfl; revert hPlain; decide
      simp [Token.isDelimiter, hc]

/-- After a token the reader goes on as in code. -/
theorem resumes_form {c : Char} {rest : List Char} {s : Scan} (h : Scan.Form c rest s) :
    Resumes (code.after (c :: s.taken)) s.rest := by
  cases h with
  | sign hSign hAlone => exact resumes_sign hSign hAlone
  | pair hPair =>
    obtain ⟨hFirst, hSecond, _⟩ := plain_of_pair hPair
    exact resumes_of_plain (by simp [hFirst, hSecond]) _
  | @line rest =>
    have hAfter : code.after ('/' :: '/' :: rest.takeWhile (· != '\n')) = line :=
      after_line mem_takeWhile_ne_newline
    intro d hd
    have hNewline : d = '\n' := by
      have := List.head?_dropWhile_not (· != '\n') rest
      simp_all [Taken.push, Taken.while_]
    simp only [Taken.push, Taken.while_, hAfter, hNewline]
    decide
  | @block rest =>
    rcases (delimiters_readBlockComment '\x00' rest).2 with ⟨hRest, _⟩ | hAfter
    · simp only [Taken.push, hRest]
      exact resumes_nil _
    · have hCode : code.after ('/' :: '*' :: (readBlockComment '\x00' rest).taken) = code := hAfter
      simp only [Taken.push, hCode]
      exact resumes_code _
  | literal hLiteral => exact (literal_spec hLiteral rest).2
  | number hNumber => exact resumes_of_plain (plain_of_number hNumber) _
  | name hLetter => exact resumes_of_plain (plain_of_name hLetter) _
  | unknown hSign hLiteral _ _ =>
    rcases unknown_spec hSign hLiteral with rfl | hPlain
    · exact resumes_code _
    · exact resumes_of_plain (by simpa using hPlain) _

theorem plain_takeWhile_blank (cs : List Char) : ∀ c ∈ cs.takeWhile isBlank, IsPlain c :=
  fun _ hc => isPlain_of_isBlank (List.mem_takeWhile_imp hc)

theorem delimiters_dropWhile_blank (cs : List Char) :
    code.delimiters (cs.dropWhile isBlank) = code.delimiters cs := by
  have hSplit := delimiters_append code (cs.takeWhile isBlank) (cs.dropWhile isBlank)
  rw [List.takeWhile_append_dropWhile, delimiters_of_plain (plain_takeWhile_blank cs),
    after_of_plain (plain_takeWhile_blank cs), List.nil_append] at hSplit
  exact hSplit.symm

/-- The reader finds the delimiters among the lexemes. -/
theorem delimiters_eq_filter (cs : List Char) :
    code.delimiters cs = ((tokenize cs).map Lexeme.token).filter Token.isDelimiter := by
  fun_induction tokenize cs with
  | case1 cs hEmpty =>
    rw [← delimiters_dropWhile_blank, hEmpty]
    rfl
  | case2 cs c rest hCons s ih =>
    have hForm := Scan.form_scan c rest
    have hBoth := delimiters_append code (c :: s.taken) s.rest
    rw [List.cons_append, Scan.scan_append, delimiters_form hForm,
      (resumes_form hForm).delimiters_eq, ih] at hBoth
    rw [← delimiters_dropWhile_blank, hCons, hBoth, List.map_cons]
    exact (List.filter_append [s.token] _).symm

end Mode

end DaxMigration.Formula
