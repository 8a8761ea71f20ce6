import DaxMigration.Proofs.Formula.Lossless

/-!
# Numbers

What is read as a number goes on with digits, with a point unless it has one, and with exponents,
each of which has digits behind its sign. How many exponents there were is not kept, so a number can
have several, and a point behind one. It is a numeral if and only if nothing but a sign and digits
follows the first mark of an exponent.
-/

namespace DaxMigration.Formula

open Text

def isExponentMark (c : Char) : Bool :=
  c == 'e' || c == 'E'

def IsSign (sign : List Char) : Prop :=
  sign = [] ∨ sign = ['+'] ∨ sign = ['-']

/-- What a number goes on with; with `dotted` it has its point already. -/
inductive NumberTail : (dotted : Bool) → List Char → Prop
  | done (dotted : Bool) : NumberTail dotted []
  | digit {dotted : Bool} {c : Char} {cs : List Char} (hDigit : c.isDigit = true)
      (hRest : NumberTail dotted cs) : NumberTail dotted (c :: cs)
  | point {cs : List Char} (hRest : NumberTail true cs) : NumberTail false ('.' :: cs)
  | exponent {dotted : Bool} {mark : Char} {sign cs : List Char} (hMark : isExponentMark mark = true)
      (hSign : IsSign sign) (hDigit : startsWithDigit cs = true) (hRest : NumberTail dotted cs) :
      NumberTail dotted (mark :: (sign ++ cs))

inductive IsNumber : List Char → Prop
  | digit {c : Char} {cs : List Char} (hDigit : c.isDigit = true) (hTail : NumberTail false cs) :
      IsNumber (c :: cs)
  | point {cs : List Char} (hDigit : startsWithDigit cs = true) (hTail : NumberTail true cs) :
      IsNumber ('.' :: cs)

/-! ## What is read -/

theorem startsWithDigit_taken {cs : List Char} (h : startsWithDigit cs = true) (dotted : Bool) :
    startsWithDigit (readNumber dotted cs).taken = true := by
  obtain ⟨d, taken, hTaken, hFirst⟩ := Scan.startsWithDigit_readNumber h dotted
  rw [hTaken]
  exact hFirst

theorem numberTail_readNumber (dotted : Bool) (cs : List Char) :
    NumberTail dotted (readNumber dotted cs).taken := by
  fun_induction readNumber dotted cs with
  | case1 | case4 | case7 | case8 => exact .done _
  | case2 _ c cs hDigit ih => exact .digit hDigit ih
  | case3 dotted c cs _ hPoint ih =>
    obtain ⟨rfl, rfl⟩ : c = '.' ∧ dotted = false := by simpa using hPoint
    exact .point ih
  | case5 dotted c _ _ hMark s cs hSecond ih =>
    have hMark : isExponentMark c = true := by simpa [isExponentMark] using hMark
    exact @NumberTail.exponent _ _ [] _ hMark (.inl rfl)
      (@startsWithDigit_taken (s :: cs) hSecond dotted) ih
  | case6 dotted c _ _ hMark s cs _ hSign ih =>
    have hMark : isExponentMark c = true := by simpa [isExponentMark] using hMark
    obtain ⟨hSign, hDigits⟩ : (s = '+' ∨ s = '-') ∧ startsWithDigit cs = true := by
      simpa using hSign
    have hSign : IsSign [s] := .inr (hSign.imp (congrArg ([·])) (congrArg ([·])))
    exact @NumberTail.exponent _ _ [s] _ hMark hSign (startsWithDigit_taken hDigits dotted) ih

theorem readNumber_mark {mark : Char} (hMark : isExponentMark mark = true) {sign cs : List Char}
    (hSign : IsSign sign) (hDigit : startsWithDigit cs = true) (dotted : Bool) :
    (readNumber dotted (mark :: (sign ++ cs))).taken = mark :: (sign ++ (readNumber dotted cs).taken) := by
  obtain ⟨d, ds, rfl⟩ : ∃ d ds, cs = d :: ds := by
    cases cs with
    | nil => cases hDigit
    | cons d ds => exact ⟨d, ds, rfl⟩
  have hDigit : d.isDigit = true := hDigit
  rcases (by simpa [isExponentMark] using hMark : mark = 'e' ∨ mark = 'E') with rfl | rfl <;>
    rcases hSign with rfl | rfl | rfl <;>
    simp [readNumber, hDigit, startsWithDigit, Taken.push]

theorem NumberTail.taken_eq {dotted : Bool} {cs : List Char} (h : NumberTail dotted cs) :
    (readNumber dotted cs).taken = cs := by
  induction h with
  | done => rfl
  | digit hDigit _ ih => rw [Scan.readNumber_digit hDigit, Taken.push, ih]
  | point _ ih =>
    rw [readNumber.eq_def]
    simp [Taken.push, ih]
  | exponent hMark hSign hDigit _ ih => rw [readNumber_mark hMark hSign hDigit, ih]

theorem ne_point_of_isDigit {c : Char} (h : c.isDigit = true) : (c == '.') = false := by
  refine beq_false_of_ne ?_
  rintro rfl
  cases h

theorem isNumber_of_mem_tokenize {cs digits : List Char} {l : Lexeme} (h : l ∈ tokenize cs)
    (hToken : l.token = .number digits) : l.text = digits ∧ IsNumber digits := by
  obtain ⟨c, rest, hScan, hText, -⟩ := scan_of_mem_tokenize h
  have hForm := Scan.form_scan c rest
  rw [hText]
  rw [hScan] at hToken
  generalize Scan.scan c rest = scan at hForm hToken
  cases hForm with
  | number hNumber =>
    obtain rfl : c :: (readNumber (c == '.') rest).taken = digits := by
      simpa [Scan.number] using hToken
    refine ⟨rfl, ?_⟩
    rcases hNumber with hDigit | ⟨rfl, hDigit⟩
    · rw [ne_point_of_isDigit hDigit]
      exact .digit hDigit (numberTail_readNumber false rest)
    · exact .point (startsWithDigit_taken hDigit true) (numberTail_readNumber true rest)
  | sign hSign =>
    unfold Scan.signToken? at hSign
    split at hSign <;> cases hSign <;> cases hToken
  | pair hPair => cases Scan.isPair_of_pairToken hPair <;> cases hToken
  | literal hLiteral => cases hLiteral <;> cases hToken
  | name =>
    simp only [Scan.name, nameToken] at hToken
    split at hToken
    · cases hToken
    split at hToken <;> cases hToken
  | line | block | unknown => cases hToken

theorem tokenize_of_isNumber {digits : List Char} (h : IsNumber digits) :
    tokenize digits = [⟨.number digits, digits, []⟩] := by
  obtain ⟨c, cs, rfl, hNumber, hTail⟩ : ∃ c cs, digits = c :: cs ∧
      (c.isDigit = true ∨ c = '.' ∧ startsWithDigit cs = true) ∧ NumberTail (c == '.') cs := by
    cases h with
    | @digit c cs hDigit hTail =>
      exact ⟨c, cs, rfl, .inl hDigit, by rwa [ne_point_of_isDigit hDigit]⟩
    | @point cs hDigit hTail => exact ⟨'.', cs, rfl, .inr ⟨rfl, hDigit⟩, hTail⟩
  have hBlank : isBlank c = false := by
    refine isBlank_of_isNumberCharacter ?_
    rcases hNumber with hDigit | ⟨rfl, -⟩
    · simp [isNumberCharacter, hDigit]
    · rfl
  have hRead : readNumber (c == '.') cs = ⟨cs, []⟩ := by
    have hAll := readNumber_append (c == '.') cs
    rw [hTail.taken_eq] at hAll
    exact congrArg₂ Taken.mk hTail.taken_eq (List.append_right_eq_self.1 hAll)
  have hDrop : (c :: cs).dropWhile isBlank = c :: cs := List.dropWhile_cons_of_neg (by simp [hBlank])
  have hTake : (c :: cs).takeWhile isBlank = [] := List.takeWhile_cons_of_neg (by simp [hBlank])
  rw [tokenize_of_cons hDrop, hTake, Scan.scan_of_form (.number hNumber), Scan.number, hRead,
    tokenize_nil]

/-- A second exponent, and a point behind it. -/
example : tokenize "1e5e3.5".toList = [⟨.number "1e5e3.5".toList, "1e5e3.5".toList, []⟩] := by
  decide +kernel

/-- The numbers are the texts that are read as one. -/
theorem isNumber_iff (digits : List Char) :
    IsNumber digits ↔ ∃ cs, ∃ l ∈ tokenize cs, l.token = .number digits := by
  constructor
  · intro h
    exact ⟨digits, ⟨.number digits, digits, []⟩, by simp [tokenize_of_isNumber h], rfl⟩
  · rintro ⟨cs, l, hl, hToken⟩
    exact (isNumber_of_mem_tokenize hl hToken).2

/-! ## Numerals -/

def AllDigits (cs : List Char) : Prop :=
  ∀ c ∈ cs, c.isDigit = true

inductive IsMantissa : List Char → Prop
  | whole {ds : List Char} (hDigits : AllDigits ds) (hFilled : ds ≠ []) : IsMantissa ds
  | fraction {ds fs : List Char} (hDigits : AllDigits ds) (hFraction : AllDigits fs)
      (hFilled : ds ++ fs ≠ []) : IsMantissa (ds ++ '.' :: fs)

inductive IsExponent : List Char → Prop
  | intro {mark : Char} {sign ds : List Char} (hMark : isExponentMark mark = true)
      (hSign : IsSign sign) (hDigits : AllDigits ds) (hFilled : ds ≠ []) :
      IsExponent (mark :: (sign ++ ds))

/-- A number with at most one exponent, at its end. -/
def IsNumeral (cs : List Char) : Prop :=
  ∃ mantissa exponent, cs = mantissa ++ exponent ∧ IsMantissa mantissa ∧
    (exponent = [] ∨ IsExponent exponent)

def afterMark (cs : List Char) : List Char :=
  (cs.dropWhile fun c => !isExponentMark c).tail

def IsSignOrDigit (c : Char) : Prop :=
  c.isDigit = true ∨ c = '+' ∨ c = '-'

theorem isExponentMark_of_isDigit {c : Char} (h : c.isDigit = true) : isExponentMark c = false := by
  cases hMark : isExponentMark c with
  | false => rfl
  | true =>
    rcases (by simpa [isExponentMark] using hMark : c = 'e' ∨ c = 'E') with rfl | rfl <;> cases h

theorem IsMantissa.unmarked {cs : List Char} (h : IsMantissa cs) :
    ∀ c ∈ cs, isExponentMark c = false := by
  cases h with
  | whole hDigits => exact fun c hc => isExponentMark_of_isDigit (hDigits c hc)
  | fraction hDigits hFraction =>
    intro c hc
    rcases List.mem_append.1 hc with hc | hc
    · exact isExponentMark_of_isDigit (hDigits c hc)
    rcases List.mem_cons.1 hc with rfl | hc
    · rfl
    · exact isExponentMark_of_isDigit (hFraction c hc)

theorem IsExponent.afterMark {mantissa exponent : List Char} (h : IsExponent exponent)
    (hMantissa : ∀ c ∈ mantissa, isExponentMark c = false) :
    ∀ c ∈ afterMark (mantissa ++ exponent), IsSignOrDigit c := by
  obtain ⟨hMark, hSign, hDigits, -⟩ := h
  have hUnmarked : ∀ c ∈ mantissa, (!isExponentMark c) = true := by simpa using hMantissa
  rw [Formula.afterMark, List.dropWhile_append_of_pos hUnmarked,
    List.dropWhile_cons_of_neg (by simp [hMark]), List.tail_cons]
  intro c hc
  rcases List.mem_append.1 hc with hc | hc
  · rcases hSign with rfl | rfl | rfl
    · cases hc
    · exact .inr (.inl (List.mem_singleton.1 hc))
    · exact .inr (.inr (List.mem_singleton.1 hc))
  · exact .inl (hDigits c hc)

theorem afterMark_cons {c : Char} (h : isExponentMark c = false) (cs : List Char) :
    afterMark (c :: cs) = afterMark cs := by
  rw [afterMark, List.dropWhile_cons_of_pos (by simp [h]), afterMark]

namespace NumberTail

variable {dotted : Bool} {cs : List Char}

theorem allDigits (h : NumberTail dotted cs) (hPlain : ∀ c ∈ cs, IsSignOrDigit c) : AllDigits cs := by
  induction h with
  | done => simp [AllDigits]
  | digit hDigit _ ih =>
    exact List.forall_mem_cons.2 ⟨hDigit, ih (List.forall_mem_cons.1 hPlain).2⟩
  | point => rcases hPlain '.' List.mem_cons_self with h | h | h <;> cases h
  | exponent hMark =>
    rcases hPlain _ List.mem_cons_self with h | rfl | rfl
    · rw [isExponentMark_of_isDigit h] at hMark
      cases hMark
    · cases hMark
    · cases hMark

/-- The digits of a mantissa with what follows them, where that is no more than one exponent. -/
theorem exists_split (h : NumberTail dotted cs) (hPlain : ∀ c ∈ afterMark cs, IsSignOrDigit c) :
    ∃ digits exponent, cs = digits ++ exponent ∧ (exponent = [] ∨ IsExponent exponent) ∧
      (AllDigits digits ∨ dotted = false ∧ ∃ ds fs, digits = ds ++ '.' :: fs ∧ AllDigits ds ∧
        AllDigits fs) := by
  induction h with
  | done => exact ⟨[], [], rfl, .inl rfl, .inl (by simp [AllDigits])⟩
  | @digit dotted c cs hDigit _ ih =>
    rw [afterMark_cons (isExponentMark_of_isDigit hDigit)] at hPlain
    obtain ⟨digits, exponent, rfl, hExponent, hDigits⟩ := ih hPlain
    refine ⟨c :: digits, exponent, rfl, hExponent, ?_⟩
    rcases hDigits with hDigits | ⟨hOpen, ds, fs, rfl, hWhole, hFraction⟩
    · exact .inl (List.forall_mem_cons.2 ⟨hDigit, hDigits⟩)
    · exact .inr ⟨hOpen, c :: ds, fs, rfl, List.forall_mem_cons.2 ⟨hDigit, hWhole⟩, hFraction⟩
  | point _ ih =>
    rw [afterMark_cons rfl] at hPlain
    obtain ⟨digits, exponent, rfl, hExponent, hDigits⟩ := ih hPlain
    have hDigits : AllDigits digits := hDigits.resolve_right fun h => Bool.noConfusion h.1
    exact ⟨'.' :: digits, exponent, rfl, hExponent,
      .inr ⟨rfl, [], digits, rfl, by simp [AllDigits], hDigits⟩⟩
  | @exponent dotted mark sign cs hMark hSign hDigit hRest ih =>
    rw [afterMark, List.dropWhile_cons_of_neg (by simp [hMark]), List.tail_cons] at hPlain
    have hDigits := hRest.allDigits fun c hc => hPlain c (List.mem_append_right _ hc)
    have hFilled : cs ≠ [] := by
      rintro rfl
      cases hDigit
    exact ⟨[], _, rfl, .inr (.intro hMark hSign hDigits hFilled), .inl (by simp [AllDigits])⟩

end NumberTail

/-- A number is a numeral if and only if nothing but a sign and digits follows its first mark of an
exponent. -/
theorem IsNumber.isNumeral_iff {digits : List Char} (h : IsNumber digits) :
    IsNumeral digits ↔ ∀ c ∈ afterMark digits, IsSignOrDigit c := by
  constructor
  · rintro ⟨mantissa, exponent, rfl, hMantissa, rfl | hExponent⟩
    · have hNone : afterMark (mantissa ++ []) = [] := by
        have hUnmarked : ∀ c ∈ mantissa, (!isExponentMark c) = true := by
          simpa using hMantissa.unmarked
        rw [List.append_nil, afterMark, List.dropWhile_eq_nil_iff.2 hUnmarked, List.tail_nil]
      rw [hNone]
      simp
    · exact hExponent.afterMark hMantissa.unmarked
  · intro hPlain
    cases h with
    | @digit c cs hDigit hTail =>
      rw [afterMark_cons (isExponentMark_of_isDigit hDigit)] at hPlain
      obtain ⟨digits, exponent, rfl, hExponent, hDigits⟩ := hTail.exists_split hPlain
      refine ⟨c :: digits, exponent, rfl, ?_, hExponent⟩
      rcases hDigits with hDigits | ⟨-, ds, fs, rfl, hWhole, hFraction⟩
      · exact .whole (List.forall_mem_cons.2 ⟨hDigit, hDigits⟩) (by simp)
      · exact @IsMantissa.fraction (c :: ds) fs (List.forall_mem_cons.2 ⟨hDigit, hWhole⟩) hFraction
          (by simp)
    | @point cs hDigit hTail =>
      rw [afterMark_cons rfl] at hPlain
      obtain ⟨digits, exponent, rfl, hExponent, hDigits⟩ := hTail.exists_split hPlain
      have hDigits : AllDigits digits := hDigits.resolve_right fun h => Bool.noConfusion h.1
      have hFilled : digits ≠ [] := by
        rintro rfl
        rcases hExponent with rfl | ⟨hMark, -⟩
        · cases hDigit
        · rw [isExponentMark_of_isDigit hDigit] at hMark
          cases hMark
      exact ⟨'.' :: digits, exponent, rfl, @IsMantissa.fraction [] digits (by simp [AllDigits]) hDigits
        (by simpa using hFilled), hExponent⟩

end DaxMigration.Formula
