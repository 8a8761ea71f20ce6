import DaxMigration.Proofs.Formula.Reading
import DaxMigration.Proofs.Text.LetterCase

/-!
# Reading without letter case

The caseless form of a lexeme keeps what its token says of a name, which is in upper case anyhow, and
takes the case from all other text. A formula is read to the same lexemes but for their case, whatever
the case of its letters: the marks of the language are no letters, and where a letter counts by itself,
as in an exponent, both cases count alike.
-/

namespace DaxMigration.Formula

open Text

namespace Token

def caseless : Token → Token
  | number digits => number (Text.caseless digits)
  | string content => string (Text.caseless content)
  | singleQuoted content => singleQuoted (Text.caseless content)
  | field name => field (Text.caseless name)
  | comment text => comment (Text.caseless text)
  | verbatim text => verbatim (Text.caseless text)
  | t => t

end Token

namespace Lexeme

def caseless (l : Lexeme) : Lexeme :=
  ⟨l.token.caseless, Text.caseless l.text, Text.caseless l.leading⟩

end Lexeme

/-! ## Readers -/

def Taken.caseless (t : Taken) : Taken :=
  ⟨Text.caseless t.taken, Text.caseless t.rest⟩

def Literal.caseless (l : Literal) : Literal :=
  ⟨l.toTaken.caseless, Text.caseless l.content, l.closed⟩

def Scan.caseless (s : Scan) : Scan :=
  ⟨s.toTaken.caseless, s.token.caseless⟩

theorem Taken.caseless_push (c : Char) (t : Taken) : (t.push c).caseless = t.caseless.push c.toLower := rfl

theorem Taken.while_caseless {p : Char → Bool} (h : ∀ c, p c.toLower = p c) (cs : List Char) :
    Taken.while_ p (Text.caseless cs) = (Taken.while_ p cs).caseless := by
  rw [while_, takeWhile_caseless h, dropWhile_caseless h]
  rfl

theorem readLiteral_caseless {q : Char} (hq : ∀ c : Char, c.toLower = q ↔ c = q) (cs : List Char) :
    readLiteral q (caseless cs) = (readLiteral q cs).caseless := by
  have hMark : q.toLower = q := (hq q).2 rfl
  fun_induction readLiteral q cs with
  | case1 => rfl
  | case2 => simp [readLiteral, Literal.caseless, Taken.caseless, hMark]
  | case3 c hc => simp [readLiteral, Literal.caseless, Taken.caseless, hq, hc]
  | case4 rest l ih =>
    simp +zetaDelta [readLiteral, Literal.caseless, Taken.caseless, hMark, ih]
  | case5 d rest hd => simp [readLiteral, Literal.caseless, Taken.caseless, hMark, hq, hd]
  | case6 c d rest hc l ih =>
    rw [caseless_cons] at ih
    simp +zetaDelta [readLiteral, Literal.caseless, Taken.caseless, hq, hc, ih, Taken.push]

theorem readBlockComment_caseless (previous : Char) (cs : List Char) :
    readBlockComment previous.toLower (caseless cs) = (readBlockComment previous cs).caseless := by
  have hStar : ∀ c : Char, c.toLower = '*' ↔ c = '*' := fun c => toLower_eq_iff (by decide)
  have hSlash : ∀ c : Char, c.toLower = '/' ↔ c = '/' := fun c => toLower_eq_iff (by decide)
  fun_induction readBlockComment previous cs with
  | case1 => rfl
  | case2 previous c rest h =>
    simp only [Bool.and_eq_true, decide_eq_true_eq] at h
    simp [readBlockComment, Taken.caseless, h]
  | case3 previous c rest h ih =>
    simp only [Bool.and_eq_true, decide_eq_true_eq] at h
    simp [readBlockComment, hStar, hSlash, h, ih, Taken.caseless_push]

theorem startsWithDigit_caseless (cs : List Char) : startsWithDigit (caseless cs) = startsWithDigit cs := by
  cases cs with
  | nil => rfl
  | cons c cs => exact isDigit_toLower c

theorem isExponent_toLower (c : Char) :
    (decide (c.toLower = 'e') || decide (c.toLower = 'E')) = (decide (c = 'e') || decide (c = 'E')) :=
  apply_toLower (f := fun c => decide (c = 'e') || decide (c = 'E')) (by decide) c

/-- In a number the marks of an exponent count in either case. -/
theorem readNumber_caseless (dotted : Bool) (cs : List Char) :
    readNumber dotted (caseless cs) = (readNumber dotted cs).caseless := by
  have hDot : ∀ c : Char, c.toLower = '.' ↔ c = '.' := fun c => toLower_eq_iff (by decide)
  have hPlus : ∀ c : Char, c.toLower = '+' ↔ c = '+' := fun c => toLower_eq_iff (by decide)
  have hMinus : ∀ c : Char, c.toLower = '-' ↔ c = '-' := fun c => toLower_eq_iff (by decide)
  fun_induction readNumber dotted cs with
  | case1 => rfl
  | case2 dotted c rest hDigit ih =>
    rw [caseless_cons, readNumber.eq_def]
    simp only [isDigit_toLower, hDigit, if_true, ih]
    rfl
  | case3 dotted c rest hDigit hPoint ih =>
    rw [caseless_cons, readNumber.eq_def]
    simp only [isDigit_toLower, hDigit, hDot, hPoint, if_true, ih]
    rfl
  | case4 dotted c hDigit hPoint hMark =>
    rw [caseless_cons, readNumber.eq_def]
    simp only [isDigit_toLower, hDigit, hDot, hPoint, isExponent_toLower, hMark, if_true]
    rfl
  | case5 dotted c hDigit hPoint hMark s digits hNext ih =>
    rw [caseless_cons, readNumber.eq_def]
    simp only [isDigit_toLower, hDigit, hDot, hPoint, isExponent_toLower, hMark, caseless_cons, hNext,
      if_true]
    rw [← caseless_cons, ih]
    rfl
  | case6 dotted c hDigit hPoint hMark s digits hNext hSign ih =>
    rw [caseless_cons, readNumber.eq_def]
    simp only [isDigit_toLower, hDigit, hDot, hPoint, isExponent_toLower, hMark, caseless_cons, hNext, hPlus,
      hMinus, startsWithDigit_caseless, hSign, ih, if_true]
    rfl
  | case7 dotted c hDigit hPoint hMark s digits hNext hSign =>
    rw [caseless_cons, readNumber.eq_def]
    simp only [isDigit_toLower, hDigit, hDot, hPoint, isExponent_toLower, hMark, caseless_cons, hNext, hPlus,
      hMinus, startsWithDigit_caseless, hSign, if_true]
    rfl
  | case8 dotted c rest hDigit hPoint hMark =>
    rw [caseless_cons, readNumber.eq_def]
    simp only [isDigit_toLower, hDigit, hDot, hPoint, isExponent_toLower, hMark]
    rfl

theorem isLetter_toLower (c : Char) : isLetter c.toLower = isLetter c := by
  have hUnder := @toLower_eq_iff c '_' (by decide)
  rw [isLetter, isLetter, isAlphabetic_toLower, Bool.eq_iff_iff]
  simp [hUnder]

theorem isNameCharacter_toLower (c : Char) : isNameCharacter c.toLower = isNameCharacter c := by
  rw [isNameCharacter, isNameCharacter, isLetter_toLower, isDigit_toLower]

/-- A name stands for the same token in either case. -/
theorem nameToken_caseless (name : List Char) : nameToken (caseless name) = nameToken name := by
  rw [nameToken, nameToken, upper_caseless]

theorem caseless_nameToken (name : List Char) : (nameToken name).caseless = nameToken name := by
  unfold nameToken
  simp only
  split
  · rfl
  split <;> rfl

/-! ## Tokens -/

namespace Scan

theorem toLower_of_sign {c : Char} {t : Token} (h : signToken? c = some t) :
    c.toLower = c ∧ t.caseless = t := by
  unfold signToken? at h
  split at h <;> first | (cases h; exact ⟨by decide, rfl⟩) | cases h

theorem lengthens_toLower (c d : Char) : lengthens c d.toLower = lengthens c d := by
  have hEquals := @toLower_eq_iff d '=' (by decide)
  have hGreater := @toLower_eq_iff d '>' (by decide)
  have hSlash := apply_toLower (f := fun d => d == '/' || d == '*') (by decide) d
  rw [lengthens, lengthens, pairToken?, pairToken?, isDigit_toLower, hSlash]
  simp only [hEquals, hGreater]

/-- Every form of a token is a form of its caseless text. -/
theorem form_caseless {c : Char} {rest : List Char} {s : Scan} (h : Form c rest s) :
    Form c.toLower (Text.caseless rest) s.caseless := by
  cases h with
  | @sign _ t _ hSign hAlone =>
    obtain ⟨hSame, hToken⟩ := toLower_of_sign hSign
    have hForm : Form c.toLower (Text.caseless rest) ⟨⟨[], Text.caseless rest⟩, t⟩ := by
      refine .sign (by rw [hSame, hSign]) ?_
      intro d hd
      obtain ⟨e, he, rfl⟩ : ∃ e ∈ rest.head?, e.toLower = d := by
        cases rest with
        | nil => cases hd
        | cons e rest => exact ⟨e, rfl, by simpa using hd⟩
      rw [hSame, lengthens_toLower]
      exact hAlone e he
    rwa [← hToken] at hForm
  | pair hPair =>
    cases isPair_of_pairToken hPair with
    | doubleEquals => exact .pair rfl
    | notEqual => exact .pair rfl
    | lessEqual => exact .pair rfl
    | lessGreater => exact .pair rfl
    | greaterEqual => exact .pair rfl
  | @line after =>
    have hNewline : ∀ d : Char, (d.toLower != '\n') = (d != '\n') := by
      intro d
      exact apply_toLower (f := (· != '\n')) (by decide) d
    have hForm := @Form.line (Text.caseless after)
    rw [Taken.while_caseless hNewline, takeWhile_caseless hNewline] at hForm
    exact hForm
  | @block after =>
    have hForm := @Form.block (Text.caseless after)
    have hRead := readBlockComment_caseless '\x00' after
    rw [show '\x00'.toLower = '\x00' from rfl] at hRead
    rw [hRead] at hForm
    exact hForm
  | @literal _ q token _ hLiteral =>
    obtain ⟨hOpening, hClosing, hToken⟩ : c.toLower = c ∧ (∀ d : Char, d.toLower = q ↔ d = q) ∧
        ∀ content, (token content).caseless = token (Text.caseless content) := by
      cases hLiteral <;> exact ⟨rfl, fun d => toLower_eq_iff (by decide), fun content => rfl⟩
    have hForm := @Form.literal _ _ _ (Text.caseless rest) hLiteral
    rw [literal, readLiteral_caseless hClosing] at hForm
    show Form c.toLower _ ⟨_, (token (readLiteral q rest).content).caseless⟩
    rw [hOpening, hToken]
    exact hForm
  | number hNumber =>
    have hDot : c.toLower = '.' ↔ c = '.' := toLower_eq_iff (by decide)
    have hPoint : (c.toLower == '.') = (c == '.') := by
      rw [Bool.eq_iff_iff, beq_iff_eq, beq_iff_eq, hDot]
    have hForm : Form c.toLower (Text.caseless rest) (number c.toLower (Text.caseless rest)) := by
      apply Form.number
      rwa [isDigit_toLower, hDot, startsWithDigit_caseless]
    rw [number, hPoint, readNumber_caseless] at hForm
    exact hForm
  | name hLetter =>
    have hForm : Form c.toLower (Text.caseless rest) (name c.toLower (Text.caseless rest)) := by
      apply Form.name
      rwa [isLetter_toLower]
    rw [name, Taken.while_caseless isNameCharacter_toLower] at hForm
    have hToken : (nameToken (c :: (Taken.while_ isNameCharacter rest).taken)).caseless =
        nameToken (c.toLower :: (Taken.while_ isNameCharacter rest).caseless.taken) := by
      rw [caseless_nameToken, ← nameToken_caseless]
      rfl
    show Form _ _ ⟨_, (nameToken (c :: (Taken.while_ isNameCharacter rest).taken)).caseless⟩
    rw [hToken]
    exact hForm
  | unknown hSign hLiteral hDigit hLetter =>
    have hSame : c.toLower = c := by
      apply toLower_of_not_isAlphabetic
      simp only [isLetter, Bool.or_eq_false_iff] at hLetter
      exact hLetter.1
    rw [hSame]
    exact .unknown hSign hLiteral hDigit hLetter

theorem scan_caseless (c : Char) (rest : List Char) :
    scan c.toLower (Text.caseless rest) = (scan c rest).caseless :=
  scan_of_form (form_caseless (form_scan c rest))

end Scan

/-- Reading goes on without letter case. -/
theorem tokenize_caseless (cs : List Char) : tokenize (caseless cs) = (tokenize cs).map Lexeme.caseless := by
  induction hn : cs.length using Nat.strongRecOn generalizing cs with
  | ind n ih =>
    have hDrop := dropWhile_caseless isBlank_toLower cs
    cases hCons : cs.dropWhile isBlank with
    | nil =>
      rw [hCons] at hDrop
      rw [tokenize_of_blank hCons, tokenize_of_blank hDrop]
      rfl
    | cons c rest =>
      rw [hCons, caseless_cons] at hDrop
      have hShorter : (Scan.scan c rest).rest.length < n := by
        have hRest := Scan.length_scan_rest_le c rest
        have hLength := (List.dropWhile_sublist isBlank (l := cs)).length_le
        rw [hCons, List.length_cons] at hLength
        omega
      rw [tokenize_of_cons hCons, tokenize_of_cons hDrop, Scan.scan_caseless, List.map_cons,
        ← ih _ hShorter _ rfl, takeWhile_caseless isBlank_toLower]
      rfl

end DaxMigration.Formula
