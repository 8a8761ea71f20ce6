import DaxMigration.Formula.Lexer
import Mathlib.Data.List.TakeWhile

/-!
# What one token takes

The forms a token can have, with the characters it takes from the text after its first one. Every
statement on single tokens goes by these forms, and none opens the scanner again.
-/

namespace DaxMigration.Formula

open Text

/-! ## Literals and comments -/

/-- A literal that closes is its content with every mark doubled and one mark at the end; one that
does not runs to the end of the text. -/
theorem taken_readLiteral (q : Char) (cs : List Char) :
    (readLiteral q cs).taken =
      double q (readLiteral q cs).content ++ if (readLiteral q cs).closed then [q] else [] := by
  fun_induction readLiteral q cs <;> simp_all +zetaDelta [Taken.push, double]

theorem rest_readLiteral_of_open {q : Char} {cs : List Char}
    (h : (readLiteral q cs).closed = false) : (readLiteral q cs).rest = [] := by
  fun_induction readLiteral q cs <;> simp_all +zetaDelta [Taken.push]

theorem head_rest_readLiteral {q : Char} {cs : List Char}
    (h : (readLiteral q cs).closed = true) : ∀ d ∈ (readLiteral q cs).rest.head?, d ≠ q := by
  fun_induction readLiteral q cs <;> simp_all +zetaDelta [Taken.push]

def isNumberCharacter (c : Char) : Bool :=
  c.isDigit || c == '.' || c == 'e' || c == 'E' || c == '+' || c == '-'

theorem isNumberCharacter_of_mem {dotted : Bool} {cs : List Char} :
    ∀ c ∈ (readNumber dotted cs).taken, isNumberCharacter c = true := by
  fun_induction readNumber dotted cs with
  | case1 | case4 | case7 | case8 => simp
  | case2 _ c rest h ih => simpa [Taken.push, isNumberCharacter, h] using ih
  | case3 _ c rest _ h ih =>
    obtain ⟨rfl, _⟩ := by simpa using h
    simpa [Taken.push, isNumberCharacter] using ih
  | case5 _ c _ _ hMark _ _ _ ih =>
    have hc : isNumberCharacter c = true := by rcases (by simpa using hMark : c = 'e' ∨ c = 'E') with rfl | rfl <;> rfl
    simpa [Taken.push, hc] using ih
  | case6 _ c _ _ hMark s _ _ hSign ih =>
    have hc : isNumberCharacter c = true := by rcases (by simpa using hMark : c = 'e' ∨ c = 'E') with rfl | rfl <;> rfl
    have hs : isNumberCharacter s = true := by
      obtain ⟨rfl | rfl, _⟩ := (by simpa using hSign : (s = '+' ∨ s = '-') ∧ _) <;> rfl
    simpa [Taken.push, hc, hs] using ih

/-! ## Names -/

theorem nameToken_cases (text : List Char) :
    (∃ value, nameToken text = .boolean value) ∨ ∃ name, nameToken text = .identifier name := by
  simp only [nameToken]
  split
  · exact .inl ⟨true, rfl⟩
  split
  · exact .inl ⟨false, rfl⟩
  · exact .inr ⟨_, rfl⟩

theorem eq_upper_of_nameToken {text name : List Char} (h : nameToken text = .identifier name) :
    name = upper text := by
  simp only [nameToken] at h
  split at h
  · cases h
  split at h
  · cases h
  · exact (Token.identifier.inj h).symm

namespace Scan

/-! ## Forms of a token -/

def signToken? : Char → Option Token
  | '+' => some .plus
  | '-' => some .minus
  | '*' => some .asterisk
  | '/' => some .slash
  | '%' => some .percent
  | '^' => some .caret
  | '&' => some .ampersand
  | '(' => some .lparen
  | ')' => some .rparen
  | '\x7b' => some .lbrace
  | '\x7d' => some .rbrace
  | ',' => some .comma
  | ':' => some .colon
  | '=' => some .equals
  | '!' => some (.illegal '!')
  | '<' => some .lessThan
  | '>' => some .greaterThan
  | '.' => some .dot
  | _ => none

def pairToken? (c d : Char) : Option Token :=
  if c = '=' ∧ d = '=' then some .doubleEquals
  else if c = '!' ∧ d = '=' then some .notEqual
  else if c = '<' ∧ d = '=' then some .lessEqual
  else if c = '<' ∧ d = '>' then some .notEqual
  else if c = '>' ∧ d = '=' then some .greaterEqual
  else none

inductive IsPair : Char → Char → Token → Prop
  | doubleEquals : IsPair '=' '=' .doubleEquals
  | notEqual : IsPair '!' '=' .notEqual
  | lessEqual : IsPair '<' '=' .lessEqual
  | lessGreater : IsPair '<' '>' .notEqual
  | greaterEqual : IsPair '>' '=' .greaterEqual

theorem isPair_of_pairToken {c d : Char} {t : Token} (h : pairToken? c d = some t) :
    IsPair c d t := by
  unfold pairToken? at h
  split at h
  case isTrue hEq => obtain ⟨rfl, rfl⟩ := hEq; cases h; exact .doubleEquals
  split at h
  case isTrue hEq => obtain ⟨rfl, rfl⟩ := hEq; cases h; exact .notEqual
  split at h
  case isTrue hEq => obtain ⟨rfl, rfl⟩ := hEq; cases h; exact .lessEqual
  split at h
  case isTrue hEq => obtain ⟨rfl, rfl⟩ := hEq; cases h; exact .lessGreater
  split at h
  case isTrue hEq => obtain ⟨rfl, rfl⟩ := hEq; cases h; exact .greaterEqual
  cases h

def lengthens (c d : Char) : Bool :=
  (pairToken? c d).isSome || (c == '/' && (d == '/' || d == '*')) || (c == '.' && d.isDigit)

/-- The three kinds of delimited literals: opening mark, closing mark and token. -/
inductive IsLiteral : Char → Char → (List Char → Token) → Prop
  | string : IsLiteral '"' '"' .string
  | singleQuoted : IsLiteral '\'' '\'' .singleQuoted
  | field : IsLiteral '[' ']' .field

def isLiteralMark (c : Char) : Bool :=
  c == '"' || c == '\'' || c == '['

inductive Form : Char → List Char → Scan → Prop
  | sign {c : Char} {t : Token} {rest : List Char} (hSign : signToken? c = some t)
      (hAlone : ∀ d ∈ rest.head?, lengthens c d = false) : Form c rest ⟨⟨[], rest⟩, t⟩
  | pair {c d : Char} {t : Token} {rest : List Char} (hPair : pairToken? c d = some t) :
      Form c (d :: rest) ⟨⟨[d], rest⟩, t⟩
  | line {rest : List Char} : Form '/' ('/' :: rest)
      ⟨(Taken.while_ (· != '\n') rest).push '/',
        .comment ('/' :: '/' :: rest.takeWhile (· != '\n'))⟩
  | block {rest : List Char} : Form '/' ('*' :: rest)
      ⟨(readBlockComment '\x00' rest).push '*',
        .comment ('/' :: '*' :: (readBlockComment '\x00' rest).taken)⟩
  | literal {c q : Char} {token : List Char → Token} {rest : List Char}
      (hLiteral : IsLiteral c q token) : Form c rest (Scan.literal q token rest)
  | number {c : Char} {rest : List Char}
      (hNumber : c.isDigit = true ∨ c = '.' ∧ startsWithDigit rest = true) :
      Form c rest (Scan.number c rest)
  | name {c : Char} {rest : List Char} (hLetter : isLetter c = true) : Form c rest (Scan.name c rest)
  | unknown {c : Char} {rest : List Char} (hSign : signToken? c = none)
      (hLiteral : isLiteralMark c = false) (hDigit : c.isDigit = false)
      (hLetter : isLetter c = false) : Form c rest ⟨⟨[], rest⟩, .illegal c⟩

theorem form_single {c : Char} {t : Token} (hSign : signToken? c = some t)
    (hAlone : ∀ d, lengthens c d = false) (rest : List Char) : Form c rest (single t rest) :=
  .sign hSign fun d _ => hAlone d

theorem form_orElseIf {c d : Char} {long : Token} {short : List Char → Scan}
    (hPair : pairToken? c d = some long) {rest : List Char}
    (hShort : (∀ e ∈ rest.head?, e ≠ d) → Form c rest (short rest)) :
    Form c rest (orElseIf d long short rest) := by
  cases rest with
  | nil => exact hShort (by simp)
  | cons e after =>
    by_cases hEq : e = d
    · subst e
      simpa [orElseIf] using Form.pair hPair
    · simpa [orElseIf, hEq] using hShort (by simpa using hEq)

theorem form_slash (rest : List Char) : Form '/' rest (slash rest) := by
  unfold slash
  split
  · exact .line
  · exact .block
  · rename_i hLine hBlock
    refine .sign rfl ?_
    cases rest with
    | nil => simp
    | cons d after =>
      have hd : d ≠ '/' := by rintro rfl; exact hLine _ rfl
      have hd' : d ≠ '*' := by rintro rfl; exact hBlock _ rfl
      simp [lengthens, pairToken?, hd, hd']

theorem form_dot (rest : List Char) :
    Form '.' rest (if startsWithDigit rest then number '.' rest else single .dot rest) := by
  split
  · rename_i hDigit
    exact .number (.inr ⟨rfl, hDigit⟩)
  · rename_i hDigit
    refine .sign rfl ?_
    cases rest with
    | nil => simp
    | cons d after =>
      simpa [lengthens, pairToken?, startsWithDigit] using hDigit

/-- Every token has one of the forms. -/
theorem form_scan (c : Char) (rest : List Char) : Form c rest (scan c rest) := by
  unfold scan
  split
  case h_4 => exact form_slash rest
  case h_14 => exact form_orElseIf rfl fun h => .sign rfl (by simpa [lengthens, pairToken?] using h)
  case h_15 => exact form_orElseIf rfl fun h => .sign rfl (by simpa [lengthens, pairToken?] using h)
  case h_16 =>
    refine form_orElseIf rfl fun hEq => form_orElseIf rfl fun hGreater => .sign rfl ?_
    intro d hd
    simp [lengthens, pairToken?, hEq d hd, hGreater d hd]
  case h_17 => exact form_orElseIf rfl fun h => .sign rfl (by simpa [lengthens, pairToken?] using h)
  case h_18 => exact .literal .string
  case h_19 => exact .literal .singleQuoted
  case h_20 => exact .literal .field
  case h_21 => exact form_dot rest
  case h_22 =>
    split
    · exact .number (.inl ‹_›)
    split
    · exact .name ‹_›
    · exact .unknown (by unfold signToken?; split <;> simp_all) (by simp_all [isLiteralMark])
        (by simp_all) (by simp_all)
  all_goals exact form_single rfl (by intro d; simp [lengthens, pairToken?]) rest

end Scan

end DaxMigration.Formula
