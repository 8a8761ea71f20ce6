import DaxMigration.Formula.Token
import DaxMigration.Text.Letter
import DaxMigration.Text.Case

/-!
# Reading lexemes

Every character of a formula belongs to the white space in front of a lexeme, to a lexeme, or to the
white space at the end. A reader of one token returns the characters it took and those that follow,
and both together are what it was given; so reading ends, and loses nothing.
-/

namespace DaxMigration.Formula

open Text

/-- What a reader took from the front of its input. -/
structure Taken where
  taken : List Char
  rest : List Char

namespace Taken

def push (c : Char) (t : Taken) : Taken :=
  ⟨c :: t.taken, t.rest⟩

def while_ (p : Char → Bool) (cs : List Char) : Taken :=
  ⟨cs.takeWhile p, cs.dropWhile p⟩

theorem while_append (p : Char → Bool) (cs : List Char) :
    (while_ p cs).taken ++ (while_ p cs).rest = cs :=
  List.takeWhile_append_dropWhile

end Taken

/-- The content of a delimited literal, the characters it was written with, and what follows it. -/
structure Literal extends Taken where
  content : List Char
  closed : Bool

/-- Reads up to the closing delimiter `q`, which stands for itself where it is doubled. Without a
closing delimiter the literal runs to the end. -/
def readLiteral (q : Char) : List Char → Literal
  | [] => ⟨⟨[], []⟩, [], false⟩
  | [c] => if c = q then ⟨⟨[c], []⟩, [], true⟩ else ⟨⟨[c], []⟩, [c], false⟩
  | c :: d :: rest =>
    if c = q then
      if d = q then
        let l := readLiteral q rest
        ⟨⟨c :: d :: l.taken, l.rest⟩, q :: l.content, l.closed⟩
      else ⟨⟨[c], d :: rest⟩, [], true⟩
    else
      let l := readLiteral q (d :: rest)
      ⟨l.toTaken.push c, c :: l.content, l.closed⟩

theorem readLiteral_append (q : Char) (cs : List Char) :
    (readLiteral q cs).taken ++ (readLiteral q cs).rest = cs := by
  fun_induction readLiteral q cs <;> simp_all +zetaDelta [Taken.push]

/-- Reads to the end of a block comment, the mark included; `previous` is the character before. -/
def readBlockComment (previous : Char) : List Char → Taken
  | [] => ⟨[], []⟩
  | c :: rest =>
    if previous = '*' && c = '/' then ⟨[c], rest⟩ else (readBlockComment c rest).push c

theorem readBlockComment_append (previous : Char) (cs : List Char) :
    (readBlockComment previous cs).taken ++ (readBlockComment previous cs).rest = cs := by
  fun_induction readBlockComment previous cs <;> simp_all [Taken.push]

def startsWithDigit : List Char → Bool
  | c :: _ => c.isDigit
  | [] => false

/-- Reads what continues a number: digits, a point unless `dotted`, and exponent marks with digits
after them. -/
def readNumber (dotted : Bool) : List Char → Taken
  | [] => ⟨[], []⟩
  | c :: rest =>
    if c.isDigit then (readNumber dotted rest).push c
    else if c = '.' && !dotted then (readNumber true rest).push c
    else if c = 'e' || c = 'E' then
      match rest with
      | [] => ⟨[], [c]⟩
      | s :: digits =>
        if s.isDigit then (readNumber dotted (s :: digits)).push c
        else if (s = '+' || s = '-') && startsWithDigit digits then
          ((readNumber dotted digits).push s).push c
        else ⟨[], c :: s :: digits⟩
    else ⟨[], c :: rest⟩

theorem readNumber_append (dotted : Bool) (cs : List Char) :
    (readNumber dotted cs).taken ++ (readNumber dotted cs).rest = cs := by
  fun_induction readNumber dotted cs <;> simp_all [Taken.push]

def isLetter (c : Char) : Bool :=
  isAlphabetic c || c == '_'

def isNameCharacter (c : Char) : Bool :=
  isLetter c || c.isDigit

/-- The token that a whole name stands for. -/
def nameToken (name : List Char) : Token :=
  let name := upper name
  if name = "TRUE".toList then .boolean true
  else if name = "FALSE".toList then .boolean false
  else .identifier name

/-- A token with the characters it takes after the first one. -/
structure Scan extends Taken where
  token : Token

namespace Scan

def single (token : Token) (rest : List Char) : Scan :=
  ⟨⟨[], rest⟩, token⟩

/-- `long` if the next character is `c`, otherwise what `short` says. -/
def orElseIf (c : Char) (long : Token) (short : List Char → Scan) (rest : List Char) : Scan :=
  match rest with
  | [] => short []
  | d :: after => if d = c then ⟨⟨[d], after⟩, long⟩ else short (d :: after)

def literal (q : Char) (token : List Char → Token) (rest : List Char) : Scan :=
  let l := readLiteral q rest
  ⟨l.toTaken, token l.content⟩

def number (first : Char) (rest : List Char) : Scan :=
  let t := readNumber (first == '.') rest
  ⟨t, .number (first :: t.taken)⟩

def name (first : Char) (rest : List Char) : Scan :=
  let t := Taken.while_ isNameCharacter rest
  ⟨t, nameToken (first :: t.taken)⟩

def slash : List Char → Scan
  | '/' :: rest =>
    let t := (Taken.while_ (· != '\n') rest).push '/'
    ⟨t, .comment ('/' :: t.taken)⟩
  | '*' :: rest =>
    let t := (readBlockComment '\x00' rest).push '*'
    ⟨t, .comment ('/' :: t.taken)⟩
  | rest => single .slash rest

def scan (c : Char) (rest : List Char) : Scan :=
  match c with
  | '+' => single .plus rest
  | '-' => single .minus rest
  | '*' => single .asterisk rest
  | '/' => slash rest
  | '%' => single .percent rest
  | '^' => single .caret rest
  | '&' => single .ampersand rest
  | '(' => single .lparen rest
  | ')' => single .rparen rest
  | '\x7b' => single .lbrace rest
  | '\x7d' => single .rbrace rest
  | ',' => single .comma rest
  | ':' => single .colon rest
  | '=' => orElseIf '=' .doubleEquals (single .equals) rest
  | '!' => orElseIf '=' .notEqual (single (.illegal '!')) rest
  | '<' => orElseIf '=' .lessEqual (orElseIf '>' .notEqual (single .lessThan)) rest
  | '>' => orElseIf '=' .greaterEqual (single .greaterThan) rest
  | '"' => literal '"' .string rest
  | '\'' => literal '\'' .singleQuoted rest
  | '[' => literal ']' .field rest
  | '.' => if startsWithDigit rest then number '.' rest else single .dot rest
  | c =>
    if c.isDigit then number c rest
    else if isLetter c then name c rest
    else single (.illegal c) rest

theorem single_append (token : Token) (rest : List Char) :
    (single token rest).taken ++ (single token rest).rest = rest := rfl

theorem orElseIf_append {c : Char} {long : Token} {short : List Char → Scan}
    (h : ∀ rest, (short rest).taken ++ (short rest).rest = rest) (rest : List Char) :
    (orElseIf c long short rest).taken ++ (orElseIf c long short rest).rest = rest := by
  cases rest with
  | nil => exact h []
  | cons d after => by_cases hd : d = c <;> simp [orElseIf, hd, h]

theorem slash_append (rest : List Char) : (slash rest).taken ++ (slash rest).rest = rest := by
  unfold slash
  split
  · simp [Taken.push, Taken.while_append]
  · simp [Taken.push, readBlockComment_append]
  · rfl

theorem literal_append (q : Char) (token : List Char → Token) (rest : List Char) :
    (literal q token rest).taken ++ (literal q token rest).rest = rest :=
  readLiteral_append q rest

theorem number_append (first : Char) (rest : List Char) :
    (number first rest).taken ++ (number first rest).rest = rest :=
  readNumber_append _ rest

theorem name_append (first : Char) (rest : List Char) :
    (name first rest).taken ++ (name first rest).rest = rest :=
  Taken.while_append _ rest

/-- Reading one token loses nothing. -/
theorem scan_append (c : Char) (rest : List Char) :
    (scan c rest).taken ++ (scan c rest).rest = rest := by
  unfold scan
  split <;> (try split) <;> (try split) <;>
    first
    | exact single_append _ _
    | exact slash_append _
    | exact literal_append _ _ _
    | exact number_append _ _
    | exact name_append _ _
    | exact orElseIf_append (fun _ => rfl) _
    | exact orElseIf_append (fun _ => orElseIf_append (fun _ => rfl) _) _

theorem length_scan_rest_le (c : Char) (rest : List Char) :
    (scan c rest).rest.length ≤ rest.length := by
  have h := congrArg List.length (scan_append c rest)
  simp only [List.length_append] at h
  omega

end Scan

/-- The lexemes of a formula. White space after the last one belongs to none. -/
def tokenize (cs : List Char) : List Lexeme :=
  match _h : cs.dropWhile isBlank with
  | [] => []
  | c :: rest =>
    let s := Scan.scan c rest
    ⟨s.token, c :: s.taken, cs.takeWhile isBlank⟩ :: tokenize s.rest
termination_by cs.length
decreasing_by
  have hd : (cs.dropWhile isBlank).length ≤ cs.length := (List.dropWhile_sublist _).length_le
  have hs := Scan.length_scan_rest_le c rest
  rw [_h, List.length_cons] at hd
  omega

theorem tokenize_of_blank {cs : List Char} (h : cs.dropWhile isBlank = []) : tokenize cs = [] := by
  rw [tokenize]
  split
  · rfl
  · simp_all

@[simp]
theorem tokenize_nil : tokenize [] = [] :=
  tokenize_of_blank rfl

theorem tokenize_of_cons {cs : List Char} {c : Char} {rest : List Char}
    (h : cs.dropWhile isBlank = c :: rest) :
    tokenize cs =
      ⟨(Scan.scan c rest).token, c :: (Scan.scan c rest).taken, cs.takeWhile isBlank⟩ ::
        tokenize (Scan.scan c rest).rest := by
  rw [tokenize]
  split
  · simp_all
  · rename_i h'
    rw [h] at h'
    obtain ⟨rfl, rfl⟩ := List.cons.inj h'
    rfl

/-- The text of a lexeme is a non-empty part of what was read. -/
theorem text_of_mem_tokenize {cs : List Char} {l : Lexeme} (h : l ∈ tokenize cs) :
    0 < l.text.length ∧ l.text.length ≤ cs.length := by
  induction hn : cs.length using Nat.strongRecOn generalizing cs with
  | ind n ih =>
    subst hn
    match hd : cs.dropWhile isBlank with
    | [] => simp [tokenize_of_blank hd] at h
    | c :: rest =>
      have hlen : rest.length + 1 ≤ cs.length := by
        have := (List.dropWhile_sublist isBlank (l := cs)).length_le
        rwa [hd, List.length_cons] at this
      have hs := congrArg List.length (Scan.scan_append c rest)
      simp only [List.length_append] at hs
      rw [tokenize_of_cons hd] at h
      rcases List.mem_cons.1 h with rfl | h
      · simp only [List.length_cons]; omega
      · have := ih _ (by omega) h rfl
        omega

end DaxMigration.Formula
