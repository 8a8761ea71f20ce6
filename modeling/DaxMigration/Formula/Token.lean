import DaxMigration.Text.Blank
import DaxMigration.Text.Quoted

/-!
# Tokens and lexemes

A token is what a formula says at one place; a lexeme adds the characters it was written with and
the white space in front of it, so that a run of lexemes can be written out again.
-/

namespace DaxMigration.Formula

open Text

inductive Token where
  /-- A numeric literal, as written. -/
  | number (digits : List Char)
  /-- A literal in double quotes, without them. -/
  | string (content : List Char)
  /-- Text in single quotes: a literal in a source formula, a table name in DAX. -/
  | singleQuoted (content : List Char)
  | boolean (value : Bool)
  /-- A function name or keyword, in upper case. -/
  | identifier (name : List Char)
  /-- A bracketed field reference, without the brackets. -/
  | field (name : List Char)
  | plus | minus | asterisk | slash | percent | caret | ampersand
  | equals | doubleEquals | notEqual | lessThan | greaterThan | lessEqual | greaterEqual
  | lparen | rparen | lbrace | rbrace | comma | colon | dot
  /-- A line or block comment, with its marks. -/
  | comment (text : List Char)
  /-- Text that is already converted and stands where it was spliced in. -/
  | verbatim (text : List Char)
  /-- A character that begins no token. -/
  | illegal (c : Char)
deriving DecidableEq

namespace Token

def isComment : Token → Bool
  | comment _ => true
  | _ => false

def isIdentifier : Token → Bool
  | identifier _ => true
  | _ => false

def isField : Token → Bool
  | field _ => true
  | _ => false

/-- Round and curly brackets count alike wherever nesting depth matters. -/
def opens : Token → Bool
  | lparen | lbrace => true
  | _ => false

def closes : Token → Bool
  | rparen | rbrace => true
  | _ => false

def isWord (word : String) (t : Token) : Bool :=
  t == identifier word.toList

/-- Keywords that bind looser than a product. -/
def looseWords : List String :=
  ["AND", "OR", "NOT", "THEN", "ELSE", "ELSEIF", "WHEN", "END", "IF", "CASE"]

/-- Tokens that no operand of a division extends across. -/
def isDivisionBoundary : Token → Bool
  | plus | minus | ampersand | equals | doubleEquals | notEqual | lessThan | greaterThan
  | lessEqual | greaterEqual | comma | colon => true
  | identifier name => looseWords.any (·.toList == name)
  | _ => false

/-- Operators and delimiters in their usual spelling; literals between plain delimiters. -/
def display : Token → List Char
  | number digits => digits
  | string s => '"' :: s ++ ['"']
  | singleQuoted s => '\'' :: s ++ ['\'']
  | boolean true => "TRUE".toList
  | boolean false => "FALSE".toList
  | identifier name => name
  | field name => '[' :: name ++ [']']
  | plus => ['+']
  | minus => ['-']
  | asterisk => ['*']
  | slash => ['/']
  | percent => ['%']
  | caret => ['^']
  | ampersand => ['&']
  | equals => ['=']
  | doubleEquals => ['=', '=']
  | notEqual => ['<', '>']
  | lessThan => ['<']
  | greaterThan => ['>']
  | lessEqual => ['<', '=']
  | greaterEqual => ['>', '=']
  | lparen => ['(']
  | rparen => [')']
  | lbrace => ['\x7b']
  | rbrace => ['\x7d']
  | comma => [',']
  | colon => [':']
  | dot => ['.']
  | comment text => text
  | verbatim text => text
  | illegal c => "ILLEGAL(".toList ++ c :: [')']

def kindName : Token → String
  | number _ => "Number"
  | string _ => "String"
  | singleQuoted _ => "SingleQuoted"
  | boolean _ => "Boolean"
  | identifier _ => "Identifier"
  | field _ => "Field"
  | plus => "Plus"
  | minus => "Minus"
  | asterisk => "Asterisk"
  | slash => "Slash"
  | percent => "Percent"
  | caret => "Caret"
  | ampersand => "Ampersand"
  | equals => "Equals"
  | doubleEquals => "DoubleEquals"
  | notEqual => "NotEqual"
  | lessThan => "LessThan"
  | greaterThan => "GreaterThan"
  | lessEqual => "LessEqual"
  | greaterEqual => "GreaterEqual"
  | lparen => "LParen"
  | rparen => "RParen"
  | lbrace => "LBrace"
  | rbrace => "RBrace"
  | comma => "Comma"
  | colon => "Colon"
  | dot => "Dot"
  | comment _ => "Comment"
  | verbatim _ => "Verbatim"
  | illegal _ => "Illegal"

/-- A token's kind and, in parentheses, its content in escaped quotes. -/
def describe (t : Token) : List Char :=
  let content : Option (List Char) :=
    match t with
    | number s | string s | singleQuoted s | identifier s | field s | comment s | verbatim s =>
      some (escaped '"' s)
    | boolean value => some (if value then "true".toList else "false".toList)
    | illegal c => some (escaped '\'' [c])
    | _ => none
  match content with
  | some s => t.kindName.toList ++ '(' :: s ++ [')']
  | none => t.kindName.toList

@[simp]
theorem isWord_iff {word : String} {t : Token} :
    t.isWord word = true ↔ t = identifier word.toList := by
  simp [isWord]

end Token

structure Lexeme where
  token : Token
  /-- The characters of the token itself. -/
  text : List Char
  /-- The white space in front of it. -/
  leading : List Char
deriving DecidableEq

namespace Lexeme

/-- Converted text that keeps the white space of what it replaces. -/
def verbatim (text leading : List Char) : Lexeme :=
  ⟨.verbatim text, text, leading⟩

def isAttached (l : Lexeme) : Bool :=
  l.leading.isEmpty

def isComment (l : Lexeme) : Bool :=
  l.token.isComment

/-- The lexeme with the white space in front of it. -/
def written (l : Lexeme) : List Char :=
  l.leading ++ l.text

end Lexeme

/-- The lexemes one after the other, with all white space between them. -/
def written (ls : List Lexeme) : List Char :=
  ls.flatMap Lexeme.written

/-- The lexemes as a text of its own: inner white space is kept, outer white space is not. -/
def render : List Lexeme → List Char
  | [] => []
  | l :: rest => trim (l.text ++ written rest)

@[simp]
theorem written_nil : written [] = [] := rfl

@[simp]
theorem written_cons (l : Lexeme) (ls : List Lexeme) :
    written (l :: ls) = l.leading ++ (l.text ++ written ls) := by
  simp [written, Lexeme.written]

@[simp]
theorem written_append (a b : List Lexeme) : written (a ++ b) = written a ++ written b := by
  simp [written]

end DaxMigration.Formula
