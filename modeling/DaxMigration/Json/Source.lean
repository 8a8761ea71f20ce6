import DaxMigration.Decimal.Reader

/-!
# JSON as written

Reads a text by the grammar alone, without asking what numbers and strings mean: whether a number is in
range and whether the surrogates of a string pair up is decided where a value is used, so a part
that nobody uses may hold anything the grammar allows.
-/

namespace DaxMigration.Json

structure NumberLiteral where
  negative : Bool
  whole : List Char
  fraction : List Char
  /-- The sign, and the digits, of the exponent. -/
  exponent : Option (Bool × List Char)

/-- A character of a string as written: itself, or the code unit of a numeric escape. -/
inductive StringUnit where
  | char (c : Char)
  | unit (n : Nat)

inductive Source where
  | null
  | bool (value : Bool)
  | number (literal : NumberLiteral)
  | string (units : List StringUnit)
  | array (items : List Source)
  | object (members : List (List StringUnit × Source))

namespace Source

def isSpace (c : Char) : Bool :=
  c == ' ' || c == '\t' || c == '\n' || c == '\r'

def skipSpace (cs : List Char) : List Char :=
  cs.dropWhile isSpace

def hexValue? (c : Char) : Option Nat :=
  if c.isDigit then some (c.toNat - '0'.toNat)
  else if 'a' ≤ c && c ≤ 'f' then some (c.toNat - 'a'.toNat + 10)
  else if 'A' ≤ c && c ≤ 'F' then some (c.toNat - 'A'.toNat + 10)
  else none

def codeUnit? (a b c d : Char) : Option Nat := do
  let a ← hexValue? a
  let b ← hexValue? b
  let c ← hexValue? c
  let d ← hexValue? d
  return ((a * 16 + b) * 16 + c) * 16 + d

def escape? : Char → Option Char
  | '"' => some '"'
  | '\\' => some '\\'
  | '/' => some '/'
  | 'b' => some '\x08'
  | 'f' => some '\x0c'
  | 'n' => some '\n'
  | 'r' => some '\r'
  | 't' => some '\t'
  | _ => none

/-- The rest of a string after its opening quote, and what follows the closing one. -/
def stringBody? : List Char → Option (List StringUnit × List Char)
  | '"' :: rest => some ([], rest)
  | '\\' :: 'u' :: a :: b :: c :: d :: rest => do
    let n ← codeUnit? a b c d
    let (units, rest) ← stringBody? rest
    return (.unit n :: units, rest)
  | '\\' :: c :: rest => do
    let c ← escape? c
    let (units, rest) ← stringBody? rest
    return (.char c :: units, rest)
  | c :: rest => do
    if c.toNat < 0x20 then none
    let (units, rest) ← stringBody? rest
    return (.char c :: units, rest)
  | [] => none

/-- The digits and the sign after an exponent mark. -/
def exponent? (cs : List Char) : Option ((Bool × List Char) × List Char) :=
  let (negative, cs) := Decimal.takeSign cs
  let digits := cs.takeWhile Char.isDigit
  if digits.isEmpty then none else some ((negative, digits), cs.dropWhile Char.isDigit)

def number? (cs : List Char) : Option (NumberLiteral × List Char) := do
  let (negative, cs) :=
    match cs with
    | '-' :: rest => (true, rest)
    | _ => (false, cs)
  let whole := cs.takeWhile Char.isDigit
  let cs := cs.dropWhile Char.isDigit
  if whole.isEmpty || (whole.head? == some '0' && 1 < whole.length) then none
  let (fraction, cs) ←
    match cs with
    | '.' :: after =>
      let digits := after.takeWhile Char.isDigit
      if digits.isEmpty then none else some (digits, after.dropWhile Char.isDigit)
    | _ => some ([], cs)
  match cs with
  | 'e' :: after | 'E' :: after =>
    let (exponent, cs) ← exponent? after
    return (⟨negative, whole, fraction, some exponent⟩, cs)
  | _ => return (⟨negative, whole, fraction, none⟩, cs)

mutual

/-- A value at the start of the text, after white space. Every step down takes a character, so the
length of the text is fuel enough. -/
def readValue? : Nat → List Char → Option (Source × List Char)
  | 0, _ => none
  | fuel + 1, cs =>
    match skipSpace cs with
    | 'n' :: 'u' :: 'l' :: 'l' :: rest => some (null, rest)
    | 't' :: 'r' :: 'u' :: 'e' :: rest => some (bool true, rest)
    | 'f' :: 'a' :: 'l' :: 's' :: 'e' :: rest => some (bool false, rest)
    | '"' :: rest => (stringBody? rest).map fun (units, rest) => (string units, rest)
    | '[' :: rest =>
      match skipSpace rest with
      | ']' :: rest => some (array [], rest)
      | _ => (readItems? fuel rest).map fun (items, rest) => (array items, rest)
    | '\x7b' :: rest =>
      match skipSpace rest with
      | '\x7d' :: rest => some (object [], rest)
      | _ => (readMembers? fuel rest).map fun (members, rest) => (object members, rest)
    | cs => (number? cs).map fun (literal, rest) => (number literal, rest)

def readItems? : Nat → List Char → Option (List Source × List Char)
  | 0, _ => none
  | fuel + 1, cs => do
    let (item, rest) ← readValue? fuel cs
    match skipSpace rest with
    | ']' :: rest => return ([item], rest)
    | ',' :: rest =>
      let (items, rest) ← readItems? fuel rest
      return (item :: items, rest)
    | _ => none

def readMembers? : Nat → List Char → Option (List (List StringUnit × Source) × List Char)
  | 0, _ => none
  | fuel + 1, cs => do
    match skipSpace cs with
    | '"' :: rest =>
      let (key, rest) ← stringBody? rest
      match skipSpace rest with
      | ':' :: rest =>
        let (value, rest) ← readValue? fuel rest
        match skipSpace rest with
        | '\x7d' :: rest => return ([(key, value)], rest)
        | ',' :: rest =>
          let (members, rest) ← readMembers? fuel rest
          return ((key, value) :: members, rest)
        | _ => none
      | _ => none
    | _ => none

end

def ofText? (cs : List Char) : Option Source := do
  let (s, rest) ← readValue? (cs.length + 1) cs
  if (skipSpace rest).isEmpty then some s else none

end Source

end DaxMigration.Json
