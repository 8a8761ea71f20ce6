import DaxMigration.Text.Quoted
import DaxMigration.Text.Utf8

/-!
# Character references

A reference stands between `&` and `;`: one of five names, or the number of a code point in decimal
or, after `x`, in hexadecimal. Positions count bytes from the start of the text.
-/

namespace DaxMigration.Xml

/-- Why a text with references cannot be read. Ranges run from the first byte to the one past the
last. -/
inductive EscapeFault where
  | unterminated (first past : Nat)
  | unknown (first past : Nat) (name : List Char)
  | null (first past : Nat)
  | longDecimal
  | longHexadecimal
  | notDecimal (digit : Char)
  | notHexadecimal (digit : Char)
  | notCodePoint (code : Nat)
deriving DecidableEq

namespace EscapeFault

def atRange (first past : Nat) (reason : String) : String :=
  "Error while escaping character at range " ++ toString first ++ ".." ++ toString past ++ ": " ++
    reason

def message : EscapeFault → String
  | unterminated first past => atRange first past "Cannot find ';' after '&'"
  | unknown first past name =>
    atRange first past ("Unrecognized escape symbol: " ++ String.ofList (Text.escaped '"' name))
  | null first past => atRange first past "Null character entity not allowed"
  | longDecimal => "Cannot convert decimal to utf8"
  | longHexadecimal => "Cannot convert hexadecimal to utf8"
  | notDecimal digit => String.ofList ['\'', digit, '\''] ++ " is not a valid decimal character"
  | notHexadecimal digit =>
    String.ofList ['\'', digit, '\''] ++ " is not a valid hexadecimal character"
  | notCodePoint code => "'" ++ toString code ++ "' is not a valid codepoint"

end EscapeFault

/-- The character of the first byte of `c`, read as a code point. -/
def firstByteChar (c : Char) : Char :=
  Char.ofNat (Text.firstByte c)

def decimalDigit? (c : Char) : Option Nat :=
  if '0' ≤ c ∧ c ≤ '9' then some (c.toNat - 0x30) else none

def hexadecimalDigit? (c : Char) : Option Nat :=
  if '0' ≤ c ∧ c ≤ '9' then some (c.toNat - 0x30)
  else if 'a' ≤ c ∧ c ≤ 'f' then some (c.toNat - 0x61 + 10)
  else if 'A' ≤ c ∧ c ≤ 'F' then some (c.toNat - 0x41 + 10)
  else none

/-- The number that the digits spell in a base; the first that is no digit is the fault. -/
def readDigits (base : Nat) (digit? : Char → Option Nat) (fault : Char → EscapeFault)
    (digits : List Char) : Except EscapeFault Nat :=
  digits.foldlM (fun code c =>
    match digit? c with
    | some d => .ok (code * base + d)
    | none => .error (fault (firstByteChar c))) 0

/-- The code point of a numeric reference, given what stands after its `#`. No code point needs more
than seven decimal or six hexadecimal digits. -/
def readCode : List Char → Except EscapeFault Nat
  | 'x' :: digits =>
    if 6 < Text.utf8Length digits then .error .longHexadecimal
    else readDigits 16 hexadecimalDigit? .notHexadecimal digits
  | digits =>
    if 7 < Text.utf8Length digits then .error .longDecimal
    else readDigits 10 decimalDigit? .notDecimal digits

def namedReference? (name : List Char) : Option Char :=
  match String.ofList name with
  | "lt" => some '<'
  | "gt" => some '>'
  | "amp" => some '&'
  | "apos" => some '\''
  | "quot" => some '"'
  | _ => none

/-- The character of a reference whose `&` is at `first` and whose `;` is at `past`. -/
def readReference (first past : Nat) : List Char → Except EscapeFault Char
  | '#' :: number => do
    let code ← readCode number
    if code = 0 then .error (.null first past)
    else if code.isValidChar then .ok (Char.ofNat code)
    else .error (.notCodePoint code)
  | name =>
    match namedReference? name with
    | some c => .ok c
    | none => .error (.unknown (first + 1) past name)

/-- A text read up to an offset: the characters so far, the latest first, and the reference that has
begun, if any, with the offset of its `&` and its characters, the latest first. -/
structure Unescaping where
  offset : Nat := 0
  read : List Char := []
  reference : Option (Nat × List Char) := none

namespace Unescaping

def step (size : Nat) (u : Unescaping) (c : Char) : Except EscapeFault Unescaping :=
  let offset := u.offset + c.utf8Size
  match u.reference with
  | none =>
    if c = '&' then .ok { u with offset, reference := some (u.offset, []) }
    else .ok { u with offset, read := c :: u.read }
  | some (first, name) =>
    if c = '&' then .error (.unterminated first size)
    else if c = ';' then do
      let r ← readReference first u.offset name.reverse
      .ok ⟨offset, r :: u.read, none⟩
    else .ok { u with offset, reference := some (first, c :: name) }

def finish (size : Nat) (u : Unescaping) : Except EscapeFault (List Char) :=
  match u.reference with
  | none => .ok u.read.reverse
  | some (first, _) => .error (.unterminated first size)

end Unescaping

def unescape (cs : List Char) : Except EscapeFault (List Char) := do
  let size := Text.utf8Length cs
  (← cs.foldlM (Unescaping.step size) {}).finish size

end DaxMigration.Xml
