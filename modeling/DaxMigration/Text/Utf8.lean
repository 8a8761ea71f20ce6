/-!
# UTF-8

Reads bytes as characters. What is not UTF-8 is reported with the length of the longest beginning of
a character at the place, or as cut off where the input ends inside one.
-/

namespace DaxMigration.Text

inductive Utf8Error where
  | invalid (length index : Nat)
  | incomplete (index : Nat)
deriving DecidableEq

def Utf8Error.message : Utf8Error → String
  | invalid length index =>
    "invalid utf-8 sequence of " ++ toString length ++ " bytes from index " ++ toString index
  | incomplete index => "incomplete utf-8 byte sequence from index " ++ toString index

/-- Number of bytes after a first byte, its payload, and the range of the byte after it. -/
def sequenceHead? (b : Nat) : Option (Nat × Nat × Nat × Nat) :=
  if b < 0x80 then some (0, b, 0, 0)
  else if 0xC2 ≤ b && b ≤ 0xDF then some (1, b - 0xC0, 0x80, 0xBF)
  else if b = 0xE0 then some (2, 0, 0xA0, 0xBF)
  else if b = 0xED then some (2, 0xD, 0x80, 0x9F)
  else if 0xE1 ≤ b && b ≤ 0xEF then some (2, b - 0xE0, 0x80, 0xBF)
  else if b = 0xF0 then some (3, 0, 0x90, 0xBF)
  else if 0xF1 ≤ b && b ≤ 0xF3 then some (3, b - 0xF0, 0x80, 0xBF)
  else if b = 0xF4 then some (3, 4, 0x80, 0x8F)
  else none

/-- A character begun at an index: the payload so far, and the bytes it still lacks with the range
of the next one. -/
structure Partial where
  index : Nat
  taken : Nat
  payload : Nat
  lacking : Nat
  low : Nat
  high : Nat

/-- Decodes from byte `i` on; `begun` is a character whose first bytes are behind. -/
def decodeFrom (i : Nat) (begun : Option Partial) : List UInt8 → Except Utf8Error (List Char)
  | [] =>
    match begun with
    | none => .ok []
    | some p => .error (.incomplete p.index)
  | byte :: rest =>
    let b := byte.toNat
    match begun with
    | none =>
      match sequenceHead? b with
      | none => .error (.invalid 1 i)
      | some (0, payload, _, _) => return Char.ofNat payload :: (← decodeFrom (i + 1) none rest)
      | some (lacking, payload, low, high) =>
        decodeFrom (i + 1) (some ⟨i, 1, payload, lacking, low, high⟩) rest
    | some p =>
      if p.low ≤ b && b ≤ p.high then
        let payload := p.payload * 0x40 + (b - 0x80)
        if p.lacking = 1 then return Char.ofNat payload :: (← decodeFrom (i + 1) none rest)
        else decodeFrom (i + 1) (some ⟨p.index, p.taken + 1, payload, p.lacking - 1, 0x80, 0xBF⟩) rest
      else .error (.invalid p.taken p.index)

def decodeUtf8 (bytes : List UInt8) : Except Utf8Error (List Char) :=
  decodeFrom 0 none bytes

/-- Decodes with a replacement character for each faulty piece; `steps` bounds their number. -/
def decodeLossyFrom : Nat → List UInt8 → List Char
  | 0, _ => []
  | steps + 1, bytes =>
    match decodeUtf8 bytes with
    | .ok cs => cs
    | .error (.incomplete i) => decodeLossyFrom steps (bytes.take i) ++ ['\uFFFD']
    | .error (.invalid length i) =>
      decodeLossyFrom steps (bytes.take i) ++ '\uFFFD' :: decodeLossyFrom steps (bytes.drop (i + length))

def decodeLossy (bytes : List UInt8) : List Char :=
  decodeLossyFrom (bytes.length + 1) bytes

def utf8Length (cs : List Char) : Nat :=
  cs.foldr (fun c n => c.utf8Size + n) 0

def firstByte (c : Char) : Nat :=
  let n := c.toNat
  if n < 0x80 then n
  else if n < 0x800 then 0xC0 + n / 0x40
  else if n < 0x10000 then 0xE0 + n / 0x1000
  else 0xF0 + n / 0x40000

def byteOrderMark : List UInt8 :=
  [0xEF, 0xBB, 0xBF]

def dropByteOrderMark (bytes : List UInt8) : List UInt8 :=
  if byteOrderMark.isPrefixOf bytes then bytes.drop byteOrderMark.length else bytes

end DaxMigration.Text
