import DaxMigration.Archive.Fault
import DaxMigration.Archive.Field
import DaxMigration.Text.Utf8

/-!
# Members

What the directory of a package says of a member, and the content of the member. The content stands
behind a record of its own, of which only the lengths count.
-/

namespace DaxMigration.Archive

/-! ## Cyclic redundancy check -/

/-- The 32-bit check is a division by this polynomial, in reflected form, begun and ended with all
bits inverted. -/
def polynomial : UInt32 := 0xEDB88320

def shiftBit (r : UInt32) : UInt32 :=
  if r &&& 1 = 1 then (r >>> 1) ^^^ polynomial else r >>> 1

def shiftBits : Nat → UInt32 → UInt32
  | 0, r => r
  | n + 1, r => shiftBits n (shiftBit r)

def checksum (bytes : ByteArray) : UInt32 :=
  bytes.foldl (fun r b => shiftBits 8 (r ^^^ b.toUInt32)) 0xFFFFFFFF ^^^ 0xFFFFFFFF

/-! ## What the directory says -/

/-- How a content is packed. What is sealed is encrypted, and an extra field says how it was packed
before that. -/
inductive Method where
  | stored
  | deflated
  | sealed
  | other
deriving DecidableEq

def Method.ofNumber (n : Nat) : Method :=
  if n = 0 then .stored
  else if n = 8 then .deflated
  else if n = 99 then .sealed
  else .other

/-- A member. `rawName` is its name as it is written, `start` the offset of its record, and `locked`
that it needs a password for its strength of encryption. -/
structure Member where
  rawName : ByteArray
  name : String
  comment : String
  encrypted : Bool
  method : Method
  locked : Bool
  checksum : UInt32
  size : Nat
  packedSize : Nat
  start : Nat

/-- The upper half of the code page that names are written in unless they are marked as Unicode. -/
def upperCodePage : List Char :=
  ("ÇüéâäàåçêëèïîìÄÅÉæÆôöòûùÿÖÜ¢£¥₧ƒáíóúñÑªº¿⌐¬½¼¡«»░▒▓│┤╡╢╖╕╣║╗╝╜╛┐└┴┬├─┼╞╟╚╔╩╦╠═╬╧╨╤╥╙╘╒╓╫╪┘┌█▄▌▐▀" ++
    "αßΓπΣσµτΦΘΩδ∞φε∩≡±≥≤⌠⌡÷≈°∙·√ⁿ²■\u00A0").toList

def codePageChar (b : UInt8) : Char :=
  if b.toNat < 0x80 then Char.ofNat b.toNat else upperCodePage.getD (b.toNat - 0x80) ' '

def decodeName (unicode : Bool) (bytes : ByteArray) : String :=
  String.ofList (if unicode then Text.decodeLossy bytes.toList else bytes.toList.map codePageChar)

namespace Member

/-- The bytes of a member as they are packed, which may end with the package. -/
def packed (m : Member) (b : ByteArray) : Except PackageFault ByteArray :=
  match field? b m.start 4, field? b (m.start + 26) 2, field? b (m.start + 28) 2 with
  | some mark, some name, some extra =>
    if mark = memberMark then .ok (sliceOrLess b (m.start + 30 + name + extra) m.packedSize)
    else .error .memberRecord
  | _, _, _ => .error .unreadable

def opened (m : Member) (b : ByteArray) : Except PackageFault ByteArray := do
  if m.encrypted then throw .encrypted
  let bytes ← m.packed b
  if m.method = .sealed || m.method = .other then throw .method
  if m.locked then throw .locked
  return bytes

def content (m : Member) (packed : ByteArray) : Except ContentFault ByteArray := do
  let bytes ←
    match m.method with
    | .deflated => (inflate packed).mapError .stream
    | _ => .ok packed
  if Archive.checksum bytes = m.checksum then .ok bytes else .error .wrongChecksum

end Member

end DaxMigration.Archive
