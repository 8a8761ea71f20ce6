import DaxMigration.Archive.PrefixCode

/-!
# Compressed data

A stream of blocks of bits. A block is stored as it is, or made of symbols in two prefix codes: a
symbol is a byte, the end of the block, or the length of a piece of the output that is repeated from
a distance back. Before the output there is nothing but zero bytes.
-/

namespace DaxMigration.Archive

/-- Data ends before its last block does, or breaks a rule before that. -/
inductive InflateFault where
  | exhausted
  | malformed
deriving DecidableEq

def InflateFault.message : InflateFault → String
  | exhausted => "incomplete deflate stream"
  | malformed => "corrupt deflate stream"

/-- The bits that are left, and the output. -/
structure Inflation where
  bits : List Bool
  output : ByteArray

abbrev Inflating := ExceptT InflateFault (StateM Inflation)

namespace Inflating

def bitsOf (bytes : ByteArray) : List Bool :=
  bytes.toList.flatMap fun b => (List.range 8).map b.toNat.testBit

def bit : Inflating Bool := do
  match (← get).bits with
  | [] => throw .exhausted
  | b :: rest => modify fun s => { s with bits := rest }; return b

def number : Nat → Inflating Nat
  | 0 => return 0
  | n + 1 => do
    let low ← bit
    return low.toNat + 2 * (← number n)

def symbol : PrefixCode → Inflating Nat
  | .vacant => throw .malformed
  | .word s => return s
  | .fork zero one => do if ← bit then symbol one else symbol zero

def emit (b : UInt8) : Inflating Unit :=
  modify fun s => { s with output := s.output.push b }

/-- The byte of the output that is `distance` bytes back. -/
def byteBack (output : ByteArray) (distance : Nat) : UInt8 :=
  if distance ≤ output.size then output[output.size - distance]?.getD 0 else 0

/-- Repeats a number of bytes of the output, the first from `distance` bytes back. -/
def repeatBack (distance : Nat) : Nat → Inflating Unit
  | 0 => return
  | n + 1 => do
    emit (byteBack (← get).output distance)
    repeatBack distance n

/-- The smallest number and the number of further bits of each length symbol from 257 on. -/
def lengthSymbols : List (Nat × Nat) :=
  [(3, 0), (4, 0), (5, 0), (6, 0), (7, 0), (8, 0), (9, 0), (10, 0), (11, 1), (13, 1), (15, 1),
    (17, 1), (19, 2), (23, 2), (27, 2), (31, 2), (35, 3), (43, 3), (51, 3), (59, 3), (67, 4),
    (83, 4), (99, 4), (115, 4), (131, 5), (163, 5), (195, 5), (227, 5), (258, 0)]

/-- The same for each distance symbol. -/
def distanceSymbols : List (Nat × Nat) :=
  [(1, 0), (2, 0), (3, 0), (4, 0), (5, 1), (7, 1), (9, 2), (13, 2), (17, 3), (25, 3), (33, 4),
    (49, 4), (65, 5), (97, 5), (129, 6), (193, 6), (257, 7), (385, 7), (513, 8), (769, 8),
    (1025, 9), (1537, 9), (2049, 10), (3073, 10), (4097, 11), (6145, 11), (8193, 12), (12289, 12),
    (16385, 13), (24577, 13)]

def extended (table : List (Nat × Nat)) (i : Nat) : Inflating Nat := do
  match table[i]? with
  | some (base, extra) => return base + (← number extra)
  | none => throw .malformed

def endOfBlock : Nat := 256

/-- The symbols of a block up to its end. Every symbol takes a bit, so as many steps as there are
bits suffice. -/
def symbols (literals distances : PrefixCode) : Nat → Inflating Unit
  | 0 => throw .exhausted
  | steps + 1 => do
    let s ← symbol literals
    if s < endOfBlock then
      emit (UInt8.ofNat s)
      symbols literals distances steps
    else if s = endOfBlock then return
    else
      let length ← extended lengthSymbols (s - 257)
      let distance ← extended distanceSymbols (← symbol distances)
      repeatBack distance length
      symbols literals distances steps

def codedBlock (literals distances : PrefixCode) : Inflating Unit := do
  symbols literals distances ((← get).bits.length + 1)

def fixedLiterals : List Nat :=
  List.replicate 144 8 ++ List.replicate 112 9 ++ List.replicate 24 7 ++ List.replicate 8 8

def fixedDistances : List Nat :=
  List.replicate 32 5

def storedBytes : Nat → Inflating Unit
  | 0 => return
  | n + 1 => do
    emit (UInt8.ofNat (← number 8))
    storedBytes n

/-- A stored block begins at a whole byte, with its length and the complement of it. -/
def storedBlock : Inflating Unit := do
  modify fun s => { s with bits := s.bits.drop (s.bits.length % 8) }
  let length ← number 16
  let complement ← number 16
  if length + complement = 0xFFFF then storedBytes length else throw .malformed

/-- The order in which the lengths of the code for lengths are written. -/
def lengthOrder : List Nat :=
  [16, 17, 18, 0, 8, 7, 9, 6, 10, 5, 11, 4, 12, 3, 13, 2, 14, 1, 15]

def shortLengths : Nat → Inflating (List Nat)
  | 0 => return []
  | n + 1 => do
    let length ← number 3
    return length :: (← shortLengths n)

/-- Code lengths up to a number of them, the latest first. A symbol is a length, or repeats the
latest length or zero. -/
def codeLengths (code : PrefixCode) (count : Nat) : Nat → List Nat → Inflating (List Nat)
  | 0, _ => throw .malformed
  | steps + 1, lengths => do
    if lengths.length = count then return lengths
    else if count < lengths.length then throw .malformed
    else
      let again (length low extra : Nat) : Inflating (List Nat) := do
        let n ← number extra
        codeLengths code count steps (List.replicate (low + n) length ++ lengths)
      match ← symbol code with
      | 16 =>
        match lengths with
        | [] => throw .malformed
        | length :: _ => again length 3 2
      | 17 => again 0 3 3
      | 18 => again 0 11 7
      | length => codeLengths code count steps (length :: lengths)

/-- A block whose two codes are written before it. -/
def describedBlock : Inflating Unit := do
  let literalCount := 257 + (← number 5)
  let distanceCount := 1 + (← number 5)
  let short ← shortLengths (4 + (← number 4))
  if 286 < literalCount || 30 < distanceCount then throw .malformed
  let ordered := lengthOrder.zip short
  let lengthLengths := (List.range 19).map fun i => (ordered.lookup i).getD 0
  if !PrefixCode.isComplete lengthLengths then throw .malformed
  let count := literalCount + distanceCount
  let lengths := (← codeLengths (.ofLengths lengthLengths) count (count + 1) []).reverse
  let literals := lengths.take literalCount
  let distances := lengths.drop literalCount
  if !(PrefixCode.isComplete literals || PrefixCode.isSparse literals) then throw .malformed
  if !(PrefixCode.isComplete distances || PrefixCode.isSparse distances) then throw .malformed
  codedBlock (.ofLengths literals) (.ofLengths distances)

/-- The blocks up to the last. Every block takes three bits. -/
def blocks : Nat → Inflating Unit
  | 0 => throw .exhausted
  | steps + 1 => do
    let last ← bit
    match ← number 2 with
    | 0 => storedBlock
    | 1 => codedBlock (.ofLengths fixedLiterals) (.ofLengths fixedDistances)
    | 2 => describedBlock
    | _ => throw .malformed
    if last then return else blocks steps

end Inflating

/-- The data that a compressed stream stands for. Whatever follows its last block is ignored. -/
def inflate (bytes : ByteArray) : Except InflateFault ByteArray :=
  let bits := Inflating.bitsOf bytes
  match (Inflating.blocks (bits.length + 1)).run.run ⟨bits, .empty⟩ with
  | (.ok (), s) => .ok s.output
  | (.error fault, _) => .error fault

end DaxMigration.Archive
