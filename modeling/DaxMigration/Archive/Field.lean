/-!
# Fields of records

The records of a package begin with a mark of four bytes. Their fields are numbers, written the
lowest byte first, and pieces of some length.
-/

namespace DaxMigration.Archive

/-- The number that a few bytes from an offset on spell. -/
def field? (b : ByteArray) (offset : Nat) : Nat → Option Nat
  | 0 => some 0
  | n + 1 => do
    let low ← b[offset]?
    let high ← field? b (offset + 1) n
    return low.toNat + 0x100 * high

def slice? (b : ByteArray) (offset length : Nat) : Option ByteArray :=
  if offset + length ≤ b.size then some (b.extract offset (offset + length)) else none

/-- What there is of a piece. -/
def sliceOrLess (b : ByteArray) (offset length : Nat) : ByteArray :=
  b.extract offset (min (offset + length) b.size)

def memberMark : Nat := 0x04034B50

def directoryMark : Nat := 0x02014B50

def endMark : Nat := 0x06054B50

def wideEndMark : Nat := 0x06064B50

def locatorMark : Nat := 0x07064B50

def marksFrom (b : ByteArray) (mark first past : Nat) : List Nat :=
  (List.range' first (past - first)).filter fun i => i + 4 ≤ past && field? b i 4 == some mark

end DaxMigration.Archive
