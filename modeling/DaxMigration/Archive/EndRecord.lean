import DaxMigration.Archive.Fault
import DaxMigration.Archive.Field

/-!
# End records

The record at the end of a package says where the directory is and how many members there are. If
one of its numbers does not fit, a locator before it leads to a wide record with the same content.
Anything may stand before the package: where a record is found tells how far all offsets are moved.
-/

namespace DaxMigration.Archive

/-- What the end of a package says: `directory` is where the directory begins, and `shift` how far
offsets are moved. A record that is not `consistent` was meant for something else. -/
structure EndRecord where
  count : Nat
  directory : Nat
  shift : Nat
  consistent : Bool

/-- The record at the very end. The directory it names may have been moved. -/
structure NarrowEnd where
  position : Nat
  consistent : Bool
  countHere : Nat
  count : Nat
  directory : Nat

/-- The number of some bytes, all of which must be there. -/
def field (b : ByteArray) (offset width : Nat) : Except PackageFault Nat :=
  match field? b offset width with
  | some n => .ok n
  | none => .error .unreadable

/-- Says where the wide record is to be looked for, on which volume, and how many volumes there are. -/
structure Locator where
  position : Nat
  volume : Nat
  target : Nat
  volumes : Nat

def Locator.read? (b : ByteArray) (position : Nat) : Option Locator := do
  guard (20 ≤ position)
  let start := position - 20
  guard (field? b start 4 = some locatorMark)
  return ⟨start, ← field? b (start + 4) 4, ← field? b (start + 8) 8, ← field? b (start + 16) 4⟩

/-- The size of the smallest entry of a directory. -/
def entrySize : Nat := 46

namespace Locator

def wideRecord (l : Locator) (b : ByteArray) (wide : Nat) : Except PackageFault EndRecord := do
  let size ← field b (wide + 4) 8
  let maker ← field b (wide + 12) 2
  let needed ← field b (wide + 14) 2
  let volume ← field b (wide + 16) 4
  let directoryVolume ← field b (wide + 20) 4
  let countHere ← field b (wide + 24) 8
  let count ← field b (wide + 32) 8
  let directory ← field b (wide + 48) 8
  if size < 44 then throw .wideEndShort
  if l.position - wide < size + 12 then throw .wideEndLong
  if directoryVolume ≠ l.volume then throw .wideEndVolume
  if size + 12 ≠ l.position - wide then throw .wideEndLength
  if wide < count * entrySize + directory then throw .wideEndCount
  let shift := wide - l.target
  return ⟨count, directory + shift, shift,
    countHere ≤ count && needed ≤ maker && volume == directoryVolume⟩

/-- The first of the wide records that is in order, or what is wrong with the last of them. -/
def firstRecord (l : Locator) (b : ByteArray) (fault : PackageFault) :
    List Nat → Except PackageFault EndRecord
  | [] => .error fault
  | wide :: rest =>
    match l.wideRecord b wide with
    | .ok r => .ok r
    | .error f => firstRecord l b f rest

def endRecord (l : Locator) (b : ByteArray) : Except PackageFault EndRecord := do
  if l.position ≤ l.target then throw .wideEndOffset
  if 1 < l.volumes then throw .severalVolumes
  l.firstRecord b .noWideEnd (marksFrom b wideEndMark l.target l.position)

end Locator

/-- What the narrow record at a position says, with the comment behind it. -/
def NarrowEnd.read? (b : ByteArray) (position : Nat) : Option NarrowEnd := do
  let volume ← field? b (position + 4) 2
  let directoryVolume ← field? b (position + 6) 2
  let countHere ← field? b (position + 8) 2
  let count ← field? b (position + 10) 2
  let directory ← field? b (position + 16) 4
  let comment ← field? b (position + 20) 2
  guard (position + 22 + comment ≤ b.size)
  return ⟨position, volume == directoryVolume, countHere, count, directory⟩

namespace NarrowEnd

/-- Some number does not fit. -/
def isOverfull (r : NarrowEnd) : Bool :=
  r.count == 0xFFFF || r.directory == 0xFFFFFFFF

/-- The end that a narrow record stands for by itself. -/
def alone (r : NarrowEnd) (b : ByteArray) : Except PackageFault EndRecord := do
  if r.count = 0 then
    let shift := r.position - r.directory
    return ⟨r.countHere, r.directory + shift, shift, r.consistent⟩
  if r.position ≤ r.directory then throw .directoryOffset
  match (marksFrom b directoryMark r.directory r.position).head? with
  | some found => return ⟨r.countHere, found, found - r.directory, r.consistent⟩
  | none => throw .noDirectory

/-- The end that a narrow record stands for, with a wide one if it is overfull and has a locator. -/
def resolve (r : NarrowEnd) (b : ByteArray) : Except PackageFault EndRecord :=
  match if r.isOverfull then Locator.read? b r.position else none with
  | some l => l.endRecord b
  | none => r.alone b

end NarrowEnd

end DaxMigration.Archive
