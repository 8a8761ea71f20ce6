import DaxMigration.Archive.EndRecord
import DaxMigration.Archive.Extra

/-!
# Packages

A package holds its members one after the other, a directory of them, and a record at the end. The
record is looked for from the end, so a comment may stand behind it; the first that leads to a
directory in order counts. Of two members with one name the later counts, in the place of the
earlier.
-/

namespace DaxMigration.Archive

/-- One more than the largest offset that can be written. -/
def offsetLimit : Nat := 0x10000000000000000

/-- The member of an entry of the directory, and the offset past the entry. -/
def entry? (b : ByteArray) (shift offset : Nat) : Option (Member × Nat) := do
  guard (field? b offset 4 = some directoryMark)
  let flags ← field? b (offset + 8) 2
  let method ← field? b (offset + 10) 2
  let checksum ← field? b (offset + 16) 4
  let packedSize ← field? b (offset + 20) 4
  let size ← field? b (offset + 24) 4
  let nameLength ← field? b (offset + 28) 2
  let extraLength ← field? b (offset + 30) 2
  let commentLength ← field? b (offset + 32) 2
  let start ← field? b (offset + 42) 4
  let name ← slice? b (offset + 46) nameLength
  let extra ← slice? b (offset + 46 + nameLength) extraLength
  let comment ← slice? b (offset + 46 + nameLength + extraLength) commentLength
  let unicode := flags.testBit 11
  let m : Member := ⟨name, decodeName unicode name, decodeName unicode comment, flags.testBit 0,
    .ofNumber method, false, UInt32.ofNat checksum, size, packedSize, start⟩
  let m ← m.extended? extra
  guard (m.method ≠ .sealed ∨ m.locked)
  guard (m.start + shift < offsetLimit)
  return ({ m with start := m.start + shift },
    offset + 46 + nameLength + extraLength + commentLength)

def entries? (b : ByteArray) (shift : Nat) : Nat → Nat → Option (List Member)
  | 0, _ => some []
  | n + 1, offset => do
    let (m, past) ← entry? b shift offset
    return m :: (← entries? b shift n past)

def EndRecord.members? (b : ByteArray) (r : EndRecord) : Option (List Member) := do
  guard r.consistent
  entries? b r.shift r.count r.directory

/-- Puts a member in the place of an earlier one of its name, or at the end. -/
def replaceOrAdd (m : Member) : List Member → List Member
  | [] => [m]
  | earlier :: rest => if earlier.name = m.name then m :: rest else earlier :: replaceOrAdd m rest

/-- Tries the records at the positions in turn. `fault` is what to say if none is left: what is
wrong with the latest record, but that a record is cut off only if there was nothing before. -/
def membersFrom (b : ByteArray) (fault : PackageFault) : List Nat → Except PackageFault (List Member)
  | [] => .error fault
  | position :: rest =>
    match NarrowEnd.read? b position with
    | none => membersFrom b (if fault = .noEndRecord then .unreadable else fault) rest
    | some narrow =>
      match narrow.resolve b with
      | .error f => membersFrom b f rest
      | .ok r =>
        match r.members? b with
        | some ms => .ok (ms.foldl (fun seen m => replaceOrAdd m seen) [])
        | none => membersFrom b .noEndRecord rest

def members (b : ByteArray) : Except PackageFault (List Member) :=
  membersFrom b .noEndRecord (marksFrom b endMark 0 b.size).reverse

end DaxMigration.Archive
