import DaxMigration.Archive.Member

/-!
# Extra fields

An entry of the directory may carry further fields, each with its kind and length: sizes too large
for the entry itself, times, the strength of an encryption, a name or comment in Unicode. Fields
that end too early are ignored from there on; one that breaks a rule of its kind makes the entry
unusable.
-/

namespace DaxMigration.Archive

inductive ExtraHalt where
  | cut
  | broken
deriving DecidableEq

/-- The member as far as it is known, and the place in its extra fields. -/
structure ExtraScan where
  member : Member
  offset : Nat

/-- Reading in the bytes of the extra fields. What a field has told before it ends is kept. -/
abbrev Scanning := ReaderT ByteArray (ExceptT ExtraHalt (StateM ExtraScan))

namespace Scanning

def piece (length : Nat) : Scanning ByteArray := do
  let offset := (← get).offset
  match slice? (← read) offset length with
  | some bytes => modify fun s => { s with offset := offset + length }; return bytes
  | none => throw .cut

def number (width : Nat) : Scanning Nat := do
  return (field? (← piece width) 0 width).getD 0

def require (rule : Bool) : Scanning Unit :=
  if rule then return else throw .broken

def update (f : Member → Member) : Scanning Unit :=
  modify fun s => { s with member := f s.member }

/-- What stands in an entry for a number that is too large for it. -/
def outsized : Nat := 0xFFFFFFFF

/-- A number that a field of `length` bytes replaces, if it has room for all or the number needs it. -/
def replaced (length value : Nat) : Scanning (Option Nat) := do
  if 24 ≤ length || value = outsized then return some (← number 8) else return none

def sizes (length : Nat) : Scanning Unit := do
  let start := (← get).offset
  if let some n ← replaced length (← get).member.size then
    update fun m => { m with size := n }
  if let some n ← replaced length (← get).member.packedSize then
    update fun m => { m with packedSize := n }
  if let some n ← replaced length (← get).member.start then
    update fun m => { m with start := n }
  let taken := (← get).offset - start
  require (taken ≤ length)
  let _ ← piece (length - taken)

def fileTimes (length : Nat) : Scanning Unit := do
  require (length = 32)
  let _ ← piece 4
  require ((← number 2) = 1)
  require ((← number 2) = 24)
  let _ ← piece 24

/-- Times in seconds, of which the flags say which there are. -/
def timestamps (length : Nat) : Scanning Unit := do
  let flags ← number 1
  let count := ((List.range 8).filter flags.testBit).length
  require (length = 5 || length = 1 + 4 * count)
  if flags.testBit 0 || length = 5 then let _ ← piece 4
  if flags.testBit 1 && 5 < length then let _ ← piece 4
  if flags.testBit 2 && 5 < length then let _ ← piece 4

/-- The strength of an encryption, and how the content was packed before it. -/
def encryption (length : Nat) : Scanning Unit := do
  require (length = 7)
  let version ← number 2
  let vendor ← number 2
  let strength ← number 1
  let method ← number 2
  require (vendor = 0x4541)
  require (version = 1 || version = 2)
  require (1 ≤ strength && strength ≤ 3)
  update fun m => { m with locked := true, method := .ofNumber method }

/-- A text in Unicode for bytes that it names by their checksum. -/
def unicode (length : Nat) (bytes : ByteArray) : Scanning (ByteArray × String) := do
  let _ ← piece 1
  let check ← number 4
  require (5 ≤ length)
  let text ← piece (length - 5)
  require (checksum bytes = UInt32.ofNat check)
  match Text.decodeUtf8 text.toList with
  | .ok cs => return (text, String.ofList cs)
  | .error _ => throw .broken

def extraField : Scanning Unit := do
  let kind ← number 2
  let length ← number 2
  match kind with
  | 0x0001 => sizes length
  | 0x000A => fileTimes length
  | 0x9901 => encryption length
  | 0x5455 => timestamps length
  | 0x6375 =>
    let (_, text) ← unicode length (← get).member.comment.toUTF8
    update fun m => { m with comment := text }
  | 0x7075 =>
    let (raw, text) ← unicode length (← get).member.rawName
    update fun m => { m with rawName := raw, name := text }
  | _ => let _ ← piece length

/-- The fields up to the end of the bytes. Every field takes at least four. -/
def extraFields : Nat → Scanning Unit
  | 0 => return
  | steps + 1 => do
    if (← get).offset < (← read).size then
      extraField
      extraFields steps

end Scanning

/-- The member with all that its extra fields say; none if one of them breaks a rule. -/
def Member.extended? (m : Member) (extra : ByteArray) : Option Member :=
  match ((Scanning.extraFields extra.size).run extra).run.run ⟨m, 0⟩ with
  | (.error .broken, _) => none
  | (_, s) => some s.member

end DaxMigration.Archive
