import DaxMigration.Archive.Inflate

/-!
# What is wrong with a package
-/

namespace DaxMigration.Archive

/-- A package that cannot be opened, or whose members cannot be read. -/
inductive PackageFault where
  | unreadable
  | noEndRecord
  | directoryOffset
  | noDirectory
  | wideEndOffset
  | severalVolumes
  | noWideEnd
  | wideEndShort
  | wideEndLong
  | wideEndVolume
  | wideEndLength
  | wideEndCount
  | memberRecord
  | encrypted
  | method
  | locked
deriving DecidableEq

namespace PackageFault

def invalid (cause : String) : String :=
  "Invalid ZIP archive: invalid Zip archive: " ++ cause

def unsupported (cause : String) : String :=
  "Invalid ZIP archive: unsupported Zip archive: " ++ cause

def message : PackageFault → String
  | unreadable => "i/o error"
  | noEndRecord => invalid "Could not find EOCD"
  | directoryOffset => invalid "Invalid CDFH offset in EOCD"
  | noDirectory => invalid "No CDFH found"
  | wideEndOffset => invalid "Invalid EOCD64 Locator CD offset"
  | severalVolumes => invalid "Multi-disk ZIP files are not supported"
  | noWideEnd => invalid "Could not find EOCD64"
  | wideEndShort => invalid "Low EOCD64 record size"
  | wideEndLong => invalid "EOCD64 extends beyond EOCD64 locator"
  | wideEndVolume => invalid "Invalid EOCD64: inconsistency with Locator data"
  | wideEndLength => invalid "Invalid EOCD64: inconsistent length"
  | wideEndCount => invalid "Invalid EOCD64: inconsistent number of files"
  | memberRecord => invalid "Invalid local file header"
  | encrypted => unsupported "Password required to decrypt file"
  | method => unsupported "Compression method not supported"
  | locked => "provided password is incorrect"

end PackageFault

/-- A member that can be opened, but not read to its end. -/
inductive ContentFault where
  | stream (fault : InflateFault)
  | wrongChecksum
deriving DecidableEq

def ContentFault.message : ContentFault → String
  | stream fault => fault.message
  | wrongChecksum => "Invalid checksum"

end DaxMigration.Archive
