import DaxMigration.Logging.Line
import DaxMigration.Storage.FileTree
import DaxMigration.Text.Blank

/-!
# Log files

A log file grows with every line that is said. It may be a file that is read or replaced as well, so
what the files are depends on what has been said so far.
-/

namespace DaxMigration.Logging

open Storage (FileTree Location)

/-- An open log file, with the number of lines and of bytes that were written to it. -/
structure LogFile where
  location : Location
  verbosity : Verbosity
  lines : Nat := 0
  size : Nat := 0

/-- The lines that a log file lacks, where `said` is all that has been said. -/
def LogFile.unwritten (log : LogFile) (said : List Line) : List String :=
  (log.verbosity.render said).drop log.lines

/-- Files, of which one may be a log. -/
structure Disk where
  files : FileTree
  log : Option LogFile := none

namespace Disk

/-- The disk once the log file has all that has been said. -/
def after (d : Disk) (said : List Line) : Disk :=
  match d.log with
  | none => d
  | some log =>
    match log.unwritten said with
    | [] => d
    | fresh =>
      let bytes := (Text.ended fresh).toUTF8
      { files := d.files.overwrite log.location log.size bytes
        log := some { log with lines := log.lines + fresh.length, size := log.size + bytes.size } }

theorem after_of_log_eq_none {d : Disk} (h : d.log = none) (said : List Line) :
    d.after said = d := by
  simp [after, h]

end Disk

end DaxMigration.Logging
