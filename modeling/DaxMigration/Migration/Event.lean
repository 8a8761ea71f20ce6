import DaxMigration.Json.Basic
import DaxMigration.Logging.Line

/-!
# Events

What happens during a migration, as values; their JSON form; and the log lines that tell of them.
-/

namespace DaxMigration.Migration

open Decimal (Binary64)
open Logging (Level Line)

inductive Status where
  | started
  | inProgress
  | completed
  | failed
  | skipped
  | warning
deriving DecidableEq

namespace Status

def name : Status → String
  | started => "STARTED"
  | inProgress => "IN_PROGRESS"
  | completed => "COMPLETED"
  | failed => "FAILED"
  | skipped => "SKIPPED"
  | warning => "WARNING"

def ofName? (name : String) : Option Status :=
  [started, inProgress, completed, failed, skipped, warning].find? (·.name == name)

end Status

abbrev Details := KeyMap Json

inductive Event where
  | fileAnalysis (path type_ : String) (size : Nat)
  | component (type_ name : String) (status : Status) (details : Details)
  | formula (source converted : String) (success : Bool) (issues : List String)
  | visual (source target : String) (success : Bool) (notes : List String)
  | dataSource (source target : String) (details : Details) (success : Bool)
  | performance (operation : String) (seconds : Binary64) (details : Details)
  | validation (type_ component : String) (passed : Bool) (issues : List String)
  | error (kind message : String) (context : Details)
  | warning (kind message : String) (context : Details)

namespace Event

def action : Event → String
  | fileAnalysis _ _ _ => "file_analysis"
  | component _ _ _ _ => "component_conversion"
  | formula _ _ _ _ => "formula_conversion"
  | visual _ _ _ _ => "visual_mapping"
  | dataSource _ _ _ _ => "data_source_conversion"
  | performance _ _ _ => "performance_metric"
  | validation _ _ _ _ => "validation_result"
  | error _ _ _ => "error"
  | warning _ _ _ => "warning"

def members (e : Event) : List (String × Json) :=
  ("action", .string e.action) ::
    match e with
    | fileAnalysis path type_ size =>
      [("file_path", .string path), ("file_type", .string type_), ("file_size", .ofNat size)]
    | component type_ name status details =>
      [("component_type", .string type_), ("component_name", .string name),
        ("status", .string status.name), ("details", .ofMembers details)]
    | formula source converted success issues =>
      [("original_formula", .string source), ("converted_formula", .string converted),
        ("success", .bool success), ("issues", .strings issues)]
    | visual source target success notes =>
      [("tableau_visual", .string source), ("powerbi_visual", .string target),
        ("mapping_success", .bool success), ("compatibility_notes", .strings notes)]
    | dataSource source target details success =>
      [("source_type", .string source), ("target_type", .string target),
        ("connection_details", .ofMembers details), ("success", .bool success)]
    | performance operation seconds details =>
      [("operation", .string operation), ("duration_seconds", .float seconds),
        ("details", .ofMembers details)]
    | validation type_ part passed issues =>
      [("validation_type", .string type_), ("component", .string part),
        ("passed", .bool passed), ("issues", .strings issues)]
    | error kind message context =>
      [("error_type", .string kind), ("message", .string message),
        ("context", .ofMembers context)]
    | warning kind message context =>
      [("warning_type", .string kind), ("message", .string message),
        ("context", .ofMembers context)]

def toJson (e : Event) : Json :=
  .object e.members

/-- A text cut to so many characters. -/
def preview (limit : Nat) (s : String) : String :=
  if limit < s.toList.length then String.ofList (s.toList.take limit) ++ "..." else s

def logTarget : String := "migration"

def say (level : Level) (message : String) : Line :=
  ⟨level, logTarget, message⟩

def logLines : Event → List Line
  | fileAnalysis path type_ size =>
    [say .info ("Analyzing file: " ++ path),
      say .info ("File type: " ++ type_ ++ ", size: " ++ toString size ++ " bytes")]
  | component type_ name status _ =>
    match status with
    | .completed => [say .info ("Converted " ++ type_ ++ ": " ++ name)]
    | .failed => [say .error ("Failed to convert " ++ type_ ++ ": " ++ name)]
    | .warning => [say .warn ("Warning in " ++ type_ ++ ": " ++ name)]
    | _ => [say .info (status.name ++ ": " ++ type_ ++ " - " ++ name)]
  | formula source _ success issues =>
    if success then [say .info ("Formula converted: " ++ preview 50 source)]
    else
      say .error ("Formula conversion failed: " ++ preview 50 source) ::
        issues.map fun i => say .error ("   Issue: " ++ i)
  | visual source target success notes =>
    (if success then say .info ("Visual mapped: " ++ source ++ " -> " ++ target)
      else say .warn ("Visual mapping issue: " ++ source)) ::
      notes.map fun n => say .info ("   Note: " ++ n)
  | dataSource source target _ success =>
    if success then [say .info ("Data source converted: " ++ source ++ " -> " ++ target)]
    else [say .error ("Data source conversion failed: " ++ source)]
  | performance operation seconds _ =>
    [say .debug (operation ++ ": " ++ seconds.fixedText 2 ++ "s")]
  | validation type_ part passed issues =>
    if passed then [say .info ("Validation passed: " ++ type_ ++ " - " ++ part)]
    else
      say .error ("Validation failed: " ++ type_ ++ " - " ++ part) ::
        issues.map fun i => say .error ("   Issue: " ++ i)
  | error kind message _ => [say .error (kind ++ ": " ++ message)]
  | warning kind message _ => [say .warn (kind ++ ": " ++ message)]

end Event

/-- One entry of what a run leaves behind: an event, or a line that only the log gets. -/
inductive JournalEntry where
  | event (e : Event)
  | line (l : Line)

/-- In the order of happening. -/
abbrev Journal := List JournalEntry

namespace Journal

def events (j : Journal) : List Event :=
  j.filterMap fun
    | .event e => some e
    | .line _ => none

/-- The log of a run that tells of every event. -/
def log (j : Journal) : List Line :=
  j.flatMap fun
    | .event e => e.logLines
    | .line l => [l]

end Journal

end DaxMigration.Migration
