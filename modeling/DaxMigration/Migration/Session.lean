import DaxMigration.Migration.Event

/-!
# Sessions

The events of one run with what they amount to: counts, a rate of success, and a report that sorts
them into four logs.
-/

namespace DaxMigration.Migration

open Decimal (Binary64)

structure SessionStatistics where
  files : Nat
  components : Nat
  errors : Nat
  warnings : Nat
deriving DecidableEq

namespace SessionStatistics

def zero : SessionStatistics := ⟨0, 0, 0, 0⟩

def add (s : SessionStatistics) : Event → SessionStatistics
  | .fileAnalysis _ _ _ => { s with files := s.files + 1 }
  | .component _ _ .completed _ => { s with components := s.components + 1 }
  | .component _ _ .failed _ => { s with errors := s.errors + 1 }
  | .component _ _ .warning _ => { s with warnings := s.warnings + 1 }
  | .error _ _ _ => { s with errors := s.errors + 1 }
  | .warning _ _ _ => { s with warnings := s.warnings + 1 }
  | _ => s

def ofEvents (es : List Event) : SessionStatistics :=
  es.foldl add zero

/-- Components converted of all that succeeded or failed, in hundredths. -/
def successRate (s : SessionStatistics) : Binary64 :=
  let total := s.components + s.errors
  if total = 0 then .ofNat 100 else .percentage s.components total

def toJson (s : SessionStatistics) : Json :=
  .object [("files_processed", .ofNat s.files), ("components_converted", .ofNat s.components),
    ("errors_encountered", .ofNat s.errors), ("warnings_generated", .ofNat s.warnings),
    ("success_rate", .float s.successRate)]

def display (s : SessionStatistics) : String :=
  "\n".intercalate ["Files Processed: " ++ toString s.files,
    "Components Converted: " ++ toString s.components, "Errors: " ++ toString s.errors,
    "Warnings: " ++ toString s.warnings, "Success Rate: " ++ s.successRate.fixedText 1 ++ "%"]

end SessionStatistics

/-- Events sorted by what they tell of, each log in order. -/
structure SessionReport where
  statistics : SessionStatistics
  conversions : List Event
  errors : List Event
  performance : List Event
  validations : List Event

/-- The log of a report that an event goes into. -/
inductive ReportLog where
  | conversions
  | errors
  | performance
  | validations
deriving DecidableEq

def Event.reportLog : Event → ReportLog
  | .error _ _ _ => .errors
  | .performance _ _ _ => .performance
  | .validation _ _ _ _ => .validations
  | _ => .conversions

def SessionReport.ofEvents (es : List Event) : SessionReport where
  statistics := .ofEvents es
  conversions := es.filter fun e => e.reportLog == .conversions
  errors := es.filter fun e => e.reportLog == .errors
  performance := es.filter fun e => e.reportLog == .performance
  validations := es.filter fun e => e.reportLog == .validations

/-- A run is dated as a whole: all its records bear the time at which it began. -/
structure Session where
  id : String
  time : String

namespace Session

def record (s : Session) (e : Event) : Json :=
  .object (("timestamp", .string s.time) :: e.members)

def reportJson (s : Session) (r : SessionReport) : Json :=
  let log (es : List Event) := Json.ofList s.record es
  .object [("session_info", .object [("session_id", .string s.id), ("start_time", .string s.time),
      ("end_time", .string s.time), ("duration_seconds", .float (.zero false))]),
    ("statistics", r.statistics.toJson), ("conversion_log", log r.conversions),
    ("error_log", log r.errors), ("performance_log", log r.performance),
    ("validation_log", log r.validations)]

end Session

end DaxMigration.Migration
