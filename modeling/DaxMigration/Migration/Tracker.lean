import DaxMigration.Migration.Error
import DaxMigration.Migration.Event

/-!
# Trackers

The accounts of one component: how many items it processed, converted, failed and skipped, and which
errors and warnings there were. Every entry in the accounts is told of in the journal.
-/

namespace DaxMigration.Migration

open Decimal (Binary64)

structure ConversionStats where
  processed : Nat := 0
  converted : Nat := 0
  failed : Nat := 0
  skipped : Nat := 0
deriving DecidableEq

def ConversionStats.members (s : ConversionStats) : List (String × Json) :=
  [("items_processed", .ofNat s.processed), ("items_converted", .ofNat s.converted),
    ("items_failed", .ofNat s.failed), ("items_skipped", .ofNat s.skipped)]

structure WarningInfo where
  message : String
  context : Details
  converter : String

def WarningInfo.toJson (w : WarningInfo) : Json :=
  .object [("message", .string w.message), ("context", .ofMembers w.context),
    ("converter", .string w.converter)]

structure Tracker where
  name : String
  stats : ConversionStats := {}
  errors : List ErrorInfo := []
  warnings : List WarningInfo := []
  /-- An operation has been opened. -/
  started : Bool := false
  /-- An operation has been closed since one was last opened. -/
  finished : Bool := false

/-- The accounts, without their history. -/
structure ConversionSummary where
  converter : String
  stats : ConversionStats
  /-- Measured once an operation has been opened and closed. -/
  duration : Option Binary64
  errors : List ErrorInfo
  warnings : List WarningInfo

namespace ConversionSummary

def successRate (s : ConversionSummary) : Binary64 :=
  if s.stats.processed = 0 then .zero false
  else .percentage s.stats.converted s.stats.processed

def toJson (s : ConversionSummary) : Json :=
  .object [("converter_type", .string s.converter), ("statistics", .object s.stats.members),
    ("duration_seconds", .ofOption .float s.duration), ("success_rate", .float s.successRate),
    ("error_count", .ofNat s.errors.length), ("warning_count", .ofNat s.warnings.length),
    ("errors", .ofList ErrorInfo.toJson s.errors),
    ("warnings", .ofList WarningInfo.toJson s.warnings)]

end ConversionSummary

/-- The accounts of a component at work, and the journal of the run. -/
structure Tracked where
  tracker : Tracker
  journal : Journal

abbrev Tracking := StateM Tracked

namespace Tracker

def summary (t : Tracker) : ConversionSummary :=
  ⟨t.name, t.stats, if t.started && t.finished then some (.zero false) else none, t.errors,
    t.warnings⟩

def reset (t : Tracker) : Tracker :=
  { name := t.name }

def closingStatus (t : Tracker) : Status :=
  if t.stats.failed = 0 then .completed
  else if 0 < t.stats.converted then .warning
  else .failed

end Tracker

namespace Tracking

def emit (e : Event) : Tracking Unit :=
  modify fun s => { s with journal := s.journal ++ [.event e] }

def log (l : Logging.Line) : Tracking Unit :=
  modify fun s => { s with journal := s.journal ++ [.line l] }

def update (f : Tracker → Tracker) : Tracking Unit :=
  modify fun s => { s with tracker := f s.tracker }

def tracker : Tracking Tracker :=
  return (← get).tracker

def updateStats (f : ConversionStats → ConversionStats) : Tracking Unit :=
  update fun t => { t with stats := f t.stats }

/-- Opens an operation, by default one of the component's own name. -/
def start (operation : Option String) : Tracking Unit := do
  update fun t => { t with started := true, finished := false }
  let t ← tracker
  emit (.component (operation.getD t.name) "conversion_process" .started .empty)

/-- Closes an operation and tells how it went. -/
def finish (operation : Option String) : Tracking Unit := do
  update fun t => { t with finished := true }
  let t ← tracker
  let operation := operation.getD t.name
  let details := KeyMap.ofList t.stats.members
  emit (.performance operation (.zero false) details)
  emit (.component operation "conversion_process" t.closingStatus details)

def logStep (step : String) (details : Details) : Tracking Unit := do
  emit (.component (← tracker).name step .inProgress details)

def addWarning (message : String) (context : Details) : Tracking Unit := do
  emit (.warning "conversion_warning" message context)
  update fun t => { t with warnings := t.warnings ++ [⟨message, context, t.name⟩] }

def skipped (item : String) : Tracking Unit := do
  emit (.warning "validation_warning" ("Input validation failed for " ++ item)
    (.ofList [("item_name", .string item)]))
  updateStats fun s => { s with skipped := s.skipped + 1 }

def converted (item : String) : Tracking Unit := do
  emit (.performance ((← tracker).name ++ "_convert_item") (.zero false)
    (.ofList [("item_name", .string item)]))
  updateStats fun s => { s with converted := s.converted + 1 }

/-- An unexpected error is put down with the item and the component it came from. -/
def failed (item : String) (e : Error) : Tracking Unit := do
  let t ← tracker
  let info :=
    if e.isClassified then ErrorInfo.ofError e
    else
      ((ErrorInfo.mk e.kind e.message .empty).withContext "item_name" item).withContext
        "converter" t.name
  emit (.error (if e.isClassified then info.kind else "unexpected_error") info.message
    info.context)
  update fun t => { t with errors := t.errors ++ [info] }
  updateStats fun s => { s with failed := s.failed + 1 }

def processed : Tracking Unit :=
  updateStats fun s => { s with processed := s.processed + 1 }

end Tracking

structure Converter (α β : Type) where
  supportedTypes : List String
  accepts : α → Bool
  convert : α → Tracking (Except Error β)

namespace Converter

variable {α β : Type}

def supports (c : Converter α β) (type_ : String) : Bool :=
  c.supportedTypes.contains type_

def handle (c : Converter α β) (input : α) (name : String) : Tracking (Option β) := do
  let outcome ←
    if c.accepts input then
      match ← c.convert input with
      | .ok output => do
        Tracking.converted name
        pure (some output)
      | .error e => do
        Tracking.failed name e
        pure none
    else do
      Tracking.skipped name
      pure none
  Tracking.processed
  return outcome

/-- Converts items in order; item `i` without a name is called `item_i`. -/
def batchItems (c : Converter α β) (names : List String) : Nat → List α → Tracking (List (Option β))
  | _, [] => return []
  | i, input :: rest => do
    let outcome ← c.handle input ((names[i]?).getD ("item_" ++ toString i))
    return outcome :: (← c.batchItems names (i + 1) rest)

def batch (c : Converter α β) (inputs : List α) (names : List String) :
    Tracking (List (Option β)) := do
  let operation := (← Tracking.tracker).name ++ "_batch"
  Tracking.start (some operation)
  let outcomes ← c.batchItems names 0 inputs
  Tracking.finish (some operation)
  return outcomes

end Converter

end DaxMigration.Migration
