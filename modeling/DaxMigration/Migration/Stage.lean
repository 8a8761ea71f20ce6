import DaxMigration.Migration.Documents
import DaxMigration.Migration.Formulas

/-!
# Stages

What flows through a pipeline, and a converter as a stage of one: it takes the data of one kind and
counts all other data as skipped.
-/

namespace DaxMigration.Migration

inductive StageData where
  | path (path : String)
  | formula (text : String)
  | field (f : FieldInput)
  | workbook (w : Workbook)
  | converted (c : ConvertedWorkbook)
  | conversion (c : Dax.Conversion)

namespace StageData

def kind : StageData → String
  | path _ => "path"
  | formula _ => "formula"
  | field _ => "field"
  | workbook _ => "workbook"
  | converted _ => "converted_workbook"
  | conversion _ => "conversion_result"

def toJson : StageData → Json
  | path p => .string p
  | formula text => .string text
  | field f => f.toJson
  | workbook w => w.toJson
  | converted c => c.toJson
  | conversion c => c.toJson

def path? : StageData → Option String
  | path p => some p
  | _ => none

def formulaInput? : StageData → Option FormulaInput
  | formula text => some (.formula text)
  | field f => some (.field f)
  | workbook w => some (.workbook w)
  | _ => none

def converted? : StageData → Option ConvertedWorkbook
  | converted c => some c
  | _ => none

def ofOutput : ConversionOutput → StageData
  | .single c => conversion c
  | .workbook c => converted c

end StageData

/-- A step of a pipeline. A run begins with fresh accounts and yields nothing where there is no
output. -/
structure Stage where
  name : String
  tracker : Tracker
  run : StageData → Tracking (Option StageData)

namespace Stage

/-- What happens to data that a stage does not take. -/
def decline (name : String) (data : StageData) : Tracking (Option StageData) := do
  Tracking.log ⟨.warn, "engine::pipeline",
    "Stage " ++ name ++ " cannot take " ++ data.kind ++ " data; skipped"⟩
  Tracking.skipped name
  Tracking.processed
  return none

def ofConverter {α β : Type} (name : String) (tracker : Tracker) (c : Converter α β)
    (take : StageData → Option α) (give : β → StageData) : Stage where
  name := name
  tracker := tracker
  run data :=
    match take data with
    | some input => do return (← c.handle input name).map give
    | none => decline name data

def documents (name : String) (catalogue : Catalogue) (disk : Logging.Disk) : Stage :=
  .ofConverter name Documents.tracker (Documents.converter catalogue disk) StageData.path?
    StageData.workbook

def formulas (name : String) (t : Dax.Target) : Stage :=
  .ofConverter name Formulas.tracker (Formulas.converter t) StageData.formulaInput?
    StageData.ofOutput

end Stage

end DaxMigration.Migration
