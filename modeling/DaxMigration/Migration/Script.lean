import DaxMigration.Migration.Stage

/-!
# Scripted stages

A stage that does with a formula as its script says: it takes it or not, warns, fails, or yields
another formula.
-/

namespace DaxMigration.Migration

/-- What is done with a formula. One that is taken, with neither an error nor an output, stays as it
is. -/
structure Rule where
  accepts : Bool := true
  warnings : List String := []
  error : Option Error := none
  output : Option String := none

abbrev Script := String → Rule

namespace Script

def convert (script : Script) (formula : String) : Tracking (Except Error String) := do
  (script formula).warnings.forM fun message => Tracking.addWarning message .empty
  match (script formula).error with
  | some e => return .error e
  | none => return .ok ((script formula).output.getD formula)

def converter (script : Script) : Converter String String where
  supportedTypes := ["scripted"]
  accepts formula := (script formula).accepts
  convert := script.convert

def tracker : Tracker :=
  { name := "ScriptStage" }

end Script

def StageData.formula? : StageData → Option String
  | formula text => some text
  | _ => none

def Stage.scripted (name : String) (script : Script) : Stage :=
  .ofConverter name Script.tracker script.converter StageData.formula? StageData.formula

end DaxMigration.Migration
