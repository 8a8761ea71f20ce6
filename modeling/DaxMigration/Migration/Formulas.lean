import DaxMigration.Catalogue.Lookup
import DaxMigration.Dax.Conversion
import DaxMigration.Migration.Tracker
import DaxMigration.Workbook.Encoding

/-!
# Converting formulas

The component that takes formulas, fields and whole workbooks. Its journal tells of every formula
that is not blank, and its accounts warn of every function that has no counterpart.
-/

namespace DaxMigration.Migration

open Dax (Conversion)
open Decimal (Binary64)

/-- The table and the column of rows that stand in where a formula names none. -/
structure FormulaSettings where
  table : String := "Sales"
  orderColumn : String := "OrderDate"
deriving DecidableEq

def FormulaSettings.target (s : FormulaSettings) (c : Catalogue) : Dax.Target :=
  c.target s.table s.orderColumn

def FormulaSettings.toJson (s : FormulaSettings) : Json :=
  .object [("table", .string s.table), ("order_column", .string s.orderColumn)]

structure FieldInput where
  formula : Option String := none
  calculation : Option String := none
  name : Option String := none
  role : Option String := none
deriving DecidableEq

namespace FieldInput

/-- The formula, or the calculation where that is missing or empty. -/
def formulaText (f : FieldInput) : String :=
  match f.formula with
  | some text => if text = "" then f.calculation.getD "" else text
  | none => f.calculation.getD ""

def toJson (f : FieldInput) : Json :=
  .object [("formula", .ofOption .string f.formula),
    ("calculation", .ofOption .string f.calculation), ("name", .ofOption .string f.name),
    ("role", .ofOption .string f.role)]

/-- An absent field is as good as null. -/
def optionalText? : Option Json → Option (Option String)
  | none | some .null => some none
  | some (.string s) => some (some s)
  | some _ => none

def ofFields? (field : Nat → String → Option Json) : Option FieldInput :=
  return ⟨← optionalText? (field 0 "formula"), ← optionalText? (field 1 "calculation"),
    ← optionalText? (field 2 "name"), ← optionalText? (field 3 "role")⟩

/-- From an object, or from an array of the fields in order. -/
def ofJson? : Json → Option FieldInput
  | .object members => ofFields? fun _ name => members.lookup name
  | .array items => if items.length ≤ 4 then ofFields? fun i _ => items[i]? else none
  | _ => none

end FieldInput

inductive FormulaInput where
  | formula (text : String)
  | field (f : FieldInput)
  | workbook (w : Workbook)

structure BatchSummary where
  total : Nat
  successful : Nat
deriving DecidableEq

namespace BatchSummary

def failed (s : BatchSummary) : Nat :=
  s.total - s.successful

def successRate (s : BatchSummary) : Binary64 :=
  if s.total = 0 then .zero false else .percentage s.successful s.total

def toJson (s : BatchSummary) : Json :=
  .object [("total_fields", .ofNat s.total), ("successful_conversions", .ofNat s.successful),
    ("failed_conversions", .ofNat s.failed), ("success_rate", .float s.successRate)]

end BatchSummary

structure ConvertedWorkbook where
  workbook : Workbook
  conversions : List Conversion

namespace ConvertedWorkbook

def summary (c : ConvertedWorkbook) : BatchSummary :=
  ⟨c.conversions.length, c.conversions.countP (·.success)⟩

def toJson (c : ConvertedWorkbook) : Json :=
  .object (c.workbook.members ++
    [("converted_formulas", .ofList Conversion.toJson c.conversions),
      ("conversion_summary", c.summary.toJson)])

end ConvertedWorkbook

inductive ConversionOutput where
  | single (c : Conversion)
  | workbook (w : ConvertedWorkbook)

namespace Formulas

def defaultName : String := "Unknown"

def defaultRole : String := "measure"

def orDefault (default text : String) : String :=
  if text = "" then default else text

def convertFormula (t : Dax.Target) (formula name role : String) : Tracking Conversion := do
  let attempt := Dax.attempt t formula.toList
  let conversion := Conversion.ofAttempt formula name role attempt
  match attempt with
  | .blank => return conversion
  | .tooDeep | .converted _ _ _ _ =>
    Tracking.logStep "formula_analysis" (.ofList [("field_name", .string name),
      ("original_formula", .string (Event.preview 100 formula)), ("field_role", .string role)])
    if let .converted _ _ _ remarks := attempt then
      for function in Dax.lacking remarks do
        Tracking.addWarning (Dax.unsupportedText function)
          (.ofList [("tableau_function", .string function), ("field_name", .string name)])
    Tracking.emit (.formula formula conversion.dax conversion.success conversion.issues)
    return conversion

def convertField (t : Dax.Target) (f : Workbook.CalculatedField) : Tracking Conversion :=
  convertFormula t f.effectiveFormula (orDefault defaultName f.name) (orDefault defaultRole f.role)

def convertWorkbook (t : Dax.Target) (w : Workbook) : Tracking ConvertedWorkbook := do
  Tracking.logStep "batch_formula_conversion"
    (.ofList [("total_calculated_fields", .ofNat w.calculatedFields.length)])
  return ⟨w, ← w.calculatedFields.mapM (convertField t)⟩

def accepts : FormulaInput → Bool
  | .formula text => !Text.allBlank text.toList
  | .field f => f.formula.isSome || f.calculation.isSome
  | .workbook _ => true

def convert (t : Dax.Target) : FormulaInput → Tracking ConversionOutput
  | .formula text => return .single (← convertFormula t text defaultName defaultRole)
  | .field f => do
    let name := f.name.getD defaultName
    let role := f.role.getD defaultRole
    return .single (← convertFormula t f.formulaText name role)
  | .workbook w => return .workbook (← convertWorkbook t w)

def converter (t : Dax.Target) : Converter FormulaInput ConversionOutput where
  supportedTypes := ["string_formula", "calculated_field", "lod_expression", "table_calculation"]
  accepts := accepts
  convert input := return .ok (← convert t input)

def tracker : Tracker :=
  { name := "FormulaConverter" }

end Formulas

end DaxMigration.Migration
