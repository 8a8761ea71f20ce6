import DaxMigration.Dax.Splice
import DaxMigration.Dax.Verdict
import DaxMigration.Json.Basic

/-!
# Conversion of a formula

A formula is classified, converted by the rules of its kind, and judged. Nothing stops a conversion:
what goes wrong is told in its result.
-/

namespace DaxMigration.Dax

open Formula

inductive Attempt where
  | blank
  /-- Its constructs nest too deep. -/
  | tooDeep
  | converted (kind : Kind) (facts : Facts) (dax : List Char) (remarks : List Remark)

def attempt (t : Target) (formula : List Char) : Attempt :=
  if Text.allBlank formula then .blank
  else
    let ls := tokenize formula
    let kind := classify ls
    match (daxText t kind ls).run [] with
    | none => .tooDeep
    | some (dax, remarks) => .converted kind (facts ls) dax remarks

def lacking (remarks : List Remark) : List String :=
  (remarks.filterMap fun
    | .unsupported f => some (String.ofList f)
    | _ => none).eraseDups

def unsupportedText (function : String) : String :=
  "Unsupported function: " ++ function

def noteTexts (remarks : List Remark) : List String :=
  (remarks.filterMap fun
    | .unsupported _ => none
    | r => some r.text).eraseDups ++ (lacking remarks).map unsupportedText

structure Conversion where
  source : String
  dax : String
  fieldName : String
  fieldRole : String
  /-- None if the formula was never classified. -/
  kind : Option Kind
  functions : List String
  fields : List String
  success : Bool
  issues : List String
  notes : List String

namespace Conversion

def noFormula : String := "No formula found"

def nestingIssue : String :=
  "Failed to convert formula: Formula conversion error: Formula nesting exceeds " ++
    toString maxNesting ++ " levels"

def failed (formula name role issue : String) : Conversion :=
  ⟨formula, "", name, role, none, [], [], false, [issue], []⟩

def ofAttempt (formula name role : String) : Attempt → Conversion
  | .blank => failed formula name role noFormula
  | .tooDeep => failed formula name role nestingIssue
  | .converted kind facts dax remarks =>
    { source := formula
      dax := String.ofList dax
      fieldName := name
      fieldRole := role
      kind := some kind
      functions := facts.functions.map String.ofList
      fields := facts.fields.map String.ofList
      success := isValid dax
      issues := (Dax.issues dax).map Issue.text
      notes := noteTexts remarks }

def kindName (c : Conversion) : String :=
  (c.kind.map Kind.name).getD "unknown"

def toJson (c : Conversion) : Json :=
  .object [("original_formula", .string c.source), ("dax_formula", .string c.dax),
    ("field_name", .string c.fieldName), ("field_role", .string c.fieldRole),
    ("formula_type", .string c.kindName), ("functions_used", .strings c.functions),
    ("fields_referenced", .strings c.fields), ("conversion_success", .bool c.success),
    ("conversion_issues", .strings c.issues), ("conversion_notes", .strings c.notes)]

end Conversion

end DaxMigration.Dax
