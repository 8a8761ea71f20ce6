import DaxMigration.Migration.Formulas
import DaxMigration.Text.Blank

/-!
# The measures file

One block for each converted formula, in order: what it was as comments, then its definition. A
formula that failed is left without a definition, and its candidate is a comment too.
-/

namespace DaxMigration.Migration

open Dax (Conversion)

namespace ConvertedWorkbook

/-- The name that a conversion is published under: that of the first field it could come from. -/
def measureName (c : ConvertedWorkbook) (conversion : Conversion) : String :=
  match c.workbook.calculatedFields.find? (·.name = conversion.fieldName) with
  | some field => field.displayName
  | none => Workbook.plainName conversion.fieldName

end ConvertedWorkbook

def unbroken (s : String) : String :=
  s.map fun c => if c = '\n' then ' ' else c

def comment (s : String) : String :=
  "// " ++ s

def measureBlock (name : String) (c : Conversion) : List String :=
  let heading := [comment (name ++ " (" ++ c.fieldRole ++ ")"),
    comment ("Original Tableau: " ++ unbroken c.source)] ++
    c.notes.map fun note => comment ("Note: " ++ note)
  let definition := "[" ++ name ++ "] = "
  if c.success then heading ++ [definition ++ c.dax, ""]
  else
    heading ++
      [comment "CONVERSION FAILED - Manual review required",
        comment ("Issues: " ++ ", ".intercalate c.issues)] ++
      (if c.dax = "" then [] else [comment ("Candidate: " ++ c.dax)]) ++
      [definition, ""]

def measuresHeading (c : ConvertedWorkbook) : List String :=
  [comment "DAX Measures converted from Tableau", comment ("Source: " ++ c.workbook.file.name),
    comment ("Conversion Success Rate: " ++ c.summary.successRate.fixedText 1 ++ "%"), ""]

def measuresText (c : ConvertedWorkbook) : String :=
  Text.ended (measuresHeading c ++
    c.conversions.flatMap fun conversion => measureBlock (c.measureName conversion) conversion)

end DaxMigration.Migration
