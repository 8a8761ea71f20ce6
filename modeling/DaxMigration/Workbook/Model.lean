import DaxMigration.Json.Printer
import DaxMigration.Text.Blank

/-!
# Workbooks

Everything that is taken from a workbook document, in document order. Texts that a document does not
give are empty.
-/

namespace DaxMigration.Workbook

structure FileInfo where
  path : String := ""
  name : String := ""
  /-- The extension in lower case with its dot. -/
  extension : String := ""
  size : Nat := 0
deriving DecidableEq

structure Connection where
  class_ : String
  server : String
  dbname : String
  username : String
  authentication : String
  serverPort : String
  schema : String
  warehouse : String
  service : String
  filename : String
  directory : String
  /-- All attributes of the element. -/
  properties : KeyMap String
deriving DecidableEq

structure Calculation where
  class_ : String
  formula : String
  formulaText : String
deriving DecidableEq

structure Column where
  name : String
  caption : String
  datatype : String
  role : String
  type_ : String
  aggregation : String
  hidden : Bool
  calculation : Option Calculation
  defaultFormat : String
  semanticRole : String
  geographicRole : String
deriving DecidableEq

structure Relation where
  connection : String
  name : String
  table : String
  type_ : String
  join : String
  text : String
deriving DecidableEq

structure DataSource where
  name : String
  caption : String
  version : String
  inline_ : Bool
  connections : List Connection
  columns : List Column
  relations : List Relation
  /-- Aliases that have both a key and a value. -/
  aliases : KeyMap String
deriving DecidableEq

structure Filter where
  class_ : String
  column : String
deriving DecidableEq

structure SortRule where
  field : String
  ascending : Bool
deriving DecidableEq

structure View where
  datasources : List String := []
  /-- Field names by shelf; rows and columns are shelves too. -/
  shelves : KeyMap (List String) := .empty
  filters : List Filter := []
  sorts : List SortRule := []
  /-- The classes of its marks, without repeats. -/
  marks : List String := []
deriving DecidableEq

structure Worksheet where
  name : String
  view : View
deriving DecidableEq

structure DashboardSize where
  maxheight : String
  maxwidth : String
  minheight : String
  minwidth : String
deriving DecidableEq

structure Zone where
  id : String
  name : String
  type_ : String
  param : String
  x : String
  y : String
  w : String
  h : String
deriving DecidableEq

structure Dashboard where
  name : String
  size : Option DashboardSize
  zones : List Zone
deriving DecidableEq

structure ParameterMember where
  label : String
  value : String
deriving DecidableEq

structure Parameter where
  name : String
  caption : String
  datatype : String
  domainType : String
  value : String
  members : List ParameterMember
deriving DecidableEq

structure CalculatedField where
  name : String
  caption : String
  datatype : String
  role : String
  type_ : String
  formula : String
  class_ : String
  formulaText : String
deriving DecidableEq

def plainName (name : String) : String :=
  String.ofList (Text.dropTrailing (· == ']') (name.toList.dropWhile (· == '[')))

namespace CalculatedField

/-- The formula attribute, or the text of the element where that is blank. -/
def effectiveFormula (f : CalculatedField) : String :=
  if Text.allBlank f.formula.toList then String.ofList (Text.trim f.formulaText.toList)
  else f.formula

def displayName (f : CalculatedField) : String :=
  if f.caption = "" then plainName f.name else f.caption

end CalculatedField

end Workbook

structure Workbook where
  file : Workbook.FileInfo := {}
  version : String := ""
  datasources : List Workbook.DataSource := []
  worksheets : List Workbook.Worksheet := []
  dashboards : List Workbook.Dashboard := []
  parameters : List Workbook.Parameter := []
  calculatedFields : List Workbook.CalculatedField := []
  filters : List Workbook.Filter := []
deriving DecidableEq

def Workbook.allColumns (w : Workbook) : List Workbook.Column :=
  w.datasources.flatMap (·.columns)

end DaxMigration
