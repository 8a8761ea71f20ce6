import DaxMigration.Json.Basic
import DaxMigration.Text.Case

/-!
# The mapping catalogue

Names on the one side and their counterparts on the other, in five documents: releases, functions,
visuals, data types and connections. Each document has built-in contents.
-/

namespace DaxMigration

inductive MappingDocument where
  | releases
  | functions
  | visuals
  | dataTypes
  | connections
deriving DecidableEq

namespace MappingDocument

def fileName : MappingDocument → String
  | releases => "tableau_mappings.json"
  | functions => "function_mappings.json"
  | visuals => "visual_mappings.json"
  | dataTypes => "data_type_mappings.json"
  | connections => "connection_mappings.json"

/-- In the order in which they are read. -/
def all : List MappingDocument :=
  [releases, functions, visuals, dataTypes, connections]

end MappingDocument

inductive DocumentSource where
  | builtin
  | file (path : String)
  /-- The file is there but could not be used. -/
  | fallback (path reason : String)

/-- What is known of one release. A release with an empty entry is supported. -/
structure ReleaseInfo where
  supported : Bool
  schemaVersion : String
  features : List String
deriving DecidableEq

def ReleaseInfo.plain : ReleaseInfo :=
  ⟨true, "", []⟩

/-- The visual of a chart type, for the type as a whole or for each subtype. -/
inductive ChartMapping where
  | visual (name : String)
  | subtypes (names : KeyMap String)

structure ConnectionMapping where
  connector : String
  supported : Bool
  /-- The other members of the entry. -/
  extra : KeyMap Json

structure Catalogue where
  releases : KeyMap ReleaseInfo
  /-- Functions by category. -/
  functions : KeyMap (KeyMap String)
  charts : KeyMap ChartMapping
  dataTypes : KeyMap String
  connections : KeyMap ConnectionMapping
  sources : List (MappingDocument × DocumentSource)

namespace Catalogue

def builtinReleases : KeyMap ReleaseInfo :=
  .ofList [("default", ⟨true, "18.1", ["basic_charts", "calculations", "dashboards"]⟩)]

def builtinFunctions : KeyMap (KeyMap String) :=
  .ofList
    [("aggregation_functions", .ofList [("SUM", "SUM"), ("AVG", "AVERAGE"), ("COUNT", "COUNT"),
      ("COUNTD", "DISTINCTCOUNT"), ("MIN", "MIN"), ("MAX", "MAX")]),
    ("string_functions", .ofList [("LEFT", "LEFT"), ("RIGHT", "RIGHT"), ("LEN", "LEN"),
      ("UPPER", "UPPER"), ("LOWER", "LOWER")]),
    ("date_functions", .ofList [("YEAR", "YEAR"), ("MONTH", "MONTH"), ("DAY", "DAY")]),
    ("logical_functions", .ofList [("IF", "IF"), ("AND", "AND"), ("OR", "OR")])]

def builtinCharts : KeyMap ChartMapping :=
  .ofList
    [("bar", .subtypes (.ofList [("horizontal", "clusteredBarChart"),
      ("vertical", "clusteredColumnChart"), ("default", "clusteredBarChart")])),
    ("line", .subtypes (.ofList [("default", "lineChart")])),
    ("scatter", .subtypes (.ofList [("default", "scatterChart")])),
    ("pie", .subtypes (.ofList [("default", "pieChart")]))]

def builtinDataTypes : KeyMap String :=
  .ofList [("integer", "Int64"), ("real", "Double"), ("string", "String"),
    ("datetime", "DateTime"), ("boolean", "Boolean")]

def builtinConnections : KeyMap ConnectionMapping :=
  .ofList [("sqlserver", ⟨"SqlServer", true, .empty⟩), ("oracle", ⟨"Oracle", true, .empty⟩),
    ("mysql", ⟨"MySQL", true, .empty⟩)]

def builtin : Catalogue where
  releases := builtinReleases
  functions := builtinFunctions
  charts := builtinCharts
  dataTypes := builtinDataTypes
  connections := builtinConnections
  sources := MappingDocument.all.map (·, .builtin)

end Catalogue

end DaxMigration
