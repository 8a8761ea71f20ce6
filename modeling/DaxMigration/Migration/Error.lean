import DaxMigration.Json.Basic
import DaxMigration.Workbook.LoadError

/-!
# Errors of a migration

Causes, their texts, and the form in which they are reported: a kind, a text and a context.
-/

namespace DaxMigration.Migration

open Workbook (LoadError)

inductive Error where
  | load (e : LoadError)
  | directoryNotFound (path : String)
  | formulaConversion (message : String) (source : Option String)
  | unsupportedFunction (function : String)
  | daxSyntax (dax : String) (errors : List String)
  | validation (message : String) (component : Option String) (errors : List String)
  | dataValidation (message : String) (field expected actual : Option String)
  | configuration (message : String) (file : Option String)
  | io (message : String)
  | json (message : String)
  | unexpected (message : String)
deriving DecidableEq

namespace Error

def message : Error → String
  | load e => e.message
  | directoryNotFound path => "Directory not found: " ++ path
  | formulaConversion message _ => "Formula conversion error: " ++ message
  | unsupportedFunction function => "Unsupported Tableau function: " ++ function
  | daxSyntax _ errors => "Invalid DAX syntax: " ++ "; ".intercalate errors
  | validation message _ _ => "Validation error: " ++ message
  | dataValidation message _ _ _ => "Data validation error: " ++ message
  | configuration message _ => "Configuration error: " ++ message
  | io message => "IO error: " ++ message
  | json message => "JSON error: " ++ message
  | unexpected message => "Unexpected error: " ++ message

def kind : Error → String
  | load (.fileNotFound _) => "FileProcessing"
  | load (.xml _) => "CorruptedFile"
  | load e => e.kind
  | directoryNotFound _ => "FileProcessing"
  | formulaConversion _ _ => "FormulaConversion"
  | unsupportedFunction _ => "UnsupportedFunction"
  | daxSyntax _ _ => "DaxSyntax"
  | validation _ _ _ => "Validation"
  | dataValidation _ _ _ _ => "DataValidation"
  | configuration _ _ => "Configuration"
  | io _ => "Io"
  | json _ => "Json"
  | unexpected _ => "Unexpected"

/-- Errors that are none of the migration's own are reported as unexpected. -/
def isClassified : Error → Bool
  | io _ | json _ | unexpected _ | load (.io _) | load (.json _) => false
  | _ => true

/-- Other items can still be converted after this error. -/
def isRecoverable : Error → Bool
  | load _ | directoryNotFound _ | configuration _ _ => false
  | _ => true

/-- The details of an error; those that are not known are left out. -/
def context (e : Error) : KeyMap Json :=
  let details : List (String × Option Json) :=
    match e with
    | load (.unsupportedFileType extension supported) =>
      [("file_type", some (.string extension)), ("supported_types", some (.strings supported))]
    | load (.corrupted path reason) =>
      [("file_path", some (.string path)), ("reason", some (.string reason))]
    | load (.fileNotFound path) | directoryNotFound path => [("file_path", some (.string path))]
    | formulaConversion _ source => [("original_formula", source.map .string)]
    | unsupportedFunction function => [("tableau_function", some (.string function))]
    | daxSyntax dax errors =>
      [("dax_formula", some (.string dax)), ("syntax_errors", some (.strings errors))]
    | validation _ component errors =>
      [("component", component.map .string), ("validation_errors", some (.strings errors))]
    | dataValidation _ field expected actual =>
      [("validation_type", some (.string "data_validation")), ("field_name", field.map .string),
        ("expected_value", expected.map .string), ("actual_value", actual.map .string)]
    | configuration _ file => [("config_file", file.map .string)]
    | _ => []
  .ofList (details.filterMap fun (k, v) => v.map (k, ·))

end Error

structure ErrorInfo where
  kind : String
  message : String
  context : KeyMap Json

namespace ErrorInfo

def ofError (e : Error) : ErrorInfo :=
  ⟨e.kind, e.message, e.context⟩

def withContext (i : ErrorInfo) (key value : String) : ErrorInfo :=
  { i with context := i.context.insert key (.string value) }

def toJson (i : ErrorInfo) : Json :=
  .object [("exception_type", .string i.kind), ("message", .string i.message),
    ("context", .ofMembers i.context)]

/-- The kinds of the errors with their numbers, in order of first appearance. -/
def countKinds (es : List ErrorInfo) : List (String × Nat) :=
  let kinds := es.map ErrorInfo.kind
  kinds.eraseDups.map fun k => (k, kinds.count k)

def summary (es : List ErrorInfo) : String :=
  if es.isEmpty then "No errors"
  else
    toString es.length ++ " errors: " ++
      ", ".intercalate ((countKinds es).map fun (k, n) => toString n ++ " " ++ k)

end ErrorInfo

end DaxMigration.Migration
