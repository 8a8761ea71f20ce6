import DaxMigration.Migration.Event

/-!
# Reading events

An event is read from the JSON it is written as: an object that names its action and holds every
field of it, or an array of the action and the fields in order. Members that are no field are passed
over.
-/

namespace DaxMigration.Migration.Event

def text? : Json → Option String
  | .string s => some s
  | _ => none

def flag? : Json → Option Bool
  | .bool b => some b
  | _ => none

/-- A size is an integer that is not negative. -/
def size? : Json → Option Nat
  | .integer n => if 0 ≤ n then some n.toNat else none
  | _ => none

/-- Seconds may be written as an integer or not. -/
def seconds? : Json → Option Decimal.Binary64
  | .float x => some x
  | .integer n => some (Decimal.Binary64.ofRatio (n < 0) n.natAbs 1)
  | _ => none

def texts? : Json → Option (List String)
  | .array items => items.mapM text?
  | _ => none

def details? : Json → Option Details
  | .object members => some (.ofList members)
  | _ => none

/-- A status is its name, or an object whose one member has that name and is empty. -/
def status? : Json → Option Status
  | .string name | .object [(name, .null)] | .object [(name, .object [])] => Status.ofName? name
  | _ => none

def fieldNames : String → List String
  | "file_analysis" => ["file_path", "file_type", "file_size"]
  | "component_conversion" => ["component_type", "component_name", "status", "details"]
  | "formula_conversion" => ["original_formula", "converted_formula", "success", "issues"]
  | "visual_mapping" =>
    ["tableau_visual", "powerbi_visual", "mapping_success", "compatibility_notes"]
  | "data_source_conversion" => ["source_type", "target_type", "connection_details", "success"]
  | "performance_metric" => ["operation", "duration_seconds", "details"]
  | "validation_result" => ["validation_type", "component", "passed", "issues"]
  | "error" => ["error_type", "message", "context"]
  | "warning" => ["warning_type", "message", "context"]
  | _ => []

def ofFields? (action : String) (fields : List Json) : Option Event :=
  match action, fields with
  | "file_analysis", [a, b, c] => return .fileAnalysis (← text? a) (← text? b) (← size? c)
  | "component_conversion", [a, b, c, d] =>
    return .component (← text? a) (← text? b) (← status? c) (← details? d)
  | "formula_conversion", [a, b, c, d] =>
    return .formula (← text? a) (← text? b) (← flag? c) (← texts? d)
  | "visual_mapping", [a, b, c, d] =>
    return .visual (← text? a) (← text? b) (← flag? c) (← texts? d)
  | "data_source_conversion", [a, b, c, d] =>
    return .dataSource (← text? a) (← text? b) (← details? c) (← flag? d)
  | "performance_metric", [a, b, c] =>
    return .performance (← text? a) (← seconds? b) (← details? c)
  | "validation_result", [a, b, c, d] =>
    return .validation (← text? a) (← text? b) (← flag? c) (← texts? d)
  | "error", [a, b, c] => return .error (← text? a) (← text? b) (← details? c)
  | "warning", [a, b, c] => return .warning (← text? a) (← text? b) (← details? c)
  | _, _ => none

def ofJson? : Json → Option Event
  | .object members => do
    let action ← (members.lookup "action").bind text?
    ofFields? action (← (fieldNames action).mapM fun name => members.lookup name)
  | .array (.string action :: fields) => ofFields? action fields
  | _ => none

end DaxMigration.Migration.Event
