import DaxMigration.Catalogue.Basic
import DaxMigration.Json.Reader

/-!
# Catalogue entries as JSON

The shapes that the documents and their entries are read from, and the entries as they are reported.
-/

namespace DaxMigration

namespace Catalogue

open Json

/-- An absent field takes its default; a present one must be readable. -/
def fieldOr {α : Type} (default : α) (read? : Source → Option α) : Option Source → Option α
  | none => some default
  | some s => read? s

def releaseInfo? (s : Source) : Option ReleaseInfo := do
  match ← s.record? ["supported", "schema_version", "features"] with
  | [supported, schemaVersion, features] =>
    return ⟨← fieldOr true Source.bool? supported, ← fieldOr "" Source.string? schemaVersion,
      ← fieldOr [] (Source.list? Source.string?) features⟩
  | _ => none

def entryDepth : Nat := 2

def chartMapping? (s : Source) : Option ChartMapping :=
  ((s.string?).map .visual).or ((s.map? Source.string?).map .subtypes)

def connectionMapping? (s : Source) : Option ConnectionMapping := do
  let members ← s.members?
  let named (key : String) := members.filter (·.1 == key)
  let supported ←
    match named "supported" with
    | [] => some true
    | [(_, v)] => v.bool?
    | _ => none
  let others := members.filter fun m => m.1 != "powerbi_type" && m.1 != "supported"
  let extra ← others.mapM fun (k, v) => (v.valueAt? (entryDepth + 1)).map (k, ·)
  match named "powerbi_type" with
  | [(_, v)] => return ⟨← v.string?, supported, .ofList extra⟩
  | _ => none

def namedMap? {α : Type} (name : String) (read? : Source → Option α) (s : Source) :
    Option (KeyMap α) := do
  match ← s.record? [name] with
  | [field] => fieldOr .empty (Source.map? read?) field
  | _ => none

def textOf? : Json → Option String
  | .string text => some text
  | _ => none

/-- The functions of a category; anything but an object is no category, and anything but a text is
no function. -/
def category? : Json → Option (KeyMap String)
  | .object members => some (.ofList (members.filterMap fun e => (textOf? e.2).map (e.1, ·)))
  | _ => none

def functions? (s : Source) : Option (KeyMap (KeyMap String)) := do
  return (← s.map? (Source.valueAt? 1)).filterMap category?

end Catalogue

/-! ## Reports -/

def ReleaseInfo.toJson (r : ReleaseInfo) : Json :=
  .object [("supported", .bool r.supported), ("schema_version", .string r.schemaVersion),
    ("features", .strings r.features)]

/-- The extra members of an entry stand beside the known ones. -/
def ConnectionMapping.toJson (c : ConnectionMapping) : Json :=
  .object ([("powerbi_type", .string c.connector), ("supported", .bool c.supported)] ++
    c.extra.entries)

def DocumentSource.toJson : DocumentSource → Json
  | builtin => .object [("source", .string "builtin")]
  | file path => .object [("source", .string "file"), ("path", .string path)]
  | fallback path reason =>
    .object [("source", .string "fallback"), ("path", .string path), ("reason", .string reason)]

def Catalogue.sourcesJson (c : Catalogue) : Json :=
  .ofMap DocumentSource.toJson (.ofList (c.sources.map fun (d, s) => (d.fileName, s)))

end DaxMigration
