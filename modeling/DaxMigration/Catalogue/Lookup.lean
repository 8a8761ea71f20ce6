import DaxMigration.Catalogue.Basic
import DaxMigration.Dax.Reference
import DaxMigration.Decimal.Reader
import DaxMigration.Storage.Path
import DaxMigration.Text.Blank

/-!
# Looking up counterparts

Functions are found whatever the case of their letters, the first category in key order winning.
A release that is not listed is answered by the one with the nearest major number.
-/

namespace DaxMigration.Catalogue

open Decimal

def upperText (s : String) : String :=
  String.ofList (Text.upper s.toList)

/-- Functions in upper case with their counterparts: categories in key order, and names in key
order within each. Of several with the same upper case the first stays. -/
def functionIndex (c : Catalogue) : KeyMap String :=
  c.functions.entries.foldl (fun index (_, names) =>
    names.entries.foldl (fun index (name, dax) => index.insertNew (upperText name) dax) index) .empty

def function? (c : Catalogue) (name : String) : Option String :=
  c.functionIndex.get? (upperText name)

def functionCount (c : Catalogue) : Nat :=
  c.functionIndex.entries.length

def functionNames (c : Catalogue) : KeyMap (List String) :=
  c.functions.map KeyMap.keys

/-- The visual for a chart type. Where it has subtypes, the subtype asked for comes first and the
entry `default` second. -/
def visual? (c : Catalogue) (chart : String) (subtype : Option String) : Option String :=
  match c.charts.get? chart with
  | none => none
  | some (.visual name) => some name
  | some (.subtypes names) => (subtype.bind names.get?).or (names.get? "default")

def dataType (c : Catalogue) (name : String) : String :=
  (c.dataTypes.get? name).getD "String"

def connection? (c : Catalogue) (name : String) : Option ConnectionMapping :=
  c.connections.get? name

def major? (release : String) : Option Binary64 :=
  match Storage.splitOn '.' release.toList with
  | first :: _ => Binary64.ofText? (Text.trim first)
  | [] => none

/-- Keeps the nearer of two entries, and the earlier of two equally near. -/
def nearer (target : Binary64) (best : Option (Binary64 × ReleaseInfo))
    (entry : String × ReleaseInfo) : Option (Binary64 × ReleaseInfo) :=
  match major? entry.1 with
  | none => best
  | some major =>
    let distance := (target.subtract major).magnitude
    match best with
    | none => some (distance, entry.2)
    | some (least, info) =>
      if distance.less least then some (distance, entry.2) else some (least, info)

def nearest? (c : Catalogue) (target : Binary64) : Option ReleaseInfo :=
  (c.releases.entries.foldl (nearer target) none).map (·.2)

/-- The entry of a release, else that of the nearest major number, else the entry `default`. -/
def release (c : Catalogue) (name : String) : ReleaseInfo :=
  match c.releases.get? name with
  | some info => info
  | none =>
    (((major? name).bind c.nearest?).or (c.releases.get? "default")).getD .plain

/-- Which documents hold at least one mapping, by file name. -/
def filled (c : Catalogue) : KeyMap Bool :=
  .ofList (MappingDocument.all.map fun d => (d.fileName, match d with
    | .releases => !c.releases.isEmpty
    | .functions => !c.functions.isEmpty
    | .visuals => !c.charts.isEmpty
    | .dataTypes => !c.dataTypes.isEmpty
    | .connections => !c.connections.isEmpty))

/-- What formulas are converted to, with the given table and column of rows. -/
def target (c : Catalogue) (table orderColumn : String) : Dax.Target where
  function? name := (c.function? (String.ofList name)).map String.toList
  table := table.toList
  orderColumn := orderColumn.toList

end DaxMigration.Catalogue
