import DaxMigration.Text.Blank
import DaxMigration.Workbook.LoadError
import DaxMigration.Workbook.Model
import DaxMigration.Xml.Reader

/-!
# Workbooks from documents

What a document says about its workbook, by the names of its elements. Every part may be missing and
is then empty.
-/

namespace DaxMigration.Workbook

open Xml (Element)

def trimmed (s : String) : String :=
  String.ofList (Text.trim s.toList)

/-- The text of an element without white space around it, unless that is empty. -/
def filledText? (e : Element) : Option String :=
  some (trimmed e.text) |>.filter (· ≠ "")

/-- The children of a name in the first child that holds them. -/
def childrenIn (e : Element) (holder name : String) : List Element :=
  match e.child? holder with
  | some inner => inner.childrenNamed name
  | none => []

/-- The version attribute of the root, else the text of the first element of that name. -/
def versionOf (root : Element) : String :=
  match root.filledAttr? "version" with
  | some version => version
  | none => ((root.descendant? "version").bind filledText?).getD "unknown"

def Connection.ofElement (e : Element) : Connection where
  class_ := e.attr "class"
  server := e.attr "server"
  dbname := e.attr "dbname"
  username := e.attr "username"
  authentication := e.attr "authentication"
  serverPort := e.attr "port"
  schema := e.attr "schema"
  warehouse := e.attr "warehouse"
  service := e.attr "service"
  filename := e.attr "filename"
  directory := e.attr "directory"
  properties := .ofList e.attributes

def Calculation.ofElement (e : Element) : Calculation where
  class_ := e.attr "class"
  formula := e.attr "formula"
  formulaText := e.text

def Column.ofElement (e : Element) : Column where
  name := e.attr "name"
  caption := e.attr "caption"
  datatype := e.attr "datatype"
  role := e.attr "role"
  type_ := e.attr "type"
  aggregation := e.attr "aggregation"
  hidden := e.attrFlag "hidden" false
  calculation := (e.child? "calculation").map .ofElement
  defaultFormat := e.attr "default-format"
  semanticRole := e.attr "semantic-role"
  geographicRole := e.attr "geographic-role"

def Relation.ofElement (e : Element) : Relation where
  connection := e.attr "connection"
  name := e.attr "name"
  table := e.attr "table"
  type_ := e.attr "type"
  join := e.attr "join"
  text := e.text

/-- Aliases that have both a key and a value; the last of a key counts. -/
def aliasesOf (e : Element) : KeyMap String :=
  .ofList ((childrenIn e "aliases" "alias").filterMap fun a => do
    return (← a.filledAttr? "key", ← a.filledAttr? "value"))

def DataSource.ofElement (e : Element) : DataSource where
  name := (e.attr? "name").getD "Unknown"
  caption := e.attr "caption"
  version := e.attr "version"
  inline_ := e.attrFlag "inline" false
  connections := (e.descendantsNamed "connection").map .ofElement
  columns := (e.descendantsNamed "column").map .ofElement
  relations := (e.descendantsNamed "relation").map .ofElement
  aliases := aliasesOf e

def Filter.ofElement (e : Element) : Filter where
  class_ := e.attr "class"
  column := e.attr "column"

def SortRule.ofElement (e : Element) : SortRule where
  field := e.attr "field"
  ascending := e.attrFlag "is-ascending" true

def shelvesOf (view : Element) : KeyMap (List String) :=
  .ofList ((childrenIn view "shelves" "shelf").map fun shelf =>
    (shelf.attr "name", (shelf.childrenNamed "field").filterMap filledText?))

/-- Adds a shelf that is written as the text of an element, unless it is there already. -/
def addLayoutShelf (sheet : Element) (tag shelf : String) (shelves : KeyMap (List String)) :
    KeyMap (List String) :=
  match (sheet.descendant? tag).bind filledText?, shelves.get? shelf with
  | some text, none => shelves.insert shelf [text]
  | _, _ => shelves

def distinct (ss : List String) : List String :=
  (ss.foldl (fun seen s => if seen.contains s then seen else s :: seen) []).reverse

/-- The view of a worksheet; its layout and its marks may stand outside the view element. -/
def View.ofSheet (sheet : Element) : View :=
  match sheet.descendant? "view" with
  | none => {}
  | some view =>
    { datasources := (childrenIn view "datasources" "datasource").filterMap (·.filledAttr? "name")
      shelves := addLayoutShelf sheet "cols" "columns"
        (addLayoutShelf sheet "rows" "rows" (shelvesOf view))
      filters := (view.descendantsNamed "filter").map .ofElement
      sorts := (childrenIn view "shelf-sorts" "shelf-sort-rule").map .ofElement
      marks := distinct ((sheet.descendantsNamed "mark").filterMap (·.filledAttr? "class")) }

def Worksheet.ofElement (e : Element) : Worksheet where
  name := e.attr "name"
  view := .ofSheet e

def DashboardSize.ofElement (e : Element) : DashboardSize where
  maxheight := e.attr "maxheight"
  maxwidth := e.attr "maxwidth"
  minheight := e.attr "minheight"
  minwidth := e.attr "minwidth"

def Zone.ofElement (e : Element) : Zone where
  id := e.attr "id"
  name := e.attr "name"
  type_ := e.attr "type"
  param := e.attr "param"
  x := e.attr "x"
  y := e.attr "y"
  w := e.attr "w"
  h := e.attr "h"

def Dashboard.ofElement (e : Element) : Dashboard where
  name := e.attr "name"
  size := (e.child? "size").map .ofElement
  zones := (childrenIn e "zones" "zone").map .ofElement

def ParameterMember.ofElement (e : Element) : ParameterMember where
  label := e.attr "alias"
  value := e.attr "value"

/-- A column with a parameter domain is a parameter. -/
def Parameter.ofElement? (e : Element) : Option Parameter := do
  let domainType ← e.attr? "param-domain-type"
  return {
    name := e.attr "name"
    caption := e.attr "caption"
    datatype := e.attr "datatype"
    domainType
    value := e.attr "value"
    members := (childrenIn e "members" "member").map .ofElement }

/-- A column with a calculation of its own is a calculated field. -/
def CalculatedField.ofElement? (e : Element) : Option CalculatedField := do
  let calculation ← e.child? "calculation"
  return {
    name := e.attr "name"
    caption := e.attr "caption"
    datatype := e.attr "datatype"
    role := e.attr "role"
    type_ := e.attr "type"
    formula := calculation.attr "formula"
    class_ := calculation.attr "class"
    formulaText := calculation.text }

/-- Everything that a document says, given its root. The root itself may be a data source. -/
def ofElement (root : Element) (file : FileInfo) : Workbook where
  file := file
  version := versionOf root
  datasources := (root.named "datasource").map .ofElement
  worksheets := (childrenIn root "worksheets" "worksheet").map .ofElement
  dashboards := (childrenIn root "dashboards" "dashboard").map .ofElement
  parameters := (root.descendantsNamed "column").filterMap Parameter.ofElement?
  calculatedFields := (root.descendantsNamed "column").filterMap CalculatedField.ofElement?
  filters := (root.descendantsNamed "filter").map .ofElement

def readDocument (cs : List Char) : Except LoadError Element :=
  match Element.ofText cs with
  | .ok root => .ok root
  | .error fault => .error (.xml fault.message)

end DaxMigration.Workbook
