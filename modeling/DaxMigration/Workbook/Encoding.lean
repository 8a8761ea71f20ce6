import DaxMigration.Workbook.Model

/-!
# Workbooks as JSON

Records in the order of their fields.
-/

namespace DaxMigration.Workbook

open Json (string bool ofNat ofOption ofList ofMap strings object)

def FileInfo.toJson (f : FileInfo) : Json :=
  object [("path", string f.path), ("name", string f.name), ("type", string f.extension),
    ("size", ofNat f.size)]

def Connection.toJson (c : Connection) : Json :=
  object [("class", string c.class_), ("server", string c.server), ("dbname", string c.dbname),
    ("username", string c.username), ("authentication", string c.authentication),
    ("port", string c.serverPort), ("schema", string c.schema), ("warehouse", string c.warehouse),
    ("service", string c.service), ("filename", string c.filename),
    ("directory", string c.directory), ("properties", ofMap string c.properties)]

def Calculation.toJson (c : Calculation) : Json :=
  object [("class", string c.class_), ("formula", string c.formula),
    ("formula_text", string c.formulaText)]

def Column.toJson (c : Column) : Json :=
  object [("name", string c.name), ("caption", string c.caption), ("datatype", string c.datatype),
    ("role", string c.role), ("type", string c.type_), ("aggregation", string c.aggregation),
    ("hidden", bool c.hidden), ("calculation", ofOption Calculation.toJson c.calculation),
    ("default_format", string c.defaultFormat), ("semantic_role", string c.semanticRole),
    ("geographic_role", string c.geographicRole)]

def Relation.toJson (r : Relation) : Json :=
  object [("connection", string r.connection), ("name", string r.name), ("table", string r.table),
    ("type", string r.type_), ("join", string r.join), ("text", string r.text)]

def DataSource.toJson (d : DataSource) : Json :=
  object [("name", string d.name), ("caption", string d.caption), ("version", string d.version),
    ("inline", bool d.inline_), ("connections", ofList Connection.toJson d.connections),
    ("columns", ofList Column.toJson d.columns), ("relations", ofList Relation.toJson d.relations),
    ("aliases", ofMap string d.aliases)]

def Filter.toJson (f : Filter) : Json :=
  object [("class", string f.class_), ("column", string f.column)]

def SortRule.toJson (s : SortRule) : Json :=
  object [("field", string s.field), ("ascending", bool s.ascending)]

def View.toJson (v : View) : Json :=
  object [("datasources", strings v.datasources), ("shelves", ofMap strings v.shelves),
    ("filters", ofList Filter.toJson v.filters), ("sorts", ofList SortRule.toJson v.sorts),
    ("marks", strings v.marks)]

def Worksheet.toJson (w : Worksheet) : Json :=
  object [("name", string w.name), ("view", w.view.toJson)]

def DashboardSize.toJson (s : DashboardSize) : Json :=
  object [("maxheight", string s.maxheight), ("maxwidth", string s.maxwidth),
    ("minheight", string s.minheight), ("minwidth", string s.minwidth)]

def Zone.toJson (z : Zone) : Json :=
  object [("id", string z.id), ("name", string z.name), ("type", string z.type_),
    ("param", string z.param), ("x", string z.x), ("y", string z.y), ("w", string z.w),
    ("h", string z.h)]

def Dashboard.toJson (d : Dashboard) : Json :=
  object [("name", string d.name), ("size", ofOption DashboardSize.toJson d.size),
    ("zones", ofList Zone.toJson d.zones)]

def ParameterMember.toJson (m : ParameterMember) : Json :=
  object [("alias", string m.label), ("value", string m.value)]

def Parameter.toJson (p : Parameter) : Json :=
  object [("name", string p.name), ("caption", string p.caption), ("datatype", string p.datatype),
    ("param_domain_type", string p.domainType), ("value", string p.value),
    ("members", ofList ParameterMember.toJson p.members)]

def CalculatedField.toJson (f : CalculatedField) : Json :=
  object [("name", string f.name), ("caption", string f.caption), ("datatype", string f.datatype),
    ("role", string f.role), ("type", string f.type_), ("formula", string f.formula),
    ("class", string f.class_), ("formula_text", string f.formulaText)]

def members (w : Workbook) : List (String × Json) :=
  [("file_info", w.file.toJson), ("tableau_version", string w.version),
    ("datasources", ofList DataSource.toJson w.datasources),
    ("worksheets", ofList Worksheet.toJson w.worksheets),
    ("dashboards", ofList Dashboard.toJson w.dashboards),
    ("parameters", ofList Parameter.toJson w.parameters),
    ("calculated_fields", ofList CalculatedField.toJson w.calculatedFields),
    ("filters", ofList Filter.toJson w.filters)]

def toJson (w : Workbook) : Json :=
  object w.members

end DaxMigration.Workbook
