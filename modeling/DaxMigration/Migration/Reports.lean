import DaxMigration.Catalogue.Lookup
import DaxMigration.Migration.Event
import DaxMigration.Workbook.Encoding

/-!
# Reports on data sources and worksheets

What the catalogue knows of the connections, the columns and the marks of a workbook, and the events
that tell of each connection and each mark.
-/

namespace DaxMigration.Migration

open Json (string bool ofNat ofOption ofList ofMap strings object)

structure ConnectionReport where
  class_ : String
  server : String
  database : String
  connector : Option String
  supported : Bool
deriving DecidableEq

structure ColumnReport where
  name : String
  caption : String
  sourceType : String
  targetType : String
  role : String
  calculated : Bool
deriving DecidableEq

structure DataSourceReport where
  name : String
  caption : String
  connections : List ConnectionReport
  tables : List String
  columns : List ColumnReport
deriving DecidableEq

/-- The visual that is suggested for a class of marks. -/
structure VisualReport where
  mark : String
  visual : Option String
deriving DecidableEq

structure WorksheetReport where
  name : String
  datasources : List String
  shelves : KeyMap (List String)
  filterCount : Nat
  visuals : List VisualReport
deriving DecidableEq

namespace ConnectionReport

def ofConnection (catalogue : Catalogue) (c : Workbook.Connection) : ConnectionReport :=
  let mapping := catalogue.connection? c.class_
  ⟨c.class_, c.server, c.dbname, mapping.map (·.connector), mapping.any (·.supported)⟩

def event (r : ConnectionReport) : Event :=
  .dataSource r.class_ (r.connector.getD "")
    (.ofList [("server", string r.server), ("database", string r.database)]) r.supported

def toJson (r : ConnectionReport) : Json :=
  object [("class", string r.class_), ("server", string r.server), ("database", string r.database),
    ("powerbi_connector", ofOption string r.connector), ("supported", bool r.supported)]

end ConnectionReport

namespace ColumnReport

def ofColumn (catalogue : Catalogue) (c : Workbook.Column) : ColumnReport :=
  ⟨c.name, c.caption, c.datatype, catalogue.dataType c.datatype, c.role, c.calculation.isSome⟩

def toJson (r : ColumnReport) : Json :=
  object [("name", string r.name), ("caption", string r.caption),
    ("tableau_type", string r.sourceType), ("powerbi_type", string r.targetType),
    ("role", string r.role), ("calculated", bool r.calculated)]

end ColumnReport

namespace DataSourceReport

def tableOf (r : Workbook.Relation) : String :=
  if r.table = "" then r.name else r.table

def ofDataSource (catalogue : Catalogue) (d : Workbook.DataSource) : DataSourceReport where
  name := d.name
  caption := d.caption
  connections := d.connections.map (.ofConnection catalogue)
  tables := (d.relations.map tableOf).filter (· ≠ "")
  columns := d.columns.map (.ofColumn catalogue)

def events (r : DataSourceReport) : List Event :=
  r.connections.map (·.event)

def toJson (r : DataSourceReport) : Json :=
  object [("name", string r.name), ("caption", string r.caption),
    ("connections", ofList ConnectionReport.toJson r.connections), ("tables", strings r.tables),
    ("columns", ofList ColumnReport.toJson r.columns)]

end DataSourceReport

def chartType (mark : String) : String :=
  let mark := String.ofList (Text.lower mark.toList)
  if mark = "circle" || mark = "shape" then "scatter"
  else if mark = "automatic" then "bar"
  else mark

namespace VisualReport

def ofMark (catalogue : Catalogue) (mark : String) : VisualReport :=
  ⟨mark, catalogue.visual? (chartType mark) none⟩

def notes (r : VisualReport) : List String :=
  if r.visual.isSome then [] else ["No Power BI visual mapped for mark type " ++ r.mark]

def event (r : VisualReport) : Event :=
  .visual r.mark (r.visual.getD "") r.visual.isSome r.notes

def toJson (r : VisualReport) : Json :=
  object [("mark", string r.mark), ("powerbi_visual", ofOption string r.visual)]

end VisualReport

namespace WorksheetReport

def ofWorksheet (catalogue : Catalogue) (w : Workbook.Worksheet) : WorksheetReport where
  name := w.name
  datasources := w.view.datasources
  shelves := w.view.shelves
  filterCount := w.view.filters.length
  visuals := w.view.marks.map (.ofMark catalogue)

def events (r : WorksheetReport) : List Event :=
  r.visuals.map (·.event)

def toJson (r : WorksheetReport) : Json :=
  object [("name", string r.name), ("datasources", strings r.datasources),
    ("shelves", ofMap strings r.shelves), ("filter_count", ofNat r.filterCount),
    ("visuals", ofList VisualReport.toJson r.visuals)]

end WorksheetReport

def dataSourceReports (catalogue : Catalogue) (w : Workbook) : List DataSourceReport :=
  w.datasources.map (.ofDataSource catalogue)

def worksheetReports (catalogue : Catalogue) (w : Workbook) : List WorksheetReport :=
  w.worksheets.map (.ofWorksheet catalogue)

end DaxMigration.Migration
