import DaxMigration.Logging.Disk
import DaxMigration.Migration.Error
import DaxMigration.Migration.Measures
import DaxMigration.Migration.Reports
import DaxMigration.Storage.Change

/-!
# Artifacts

The four files that a converted workbook leaves: its measures, its structure, and the reports on its
data sources and its worksheets. They lie in a directory of their own, named after the workbook as
they are. Writing stops at the first file that cannot be written.
-/

namespace DaxMigration.Migration

open Logging (Disk Level Line)
open Storage (joinPath)

/-- The disk, and the journal of the run. The log file may lack the latest lines. -/
structure Workspace extends Disk where
  journal : Journal := []

def Workspace.disk (w : Workspace) : Disk :=
  w.toDisk.after (Journal.log w.journal)

abbrev Working := StateM Workspace

namespace Working

def emit (e : Event) : Working Unit :=
  modify fun s => { s with journal := s.journal ++ [.event e] }

def log (level : Level) (target message : String) : Working Unit :=
  modify fun s => { s with journal := s.journal ++ [.line ⟨level, target, message⟩] }

def change (c : Storage.Change Unit) : ExceptT Error Working Unit := do
  let s ← (get : Working Workspace)
  let disk := s.disk
  let (outcome, files) := c.run.run disk.files
  (set { s with toDisk := { disk with files } } : Working Unit)
  match outcome with
  | .ok () => return
  | .error fault => throw (.io fault.message)

end Working

def artifactDir (outputDir name : String) : String :=
  joinPath outputDir name

def artifactEndings : List String :=
  ["_measures.dax", "_report_structure.json", "_data_sources.json", "_worksheets.json"]

/-- The paths of the artifacts of a name, in the order in which they are written. -/
def artifactPaths (outputDir name : String) : List String :=
  artifactEndings.map fun ending => joinPath (artifactDir outputDir name) (name ++ ending)

/-- The contents of the artifacts in the order of writing, each with the events before it. -/
def artifactContents (catalogue : Catalogue) (c : ConvertedWorkbook) :
    List (List Event × String) :=
  let sources := dataSourceReports catalogue c.workbook
  let sheets := worksheetReports catalogue c.workbook
  [([], measuresText c),
    ([], c.toJson.pretty),
    (sources.flatMap (·.events), (Json.ofList DataSourceReport.toJson sources).pretty),
    (sheets.flatMap (·.events), (Json.ofList WorksheetReport.toJson sheets).pretty)]

def writeArtifact (path : String) (content : List Event × String) : ExceptT Error Working Unit := do
  for e in content.1 do (Working.emit e : Working Unit)
  Working.change (.write path content.2.toUTF8)

/-- Writes the artifacts of a workbook and returns their paths. -/
def writeArtifacts (catalogue : Catalogue) (outputDir name : String) (c : ConvertedWorkbook) :
    ExceptT Error Working (List String) := do
  let dir := artifactDir outputDir name
  let paths := artifactPaths outputDir name
  Working.change (.makeDirectories dir)
  for (path, content) in paths.zip (artifactContents catalogue c) do
    writeArtifact path content
  (Working.log .info "engine::output"
    ("Wrote " ++ toString paths.length ++ " output files to " ++ dir) : Working Unit)
  return paths

end DaxMigration.Migration
