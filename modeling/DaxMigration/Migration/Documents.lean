import DaxMigration.Catalogue.Lookup
import DaxMigration.Logging.Disk
import DaxMigration.Migration.Tracker
import DaxMigration.Workbook.File

/-!
# Reading documents

The component that takes the path of a workbook file. Its journal tells what was found in the file,
and its accounts warn of a release that the catalogue does not support.
-/

namespace DaxMigration.Migration

open Logging (Disk)

namespace Documents

def checkRelease (catalogue : Catalogue) (version : String) : Tracking Unit := do
  let info := catalogue.release version
  if !info.supported then
    Tracking.addWarning ("Tableau version " ++ version ++ " may not be fully supported")
      (.ofList [("version", .string version), ("schema_version", .string info.schemaVersion)])

def describe (catalogue : Catalogue) (w : Workbook) : Tracking Unit := do
  let file := w.file
  Tracking.emit (.fileAnalysis file.path file.extension file.size)
  Tracking.logStep "file_analysis" (.ofList [("file_name", .string file.name),
    ("file_size", .ofNat file.size), ("file_type", .string file.extension)])
  Tracking.logStep "version_detection" (.ofList [("version", .string w.version)])
  checkRelease catalogue w.version
  Tracking.logStep "metadata_extraction_complete"
    (.ofList [("datasources_count", .ofNat w.datasources.length),
      ("worksheets_count", .ofNat w.worksheets.length),
      ("dashboards_count", .ofNat w.dashboards.length),
      ("calculated_fields_count", .ofNat w.calculatedFields.length)])

def convert (catalogue : Catalogue) (disk : Disk) (path : String) :
    Tracking (Except Error Workbook) := do
  let files := (disk.after (Journal.log (← get).journal)).files
  let (outcome, lines) := (Workbook.load files path).outcome
  lines.forM Tracking.log
  match outcome with
  | .error e => return .error (.load e)
  | .ok w => do
    describe catalogue w
    return .ok w

def converter (catalogue : Catalogue) (disk : Disk) : Converter String Workbook where
  supportedTypes := Workbook.supportedExtensions
  accepts path :=
    disk.files.isFile path && Workbook.supportedExtensions.contains (Storage.extensionOf path)
  convert := convert catalogue disk

def tracker : Tracker :=
  { name := "TableauParser" }

end Documents

end DaxMigration.Migration
