import DaxMigration.Catalogue.Reader
import DaxMigration.Migration.Artifacts
import DaxMigration.Migration.Pipeline
import DaxMigration.Migration.Session

/-!
# The migration engine

Takes workbook files one by one or all of a directory, runs each through a pipeline that reads and
converts it, and writes the artifacts of those that succeed. What goes wrong with a file is told in
its result.
-/

namespace DaxMigration.Migration

open Logging (Disk Level Line)
open Storage (FileTree)

/-! ## Settings -/

structure Settings where
  /-- The directory of the mapping documents, if not the built-in catalogue. -/
  configDir : Option String := none
  outputDir : String := "output"
  formula : FormulaSettings := {}
deriving DecidableEq

namespace Settings

/-- The catalogue that the settings name, with what is said while it is read. -/
def catalogue (s : Settings) (disk : Logging.Disk) :
    Except Error (Catalogue × List Logging.Line) :=
  match s.configDir with
  | none => .ok (.builtin, [])
  | some dir =>
    match Catalogue.load? disk dir with
    | some loaded => .ok loaded
    | none => .error (.configuration ("Configuration directory not found: " ++ dir) (some dir))

end Settings

/-! ## Engines -/

structure MigrationStats where
  files : Nat := 0
  successful : Nat := 0
  failed : Nat := 0
  warnings : Nat := 0
deriving DecidableEq

structure Engine where
  settings : Settings
  catalogue : Catalogue
  session : Session

/-- The files, the journal and the counts of an engine at work. -/
structure Progress extends Workspace where
  stats : MigrationStats := {}

abbrev Migrating := StateM Progress

namespace Migrating

def work {α : Type} (w : Working α) : Migrating α := fun s =>
  let (a, workspace) := w s.toWorkspace
  (a, { s with toWorkspace := workspace })

def emit (e : Event) : Migrating Unit :=
  work (Working.emit e)

def log (level : Level) (target message : String) : Migrating Unit :=
  work (Working.log level target message)

def count (f : MigrationStats → MigrationStats) : Migrating Unit :=
  modify fun s => { s with stats := f s.stats }

end Migrating

namespace Engine

def logTarget : String := "engine::migration"

/-- An engine on a disk, unless there is no catalogue where the settings say. -/
def start (settings : Settings) (session : Session) (disk : Disk) :
    Except Error (Engine × Progress) := do
  let (catalogue, lines) ← settings.catalogue disk
  let lines := lines ++
    [⟨.info, logTarget, "Migration engine initialized (session " ++ session.id ++ ")"⟩,
      ⟨.info, logTarget, "Output directory: " ++ settings.outputDir⟩]
  return (⟨settings, catalogue, session⟩, { toDisk := disk, journal := lines.map .line })

def pipeline (e : Engine) (disk : Disk) : Pipeline :=
  [.documents "parse_tableau" e.catalogue disk,
    .formulas "convert_formulas" (e.settings.formula.target e.catalogue)]

def tell (status : Status) (details : List (String × Json)) : Migrating Unit :=
  Migrating.emit (.component "MigrationEngine" "file_conversion" status (.ofList details))

def reject (path : String) (error : Error) : Migrating PipelineResult := do
  let info := ErrorInfo.ofError error
  Migrating.log .error logTarget error.message
  Migrating.emit (.error info.kind info.message info.context)
  Migrating.count fun s => { s with failed := s.failed + 1 }
  return (PipelineResult.failure info).note "file_path" (.string path)

def refusal? (files : FileTree) (path : String) : Option Error :=
  if !files.contains path then some (.load (.fileNotFound path))
  else if !Workbook.isSupported path then
    some (.load (.unsupported (Storage.extensionOf path)))
  else none

def runPipeline (e : Engine) (path : String) : Migrating PipelineResult := do
  let s ← get
  let ((result, _), journal) := ((e.pipeline s.toDisk).execute (.path path)).run s.journal
  set { s with journal }
  return result.note "file_path" (.string path)

/-- Writes the artifacts of a result and notes their paths, or notes why they were not written. -/
def publish (e : Engine) (path name : String) (result : PipelineResult) :
    Migrating PipelineResult := do
  let written ←
    match result.data.bind StageData.converted? with
    | some c => Migrating.work (writeArtifacts e.catalogue e.settings.outputDir name c).run
    | none => pure (.error (.unexpected "Pipeline finished without a converted workbook"))
  match written with
  | .ok paths => do
    tell .completed [("output_files", .strings paths)]
    return result.note "output_files" (.strings paths)
  | .error error => do
    Migrating.log .error logTarget
      ("Writing outputs for " ++ path ++ " failed: " ++ error.message)
    let info := (ErrorInfo.ofError error).withContext "file_path" path
    return { result with success := false, errors := result.errors ++ [info] }

/-- Counts a finished file, and tells of one that failed. -/
def conclude (result : PipelineResult) : Migrating Unit := do
  if result.success then Migrating.count fun s => { s with successful := s.successful + 1 }
  else
    Migrating.count fun s => { s with failed := s.failed + 1 }
    tell .failed [("errors", .ofList ErrorInfo.toJson result.errors)]

/-- The name of the artifacts of a file, if none is given. -/
def defaultName (path : String) : String :=
  (Storage.fileStem? path).getD "converted"

def convertAccepted (e : Engine) (path name : String) : Migrating PipelineResult := do
  tell .started [("file_path", .string path), ("output_name", .string name)]
  let result ← e.runPipeline path
  Migrating.count fun s => { s with warnings := s.warnings + result.warnings.length }
  let result ← if result.success then e.publish path name result else pure result
  conclude result
  return result

/-- Converts one file and writes its artifacts. -/
def convertFile (e : Engine) (path : String) (name : Option String) :
    Migrating PipelineResult := do
  Migrating.count fun s => { s with files := s.files + 1 }
  match refusal? (← get).files path with
  | some error => reject path error
  | none => e.convertAccepted path (name.getD (defaultName path))

/-- The supported files of a directory, in the order of their names. -/
def supportedFiles (files : FileTree) (dir : String) (recursive : Bool) : List String :=
  (files.listFiles dir recursive).filter Workbook.isSupported

def convertAll (e : Engine) (paths : List String) : Migrating (List PipelineResult) :=
  paths.mapM fun path => do
    Migrating.log .info logTarget ("Converting: " ++ path)
    e.convertFile path none

/-- Converts the supported files that a directory holds at the start. -/
def convertDirectory (e : Engine) (dir : String) (recursive : Bool) :
    Migrating (Except Error (List PipelineResult)) := do
  let files := (← get).files
  if files.isDirectory dir then
    let paths := supportedFiles files dir recursive
    Migrating.log .info logTarget
      ("Found " ++ toString paths.length ++ " Tableau files in " ++ dir)
    return .ok (← e.convertAll paths)
  else return .error (.directoryNotFound dir)

/-- The path of the report, by default beside the artifacts. -/
def reportPath (e : Engine) (path : Option String) : String :=
  path.getD (Storage.joinPath e.settings.outputDir (e.session.id ++ "_report.json"))

/-- Writes the report on the session so far. -/
def writeReport (e : Engine) (path : String) : ExceptT Error Working Unit := do
  let text := (e.session.reportJson
    (.ofEvents (Journal.events (← (get : Working Workspace)).journal))).pretty
  if let some dir := Storage.parent? path then Working.change (.makeDirectories dir)
  Working.change (.write path text.toUTF8)
  (Working.log .info Event.logTarget ("Conversion report saved: " ++ path) : Working Unit)

/-- Saves the report on the session and returns its path. -/
def saveReport (e : Engine) (path : Option String) : Migrating (Except Error String) := do
  let path := e.reportPath path
  return (← Migrating.work (e.writeReport path).run).map fun _ => path

end Engine

end DaxMigration.Migration
