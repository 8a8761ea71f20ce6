import DaxMigration.CommandLine.Help
import DaxMigration.Migration.Engine
import DaxMigration.Text.Quoted

/-!
# A run of the command

From the words of the command line and the files to the lines that are printed, the files that are
left, and the code of the exit: zero if every file was converted, one if some were not, and two if
the run could not be made.
-/

namespace DaxMigration.CommandLine

open Logging (Disk Level Line LogFile Verbosity)
open Migration
open Storage (Change FileTree)

structure Outcome where
  exit : Nat
  /-- The lines of the standard output, given the time the run took in milliseconds. -/
  printed : Nat → List String := fun _ => []
  /-- The lines of the standard error. -/
  said : List String := []
  files : FileTree

def errorText (message : String) : String :=
  "Error: " ++ message

def shownPath (path : String) : String :=
  String.ofList (Text.escaped '"' path.toList)

/-- Makes the log file anew, and the directories it lies in. -/
def openLog (path : String) (verbosity : Verbosity) : ExceptT String (StateM FileTree) LogFile := do
  let naming {α : Type} (text path : String) (c : Change α) :=
    c.adapt fun fault => "Failed to create " ++ text ++ shownPath path ++ ": " ++ fault.message
  let dir := (Storage.parent? path).getD ""
  naming "log dir at " dir (.makeDirectories dir)
  naming "log file " path do
    Change.write path .empty
    return { location := ← Change.locating (·.locate path), verbosity }

def Options.settings (o : Options) : Settings where
  configDir := o.configDir
  outputDir := o.outputDir
  formula := ⟨o.table, o.orderColumn⟩

/-- A name can be given to the artifacts of one file only. -/
def namesOneFile (o : Options) (files : FileTree) : Bool :=
  match o.name, o.inputs with
  | none, _ => true
  | some _, [input] => !files.isDirectory input
  | some _, _ => false

def outputCount (r : PipelineResult) : Nat :=
  match r.metadata.get? "output_files" with
  | some (.array files) => files.length
  | _ => 0

def resultLines (json : Bool) (path : String) (r : PipelineResult) : List String :=
  if json then [r.toJson.compact]
  else
    (if r.success then
      ["OK    " ++ path ++ " (" ++ toString (outputCount r) ++ " files written)"]
    else ["FAIL  " ++ path, "      " ++ ErrorInfo.summary r.errors]) ++
      r.warnings.map fun w => "      warning: " ++ w.message

def totalLine (s : MigrationStats) (milliseconds : Nat) : String :=
  "Processed " ++ toString s.files ++ " file(s): " ++ toString s.successful ++ " succeeded, " ++
    toString s.failed ++ " failed, " ++ toString s.warnings ++ " warning(s) in " ++
    toString milliseconds ++ " ms"

def pathOf (input : String) (r : PipelineResult) : String :=
  match r.metadata.get? "file_path" with
  | some (.string path) => path
  | _ => input

/-- Converts an input, which may be a directory. -/
def convertInput (e : Engine) (o : Options) (input : String) :
    Migrating (Except Error (List (String × PipelineResult))) := do
  if (← get).files.isDirectory input then
    return (← e.convertDirectory input o.recursive).map fun rs => rs.map fun r => (pathOf input r, r)
  else return .ok [(input, ← e.convertFile input o.name)]

def convertInputs (e : Engine) (o : Options) :
    List String → Migrating (Except Error (List (String × PipelineResult)))
  | [] => return .ok []
  | input :: rest => do
    match ← convertInput e o input with
    | .error error => return .error error
    | .ok rs => return (← convertInputs e o rest).map (rs ++ ·)

/-- What came of the engine's work: the lines that are printed, and the exit code or the message of
the error that ended it. -/
structure Work where
  printed : Nat → List String := fun _ => []
  exit : Except String Nat

def saveReport (e : Engine) (o : Options) : Migrating (Except Error Unit) := do
  match o.report with
  | none => return .ok ()
  | some path =>
    match ← e.saveReport (some path) with
    | .error error => return .error error
    | .ok saved => do
      Migrating.log .info programName ("Session report saved to " ++ saved)
      return .ok ()

def work (e : Engine) (o : Options) : Migrating Work := do
  if !namesOneFile o (← get).files then
    return { exit := .error "--name needs exactly one file input" }
  match ← convertInputs e o o.inputs with
  | .error error => return { exit := .error error.message }
  | .ok results => do
    let stats := (← get).stats
    let printed := fun milliseconds =>
      results.flatMap (fun (path, r) => resultLines o.json path r) ++
        if o.json then [] else [totalLine stats milliseconds]
    match ← saveReport e o with
    | .error error => return { printed, exit := .error error.message }
    | .ok () => do
      if results.isEmpty then Migrating.log .warn programName "No Tableau files found"
      return { printed, exit := .ok (if stats.failed = 0 then 0 else 1) }

/-- The work of a run, what it says, and the disk it leaves. -/
def perform (o : Options) (session : Session) (disk : Disk) : Work × List Line × Disk :=
  let (work, said, disk) : Work × List Line × Disk :=
    match Engine.start o.settings session disk with
    | .error error => ({ exit := .error error.message }, [], disk)
    | .ok (e, s) =>
      let (work, s) := (work e o).run s
      (work, Journal.log s.journal, s.toDisk)
  let said :=
    match work.exit with
    | .ok _ => said
    | .error message => said ++ [⟨.error, programName, message⟩]
  (work, said, disk.after said)

def prepare (o : Options) : ExceptT String (StateM FileTree) (Verbosity × Option LogFile) := do
  let verbosity ← ExceptT.mk (pure (Verbosity.ofText o.verbosity))
  match o.logFile with
  | none => return (verbosity, none)
  | some path => return (verbosity, some (← openLog path verbosity))

def runOptions (o : Options) (session : Session) (files : FileTree) : Outcome :=
  match (prepare o).run.run files with
  | (.error message, files) => { exit := 2, said := [errorText message], files }
  | (.ok (verbosity, log), files) =>
    let (work, said, disk) := perform o session { files, log }
    let lines := verbosity.render said
    match work.exit with
    | .ok exit => { exit, printed := work.printed, said := lines, files := disk.files }
    | .error message =>
      { exit := 2, printed := work.printed, said := lines ++ [errorText message],
        files := disk.files }

def run (words : List String) (session : Session) (files : FileTree) : Outcome :=
  match Options.ofWords words with
  | .ok o => runOptions o session files
  | .error .help => { exit := 0, printed := fun _ => helpLines, files }
  | .error .version => { exit := 0, printed := fun _ => [versionText], files }
  | .error (.usage fault) => { exit := 2, said := usageLines fault, files }

end DaxMigration.CommandLine
