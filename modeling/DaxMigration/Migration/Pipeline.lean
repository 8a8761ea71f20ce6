import DaxMigration.Migration.Stage

/-!
# Pipelines

Stages that run one after the other, each on the output of the nearest stage before it that had one.
A stage without output counts as failed and does not stop the others.
-/

namespace DaxMigration.Migration

structure PipelineStats where
  total : Nat
  completed : Nat
  failed : Nat
deriving DecidableEq

namespace PipelineStats

def members (s : PipelineStats) : List (String × Json) :=
  [("total_stages", .ofNat s.total), ("completed_stages", .ofNat s.completed),
    ("failed_stages", .ofNat s.failed)]

def toJson (s : PipelineStats) : Json :=
  .object s.members

end PipelineStats

structure StageRun where
  name : String
  output : Option StageData
  summary : ConversionSummary

namespace StageRun

def status (r : StageRun) : Status :=
  if r.output.isNone then .failed
  else if r.summary.warnings.isEmpty then .completed
  else .warning

end StageRun

/-- What came of a pipeline, with whatever else is noted of it. -/
structure PipelineResult where
  success : Bool
  data : Option StageData
  errors : List ErrorInfo
  warnings : List WarningInfo
  metadata : KeyMap Json

namespace PipelineResult

/-- Work that never reached the pipeline. -/
def failure (e : ErrorInfo) : PipelineResult :=
  ⟨false, none, [e], [], .empty⟩

def note (r : PipelineResult) (key : String) (value : Json) : PipelineResult :=
  { r with metadata := r.metadata.insert key value }

def toJson (r : PipelineResult) : Json :=
  .object [("success", .bool r.success), ("data", .ofOption StageData.toJson r.data),
    ("errors", .ofList ErrorInfo.toJson r.errors),
    ("warnings", .ofList WarningInfo.toJson r.warnings), ("metadata", .ofMembers r.metadata)]

end PipelineResult

abbrev Journaling := StateM Journal

namespace Journaling

def emit (e : Event) : Journaling Unit :=
  modify (· ++ [.event e])

def log (l : Logging.Line) : Journaling Unit :=
  modify (· ++ [.line l])

end Journaling

def Stage.execute (s : Stage) (data : StageData) : Journaling StageRun := fun journal =>
  let (output, done) := (s.run data).run ⟨s.tracker.reset, journal⟩
  (⟨s.name, output, done.tracker.summary⟩, done.journal)

/-- Runs a stage and tells of its beginning and its end. -/
def Stage.report (s : Stage) (data : StageData) : Journaling StageRun := do
  Journaling.emit (.component "PipelineStage" s.name .started .empty)
  let run ← s.execute data
  Journaling.log ⟨.debug, "engine::pipeline",
    "Pipeline stage " ++ s.name ++ " finished: " ++ run.status.name⟩
  Journaling.emit (.component "PipelineStage" s.name run.status .empty)
  return run

abbrev Pipeline := List Stage

namespace Pipeline

def runs : Pipeline → StageData → Journaling (List StageRun)
  | [], _ => return []
  | s :: rest, data => do
    let run ← s.report data
    return run :: (← runs rest (run.output.getD data))

/-- The output of the last run that had one, or the input. -/
def lastOutput (input : StageData) (rs : List StageRun) : StageData :=
  rs.foldl (fun data r => r.output.getD data) input

def stats (rs : List StageRun) : PipelineStats where
  total := rs.length
  completed := rs.countP (·.output.isSome)
  failed := rs.countP (·.output.isNone)

def result (input : StageData) (rs : List StageRun) : PipelineResult where
  success := rs.all (·.output.isSome)
  data := some (lastOutput input rs)
  errors := rs.flatMap (·.summary.errors)
  warnings := rs.flatMap (·.summary.warnings)
  metadata := .ofList (rs.map fun r => (r.name, r.summary.toJson))

def tell (status : Status) (details : Details) : Journaling Unit :=
  Journaling.emit (.component "ConversionPipeline" "pipeline_execution" status details)

def execute (p : Pipeline) (input : StageData) : Journaling (PipelineResult × PipelineStats) := do
  tell .started .empty
  let rs ← p.runs input
  let result := result input rs
  let stats := stats rs
  tell (if result.success then .completed else .failed) (.ofList stats.members)
  return (result, stats)

end Pipeline

end DaxMigration.Migration
