import DaxMigration.Migration.Pipeline
import DaxMigration.Migration.Script

/-!
# Standing pipelines

A pipeline that is built once and run many times. Its stages keep the accounts that their last runs
left, and it keeps the counts of its last run, until the next run begins with clearing them.
-/

namespace DaxMigration.Migration

open Logging (Disk)

/-- What a stage is there for. -/
inductive Duty where
  | documents (catalogue : Catalogue)
  | formulas (t : Dax.Target)
  | script (s : Script)

namespace Duty

def tracker : Duty → Tracker
  | documents _ => Documents.tracker
  | formulas _ => Formulas.tracker
  | script _ => Script.tracker

/-- The stage with a duty, on the files that a disk holds then. -/
def stage (d : Duty) (name : String) (disk : Disk) : Stage :=
  match d with
  | documents catalogue => .documents name catalogue disk
  | formulas t => .formulas name t
  | script s => .scripted name s

end Duty

structure StandingStage where
  name : String
  duty : Duty
  /-- The accounts of the last run. -/
  tracker : Tracker

/-- No stage has been run. -/
def PipelineStats.cleared (s : PipelineStats) : PipelineStats :=
  { s with completed := 0, failed := 0 }

structure Round where
  data : StageData
  stats : PipelineStats
  errors : List ErrorInfo
  warnings : List WarningInfo
  metadata : KeyMap Json

def Round.add (r : Round) (run : StageRun) : Round where
  data := run.output.getD r.data
  stats :=
    if run.output.isSome then { r.stats with completed := r.stats.completed + 1 }
    else { r.stats with failed := r.stats.failed + 1 }
  errors := r.errors ++ run.summary.errors
  warnings := r.warnings ++ run.summary.warnings
  metadata := r.metadata.insert run.name run.summary.toJson

def Round.result (r : Round) : PipelineResult where
  success := r.stats.failed = 0
  data := some r.data
  errors := r.errors
  warnings := r.warnings
  metadata := r.metadata

namespace StandingStage

def fresh (name : String) (duty : Duty) : StandingStage :=
  ⟨name, duty, duty.tracker⟩

def reset (s : StandingStage) : StandingStage :=
  { s with tracker := s.tracker.reset }

def run (s : StandingStage) (disk : Disk) (data : StageData) :
    Journaling (Option StageData × StandingStage) := fun journal =>
  let (output, done) := ((s.duty.stage s.name disk).run data).run ⟨s.tracker, journal⟩
  ((output, { s with tracker := done.tracker }), done.journal)

/-- Clears the accounts of a stage, runs it and adds them to those of the pipeline. -/
def round (s : StandingStage) (disk : Disk) (r : Round) : Journaling (StandingStage × Round) := do
  Journaling.emit (.component "PipelineStage" s.name .started .empty)
  let (output, s) ← s.reset.run disk r.data
  let run : StageRun := ⟨s.name, output, s.tracker.summary⟩
  Journaling.log ⟨.debug, "engine::pipeline",
    "Pipeline stage " ++ s.name ++ " finished: " ++ run.status.name⟩
  Journaling.emit (.component "PipelineStage" s.name run.status .empty)
  return (s, r.add run)

end StandingStage

structure StandingPipeline where
  stages : List StandingStage
  stats : PipelineStats

namespace StandingPipeline

def empty : StandingPipeline :=
  ⟨[], ⟨0, 0, 0⟩⟩

def add (p : StandingPipeline) (name : String) (duty : Duty) : StandingPipeline where
  stages := p.stages ++ [.fresh name duty]
  stats := { p.stats with total := p.stats.total + 1 }

def build (plan : List (String × Duty)) : StandingPipeline :=
  plan.foldl (fun p s => p.add s.1 s.2) empty

def rounds (disk : Disk) : List StandingStage → Round → Journaling (List StandingStage × Round)
  | [], r => return ([], r)
  | s :: rest, r => do
    let (s, r) ← s.round disk r
    let (rest, r) ← rounds disk rest r
    return (s :: rest, r)

/-- Runs a pipeline on an input and keeps what it leaves in its stages and counts. -/
def execute (p : StandingPipeline) (disk : Disk) (input : StageData) :
    Journaling (PipelineResult × StandingPipeline) := do
  Pipeline.tell .started .empty
  let (stages, r) ← rounds disk p.stages ⟨input, p.stats.cleared, [], [], .empty⟩
  Pipeline.tell (if r.result.success then .completed else .failed) (.ofList r.stats.members)
  return (r.result, ⟨stages, r.stats⟩)

end StandingPipeline

/-- What is seen of one run: its result, the counts after it and what was told during it. -/
structure Visit where
  result : PipelineResult
  stats : PipelineStats
  told : Journal

namespace StandingPipeline

/-- One run, what is seen of it, and the pipeline and the journal after it. -/
def visit (p : StandingPipeline) (disk : Disk) (input : StageData) (journal : Journal) :
    Visit × StandingPipeline × Journal :=
  let ((result, p), after) := (p.execute disk input).run journal
  (⟨result, p.stats, after.drop journal.length⟩, p, after)

/-- What is seen of runs on one input after the other, each on the files of its time. -/
def serve (p : StandingPipeline) (journal : Journal) : List (Disk × StageData) → List Visit
  | [] => []
  | (disk, input) :: rest =>
    let (seen, p, journal) := p.visit disk input journal
    seen :: p.serve journal rest

end StandingPipeline

end DaxMigration.Migration
