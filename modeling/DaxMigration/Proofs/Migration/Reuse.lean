import DaxMigration.Proofs.Migration.Independence

/-!
# Runs that leave no trace

Whatever a standing pipeline has been through, its next run begins with the accounts and the counts
of a new one.
-/

namespace DaxMigration.Migration

open Logging (Disk)
open Storage (FileTree)

def Pipeline.seen (p : Pipeline) (input : StageData) : Visit :=
  let done := (p.execute input).run []
  ⟨done.1.1, done.1.2, done.2⟩

/-! ## What the last run left -/

namespace StandingPipeline

/-- Pipelines with the same stages, whatever accounts and counts are left in them. -/
def Like (p q : StandingPipeline) : Prop :=
  p.stages.map StandingStage.reset = q.stages.map StandingStage.reset ∧ p.stats.total = q.stats.total

theorem like_refl (p : StandingPipeline) : p.Like p :=
  ⟨rfl, rfl⟩

theorem Like.trans {p q r : StandingPipeline} (h : p.Like q) (h' : q.Like r) : p.Like r :=
  ⟨h.1.trans h'.1, h.2.trans h'.2⟩

theorem rounds_reset (d : Disk) (stages : List StandingStage) (r : Round) :
    rounds d stages r = rounds d (stages.map StandingStage.reset) r := by
  induction stages generalizing r with
  | nil => rfl
  | cons s rest ih =>
    -- A round begins with clearing its stage, and clearing twice is clearing once.
    have hFirst : s.round d r = s.reset.round d r := rfl
    rw [List.map_cons, rounds, rounds, hFirst]
    refine bind_congr fun done => ?_
    obtain ⟨s, r⟩ := done
    simp only [ih r]

/-- A run begins with clearing all that is left. -/
theorem Like.execute_eq {p q : StandingPipeline} (h : p.Like q) (d : Disk) (input : StageData) :
    p.execute d input = q.execute d input := by
  unfold execute
  have hCleared : p.stats.cleared = q.stats.cleared := by simp only [PipelineStats.cleared, h.2]
  rw [rounds_reset d p.stages, rounds_reset d q.stages, h.1, hCleared]

theorem rounds_cons (d : Disk) (s : StandingStage) (rest : List StandingStage) (r : Round)
    (journal : Journal) :
    (rounds d (s :: rest) r).run journal =
      let first := (s.round d r).run journal
      let others := (rounds d rest first.1.2).run first.2
      ((first.1.1 :: others.1.1, others.1.2), others.2) :=
  rfl

/-- All that a run leaves in a stage is cleared by the next; its name is not touched. -/
theorem reset_round (s : StandingStage) (d : Disk) (r : Round) (journal : Journal) :
    ((s.round d r).run journal).1.1.reset = s.reset := by
  have hName (journal : Journal) : (((s.duty.stage s.name d).run r.data).run
      ⟨s.tracker.reset, journal⟩).2.tracker.name = s.tracker.name :=
    ((s.duty.telling_stage s.name d).handled r.data _).name_eq
  have hTracker (journal : Journal) : (((s.duty.stage s.name d).run r.data).run
      ⟨s.tracker.reset, journal⟩).2.tracker.reset = s.tracker.reset := by
    rw [Tracker.reset, hName, Tracker.reset]
  exact congrArg (StandingStage.mk s.name s.duty) (hTracker _)

theorem total_add (r : Round) (run : StageRun) : (r.add run).stats.total = r.stats.total := by
  unfold Round.add
  simp only
  split <;> rfl

theorem like_rounds (d : Disk) (stages : List StandingStage) (r : Round) (journal : Journal) :
    ((rounds d stages r).run journal).1.1.map StandingStage.reset =
        stages.map StandingStage.reset ∧
      ((rounds d stages r).run journal).1.2.stats.total = r.stats.total := by
  induction stages generalizing r journal with
  | nil => exact ⟨rfl, rfl⟩
  | cons s rest ih =>
    obtain ⟨hStages, hTotal⟩ := ih ((s.round d r).run journal).1.2 ((s.round d r).run journal).2
    have hRound : ((s.round d r).run journal).1.2.stats.total = r.stats.total := total_add r _
    refine ⟨?_, hTotal.trans hRound⟩
    rw [List.map_cons, ← reset_round s d r journal, ← hStages]
    rfl

theorem like_execute (p : StandingPipeline) (d : Disk) (input : StageData) (journal : Journal) :
    ((p.execute d input).run journal).1.2.Like p :=
  like_rounds d p.stages ⟨input, p.stats.cleared, [], [], .empty⟩ _

/-! ## A run of a new pipeline -/

theorem build_append (plan : List (String × Duty)) (s : String × Duty) :
    build (plan ++ [s]) = (build plan).add s.1 s.2 := by
  rw [build, List.foldl_append]
  rfl

theorem build_eq (plan : List (String × Duty)) :
    build plan = ⟨plan.map fun s => .fresh s.1 s.2, ⟨plan.length, 0, 0⟩⟩ := by
  induction plan using List.reverseRecOn with
  | nil => rfl
  | append_singleton plan s ih =>
    rw [build_append, ih, List.map_append, List.length_append]
    rfl

theorem round_fresh (duty : Duty) (name : String) (d : Disk) (r : Round) (journal : Journal) :
    (((StandingStage.fresh name duty).round d r).run journal).1.2 =
        r.add (((duty.stage name d).report r.data).run journal).1 ∧
      (((StandingStage.fresh name duty).round d r).run journal).2 =
        (((duty.stage name d).report r.data).run journal).2 := by
  cases duty <;> exact ⟨rfl, rfl⟩

theorem rounds_fresh (plan : List (String × Duty)) (d : Disk) (r : Round) (journal : Journal) :
    ((rounds d (plan.map fun s => .fresh s.1 s.2) r).run journal).1.2 =
        (((Pipeline.ofPlan plan d).runs r.data).run journal).1.foldl Round.add r ∧
      ((rounds d (plan.map fun s => .fresh s.1 s.2) r).run journal).2 =
        (((Pipeline.ofPlan plan d).runs r.data).run journal).2 := by
  induction plan generalizing r journal with
  | nil => exact ⟨rfl, rfl⟩
  | cons s plan ih =>
    obtain ⟨hRound, hAfter⟩ := round_fresh s.2 s.1 d r journal
    simp only [List.map_cons, rounds_cons, hRound, hAfter]
    exact ih _ _

/-- Adding up runs from the first to the last gives what there is to say of all of them. -/
theorem foldl_add (rs : List StageRun) (r : Round) :
    rs.foldl Round.add r =
      ⟨Pipeline.lastOutput r.data rs,
        ⟨r.stats.total, r.stats.completed + rs.countP (·.output.isSome),
          r.stats.failed + rs.countP (·.output.isNone)⟩,
        r.errors ++ rs.flatMap (·.summary.errors), r.warnings ++ rs.flatMap (·.summary.warnings),
        rs.foldl (fun m run => m.insert run.name run.summary.toJson) r.metadata⟩ := by
  induction rs generalizing r with
  | nil => simp [Pipeline.lastOutput]
  | cons run rs ih =>
    rw [List.foldl_cons, ih]
    cases hOutput : run.output <;>
      simp +arith [Round.add, Pipeline.lastOutput, hOutput]

theorem result_foldl_add (input : StageData) (rs : List StageRun) :
    (rs.foldl Round.add ⟨input, ⟨rs.length, 0, 0⟩, [], [], .empty⟩).result =
        Pipeline.result input rs ∧
      (rs.foldl Round.add ⟨input, ⟨rs.length, 0, 0⟩, [], [], .empty⟩).stats =
        Pipeline.stats rs := by
  rw [foldl_add]
  simp only [Nat.zero_add]
  refine ⟨?_, rfl⟩
  have hSuccess : decide (rs.countP (·.output.isNone) = 0) = rs.all (·.output.isSome) := by
    rw [Bool.eq_iff_iff, Pipeline.all_iff_countP_eq_zero, decide_eq_true_iff]
  rw [Round.result, Pipeline.result, hSuccess, KeyMap.ofList, List.foldl_map]
  rfl

theorem execute_run (p : StandingPipeline) (d : Disk) (input : StageData) (journal : Journal) :
    (p.execute d input).run journal =
      let done := (rounds d p.stages ⟨input, p.stats.cleared, [], [], .empty⟩).run
        (journal ++ [Pipeline.eventOf .started .empty])
      ((done.1.2.result, ⟨done.1.1, done.1.2.stats⟩),
        done.2 ++ [Pipeline.eventOf (if done.1.2.result.success then .completed else .failed)
          (.ofList done.1.2.stats.members)]) :=
  rfl

/-- A new pipeline does what its stages do. -/
theorem execute_build (plan : List (String × Duty)) (d : Disk) (input : StageData)
    (journal : Journal) :
    let done := ((build plan).execute d input).run journal
    ((done.1.1, done.1.2.stats), done.2) =
      ((Pipeline.ofPlan plan d).execute input).run journal := by
  have hLength : (((Pipeline.ofPlan plan d).runs input).run
      (journal ++ [Pipeline.eventOf .started .empty])).1.length = plan.length :=
    (Pipeline.ran_runs _ input _).length.trans (List.length_map _)
  obtain ⟨hResult, hStats⟩ := result_foldl_add input (((Pipeline.ofPlan plan d).runs input).run
    (journal ++ [Pipeline.eventOf .started .empty])).1
  obtain ⟨hRounds, hAfter⟩ := rounds_fresh plan d ⟨input, ⟨plan.length, 0, 0⟩, [], [], .empty⟩
    (journal ++ [Pipeline.eventOf .started .empty])
  rw [hLength] at hResult hStats
  simp only [execute_run, build_eq, PipelineStats.cleared, hRounds, hAfter, hResult, hStats]
  rfl

/-! ## One run after the other -/

theorem visit_eq (p : StandingPipeline) (d : Disk) (input : StageData) (journal : Journal) :
    p.visit d input journal =
      let done := (p.execute d input).run journal
      (⟨done.1.1, done.1.2.stats, done.2.drop journal.length⟩, done.1.2, done.2) :=
  rfl

/-- What is seen of a pipeline that is built, run on one input and thrown away. -/
def alone (plan : List (String × Duty)) (d : Disk) (input : StageData) : Visit :=
  ((build plan).visit d input []).1

section

variable {p : StandingPipeline} {plan : List (String × Duty)} {d d' : Disk} {input : StageData}

theorem visit_of_like (h : p.Like (build plan)) (hFiles : input.ReadsAlike d d')
    (journal : Journal) :
    (p.visit d input journal).1 = (Pipeline.ofPlan plan d').seen input := by
  obtain ⟨⟨result, stats⟩, told, hAdds⟩ := Pipeline.adds_execute plan hFiles
  have hBuilt := execute_build plan d input journal
  rw [hAdds journal] at hBuilt
  simp only [Prod.mk.injEq] at hBuilt
  obtain ⟨⟨hResult, hStats⟩, hAfter⟩ := hBuilt
  rw [Pipeline.seen, ← Pipeline.execute_congr plan hFiles, hAdds [], visit_eq, h.execute_eq]
  simp only [hResult, hStats, hAfter, List.drop_left, List.nil_append]

theorem serve_of_like (h : p.Like (build plan)) {visits : List (Disk × StageData)}
    (hFiles : ∀ v ∈ visits, v.2.ReadsAlike v.1 d) (journal : Journal) :
    p.serve journal visits = visits.map fun v => (Pipeline.ofPlan plan d).seen v.2 := by
  induction visits generalizing p journal with
  | nil => rfl
  | cons v rest ih =>
    obtain ⟨hFirst, hRest⟩ := List.forall_mem_cons.1 hFiles
    have hLike : (p.visit v.1 v.2 journal).2.1.Like (build plan) :=
      (like_execute p v.1 v.2 journal).trans h
    have hSeen := visit_of_like h hFirst journal
    calc p.serve journal (v :: rest)
        = (p.visit v.1 v.2 journal).1 ::
            (p.visit v.1 v.2 journal).2.1.serve (p.visit v.1 v.2 journal).2.2 rest := rfl
      _ = (v :: rest).map fun v => (Pipeline.ofPlan plan d).seen v.2 := by
          rw [hSeen, ih hLike hRest, List.map_cons]

end

/-- Whatever was run before, each run of a pipeline shows the same as that of a new one on the same
input: its result, its counts and what it tells. If the input is a path then the file there must be
the same. -/
theorem serve_eq_alone (plan : List (String × Duty)) (disk : Disk)
    (visits : List (Disk × StageData)) (hFiles : ∀ v ∈ visits, v.2.ReadsAlike v.1 disk)
    (journal : Journal) :
    (build plan).serve journal visits = visits.map (fun v => alone plan disk v.2) ∧
      ∀ v ∈ visits, alone plan disk v.2 = (Pipeline.ofPlan plan disk).seen v.2 := by
  have hAlone : ∀ v ∈ visits, alone plan disk v.2 = (Pipeline.ofPlan plan disk).seen v.2 :=
    fun v hMem =>
      visit_of_like (like_refl _) (fun path hPath => (hFiles v hMem path hPath).right) []
  refine ⟨?_, hAlone⟩
  rw [serve_of_like (like_refl _) hFiles]
  exact List.map_congr_left fun v hMem => (hAlone v hMem).symm

def threeStages : List (String × Duty) :=
  [("parse", .documents .builtin),
    ("refuse", .script fun _ => { warnings := ["late"], error := some (.unexpected "refused") }),
    ("convert", .formulas (Catalogue.builtin.target "Sales" "OrderDate"))]

def reportFiles : FileTree :=
  FileTree.empty.put ["report.twb"] (.file "<workbook/>".toUTF8)

/-- A document, a formula, and the document again after another file was written. -/
def threeVisits : List (Disk × StageData) :=
  [({ files := reportFiles }, .path "report.twb"),
    ({ files := reportFiles }, .formula "AVG([Amount])"),
    ({ files := reportFiles.put ["notes.txt"] (.file "late".toUTF8) }, .path "report.twb")]

theorem readsAlike_threeVisits :
    ∀ v ∈ threeVisits, v.2.ReadsAlike v.1 { files := reportFiles } := by
  have hPath (files : FileTree) (h : files.find? "report.twb" = reportFiles.find? "report.twb") :
      (StageData.path "report.twb").ReadsAlike { files } { files := reportFiles } := by
    rintro path ⟨⟩ said said'
    rwa [Disk.after_of_log_eq_none rfl, Disk.after_of_log_eq_none rfl]
  have hFormula : (StageData.formula "AVG([Amount])").ReadsAlike { files := reportFiles }
      { files := reportFiles } := by
    rintro path ⟨⟩
  simp only [threeVisits, List.forall_mem_cons]
  exact ⟨hPath _ rfl, hFormula, hPath _ rfl, by simp⟩

theorem serve_threeVisits :
    (∀ v ∈ threeVisits, v.2.ReadsAlike v.1 { files := reportFiles }) ∧
      (build threeStages).serve [] threeVisits =
        threeVisits.map (fun v => alone threeStages { files := reportFiles } v.2) ∧
      ∀ v ∈ threeVisits, alone threeStages { files := reportFiles } v.2 =
        (Pipeline.ofPlan threeStages { files := reportFiles }).seen v.2 :=
  ⟨readsAlike_threeVisits,
    serve_eq_alone threeStages { files := reportFiles } threeVisits readsAlike_threeVisits []⟩

end StandingPipeline

end DaxMigration.Migration
