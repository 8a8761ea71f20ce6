import DaxMigration.CommandLine.Run
import DaxMigration.Proofs.Migration.Accounting

/-!
# The code of the exit

A run that gets through its inputs and its report ends with zero if all its results are successes,
and with one otherwise: the engine counts as failed just the results that are none.
-/

namespace DaxMigration.CommandLine

open Logging (LogFile Verbosity)
open Migration
open Storage (FileTree)

variable {t : MigrationStats}

theorem counts_convertInput (e : Engine) (o : Options) (input : String) :
    Migrating.Counts t (convertInput e o input) fun outcome t' =>
      ∀ rs, outcome = .ok rs → t' = (rs.map (·.2)).foldl MigrationStats.add t := by
  unfold convertInput
  refine Migrating.counts_get.bind ?_
  rintro s _ rfl
  split
  · refine (e.counts_convertDirectory input o.recursive).bind ?_
    rintro outcome t' hOutcome
    cases outcome with
    | ok found =>
      refine Migrating.counts_pure ?_
      rintro rs ⟨⟩
      rw [hOutcome.2, List.map_map]
      simp [Function.comp_def]
    | error error => exact Migrating.counts_pure (by rintro rs ⟨⟩)
  · refine (e.counts_convertFile input o.name).bind ?_
    rintro r _ ⟨-, rfl⟩
    refine Migrating.counts_pure ?_
    rintro rs ⟨⟩
    rfl

theorem counts_convertInputs (e : Engine) (o : Options) (inputs : List String) :
    Migrating.Counts t (convertInputs e o inputs) fun outcome t' =>
      ∀ rs, outcome = .ok rs → t' = (rs.map (·.2)).foldl MigrationStats.add t := by
  induction inputs generalizing t with
  | nil => exact Migrating.counts_pure (by rintro rs ⟨⟩; rfl)
  | cons input rest ih =>
    unfold convertInputs
    refine (counts_convertInput e o input).bind ?_
    rintro outcome t' hFirst
    cases outcome with
    | error error => exact Migrating.counts_pure (by rintro rs ⟨⟩)
    | ok first =>
      refine ih.bind ?_
      rintro others t'' hRest
      refine Migrating.counts_pure ?_
      rintro rs hAll
      cases others with
      | error error => exact absurd hAll (by rintro ⟨⟩)
      | ok others =>
        obtain rfl : first ++ others = rs := Except.ok.inj hAll
        rw [hRest others rfl, hFirst first rfl, List.map_append, List.foldl_append]

theorem exists_convertInput (e : Engine) (o : Options) (input : String) (s : Progress) :
    ∃ rs after, (convertInput e o input).run s = (.ok rs, after) := by
  unfold convertInput
  by_cases hDirectory : s.files.isDirectory input = true
  · obtain ⟨found, after, hFound⟩ : ∃ found after,
        (e.convertDirectory input o.recursive).run s = (.ok found, after) := by
      unfold Engine.convertDirectory
      simp only [StateT.run_bind, StateT.run_get, pure_bind, hDirectory, if_true]
      exact ⟨_, _, rfl⟩
    simp only [StateT.run_bind, StateT.run_get, pure_bind, hDirectory, if_true, hFound]
    exact ⟨_, _, rfl⟩
  · simp only [StateT.run_bind, StateT.run_get, pure_bind, hDirectory]
    exact ⟨_, _, rfl⟩

/-- No input stops a run: what is not a directory is taken for a file. -/
theorem exists_convertInputs (e : Engine) (o : Options) (inputs : List String) (s : Progress) :
    ∃ results after, (convertInputs e o inputs).run s = (.ok results, after) := by
  induction inputs generalizing s with
  | nil => exact ⟨[], s, rfl⟩
  | cons input rest ih =>
    obtain ⟨first, between, hFirst⟩ := exists_convertInput e o input s
    obtain ⟨others, after, hRest⟩ := ih between
    refine ⟨first ++ others, after, ?_⟩
    unfold convertInputs
    rw [StateT.run_bind, hFirst]
    show ((convertInputs e o rest >>= fun rs => pure (rs.map (first ++ ·))) : Migrating _).run
      between = _
    rw [StateT.run_bind, hRest]
    rfl

inductive GetsThrough (words : List String) (session : Session) (files : FileTree)
    (results : List (String × PipelineResult)) : Prop
  | intro {o : Options} {verbosity : Verbosity} {log : Option LogFile} {files' : FileTree}
    {e : Engine} {s after : Progress} (hWords : Options.ofWords words = .ok o)
    (hPrepared : (prepare o).run.run files = (.ok (verbosity, log), files'))
    (hStarted : Engine.start o.settings session { files := files', log } = .ok (e, s))
    (hNamed : namesOneFile o s.files = true)
    (hInputs : (convertInputs e o o.inputs).run s = (.ok results, after))
    (hReport : ((saveReport e o).run after).1 = .ok ())

theorem stats_start {settings : Settings} {session : Session} {disk : Logging.Disk} {e : Engine}
    {s : Progress} (h : Engine.start settings session disk = .ok (e, s)) : s.stats = {} := by
  unfold Engine.start at h
  cases hCatalogue : settings.catalogue disk with
  | error error => rw [hCatalogue] at h; cases h
  | ok loaded => rw [hCatalogue] at h; cases h; rfl

theorem exit_work {e : Engine} {o : Options} {s after : Progress}
    {results : List (String × PipelineResult)} (hNamed : namesOneFile o s.files = true)
    (hInputs : (convertInputs e o o.inputs).run s = (.ok results, after))
    (hReport : ((saveReport e o).run after).1 = .ok ()) :
    ((work e o).run s).1.exit = .ok (if after.stats.failed = 0 then 0 else 1) := by
  rcases hSaved : (saveReport e o).run after with ⟨reported, last⟩
  rw [hSaved] at hReport
  obtain rfl : reported = .ok () := hReport
  unfold work
  simp only [StateT.run_bind, StateT.run_get, pure_bind, hNamed, Bool.not_true, Bool.false_eq_true,
    if_false, hInputs]
  show ((StateT.run _ after : Id (Work × Progress)).1).exit = _
  simp only [StateT.run_bind, StateT.run_get, pure_bind, hSaved]
  show ((StateT.run _ last : Id (Work × Progress)).1).exit = _
  simp only
  split <;> rfl

theorem GetsThrough.exit_eq {words : List String} {session : Session} {files : FileTree}
    {results : List (String × PipelineResult)} (h : GetsThrough words session files results) :
    (run words session files).exit = if results.all (·.2.success) then 0 else 1 := by
  obtain ⟨hWords, hPrepared, hStarted, hNamed, hInputs, hReport⟩ := h
  rename_i o verbosity log files' e s after
  have hStats := counts_convertInputs e o o.inputs s rfl
  rw [hInputs] at hStats
  have hFailed : after.stats.failed = results.countP (!·.2.success) := by
    rw [hStats results rfl, stats_start hStarted, foldl_add_eq]
    simp [List.countP_map, Function.comp_def]
  -- The code is decided by the count of failures, which was taken before the report was saved.
  have hExit := exit_work hNamed hInputs hReport
  rcases hDone : (work e o).run s with ⟨done, last⟩
  rw [hDone, hFailed] at hExit
  replace hExit : done.exit = _ := hExit
  have hAll : results.countP (!·.2.success) = 0 ↔ results.all (·.2.success) = true := by
    simp [List.countP_eq_zero]
  unfold run runOptions perform
  simp only [hWords, hPrepared, hStarted, hDone, hExit, hAll]

/-- An engine counts each file once, as converted or as failed, and what it counts are its results;
those that are successes name the four artifacts of their name, and no others do. So a run of the
command that gets through its inputs and its report ends with zero just if each result is one. -/
theorem accounts_balanced :
    (∀ (e : Engine) (w : Workspace) (calls : List EngineCall),
      let (results, after) := (EngineCall.performAll e calls).run { toWorkspace := w }
      after.stats.files = after.stats.successful + after.stats.failed ∧
        after.stats.files = results.length ∧
        after.stats.successful = results.countP (·.2.success) ∧
        after.stats.warnings = (results.map (·.2.warnings.length)).sum ∧
        ∀ r ∈ results, r.1.Gives e r.2) ∧
      ∀ (words : List String) (session : Session) (files : FileTree)
        (results : List (String × PipelineResult)), GetsThrough words session files results →
          ((run words session files).exit = 0 ↔ ∀ r ∈ results, r.2.success = true) ∧
            (run words session files).exit ≤ 1 := by
  refine ⟨fun e w calls => ?_, fun words session files results h => ?_⟩
  · obtain ⟨hGives, hStats⟩ := EngineCall.counts_performAll e calls { toWorkspace := w } rfl
    rcases hRun : (EngineCall.performAll e calls).run { toWorkspace := w } with ⟨results, after⟩
    rw [hRun, foldl_add_eq] at hStats
    rw [hRun] at hGives
    replace hStats : after.stats = ⟨_, _, _, _⟩ := hStats
    simp only [hStats, Nat.zero_add]
    refine ⟨(countP_success _).symm, List.length_map _, ?_, ?_, hGives⟩
    · rw [List.countP_map]
      rfl
    · rw [List.map_map]
      rfl
  · rw [h.exit_eq, ← List.all_eq_true]
    cases results.all (·.2.success) <;> simp

/-- A directory that holds a small workbook and one that is cut short. -/
def shelf : FileTree :=
  (FileTree.empty.put ["small.twb"] (.file "<workbook/>".toUTF8)).put ["cut.twb"]
    (.file "<workbook>".toUTF8)

def shelfWords : List String :=
  ["small.twb", "cut.twb", "--report", "report.json"]

def shelfOptions : Options :=
  { inputs := ["small.twb", "cut.twb"], report := some "report.json" }

def shelfEngine : Engine :=
  ⟨shelfOptions.settings, .builtin, ⟨"session", "now"⟩⟩

def shelfStart : Progress where
  files := shelf
  journal := [.line ⟨.info, Engine.logTarget, "Migration engine initialized (session session)"⟩,
    .line ⟨.info, Engine.logTarget, "Output directory: output"⟩]

/-- One file is converted, the other fails, and the report is saved. -/
theorem accounts_balanced_shelf : ∃ results,
    GetsThrough shelfWords ⟨"session", "now"⟩ shelf results ∧
      results.map (·.2.success) = [true, false] ∧
      ((run shelfWords ⟨"session", "now"⟩ shelf).exit = 0 ↔ ∀ r ∈ results, r.2.success = true) ∧
      (run shelfWords ⟨"session", "now"⟩ shelf).exit = 1 := by
  obtain ⟨results, after, hInputs⟩ :=
    exists_convertInputs shelfEngine shelfOptions shelfOptions.inputs shelfStart
  have hSuccess : results.map (·.2.success) = [true, false] := by
    have hAll : ((convertInputs shelfEngine shelfOptions shelfOptions.inputs).run
        shelfStart).1.toOption.map (·.map (·.2.success)) = some [true, false] := by decide +kernel
    rw [hInputs] at hAll
    exact Option.some.inj hAll
  have hReport : ((saveReport shelfEngine shelfOptions).run after).1 = .ok () := by
    have hSaved : ((saveReport shelfEngine shelfOptions).run ((convertInputs shelfEngine shelfOptions
        shelfOptions.inputs).run shelfStart).2).1.isOk = true := by decide +kernel
    rw [hInputs] at hSaved
    generalize ((saveReport shelfEngine shelfOptions).run after).1 = saved at hSaved ⊢
    cases saved with
    | ok => rfl
    | error => cases hSaved
  have hThrough : GetsThrough shelfWords ⟨"session", "now"⟩ shelf results :=
    .intro (o := shelfOptions) rfl rfl (e := shelfEngine) (s := shelfStart) rfl rfl hInputs hReport
  exact ⟨results, hThrough, hSuccess, (accounts_balanced.2 _ _ _ _ hThrough).1, by decide +kernel⟩

end DaxMigration.CommandLine
