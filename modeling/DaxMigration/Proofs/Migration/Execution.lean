import DaxMigration.Migration.Pipeline
import DaxMigration.Migration.Script
import DaxMigration.Proofs.KeyMap
import DaxMigration.Proofs.Migration.Handling
import Mathlib.Data.List.Induction

/-!
# What a pipeline does

Each stage is run once, on the output of the nearest stage before it that had one. A stage that only
tells while it converts puts its one item down in one way, and from that the counts, the errors and
the success of the whole pipeline follow.
-/

namespace DaxMigration.Migration

open Tracking

/-! ## One stage -/

/-- The stage is a converter that leaves its counts and its errors to the stage. -/
inductive Stage.Telling : Stage → Prop
  | ofConverter {α β : Type} (name : String) (tracker : Tracker) {c : Converter α β}
    (take : StageData → Option α) (give : β → StageData)
    (hTells : ∀ input, OnlyTells (c.convert input)) :
    (Stage.ofConverter name tracker c take give).Telling

theorem Stage.telling_documents (name : String) (catalogue : Catalogue) (disk : Logging.Disk) :
    (Stage.documents name catalogue disk).Telling :=
  .ofConverter _ _ _ _ (Documents.onlyTells_convert catalogue disk)

theorem Stage.telling_formulas (name : String) (t : Dax.Target) :
    (Stage.formulas name t).Telling :=
  .ofConverter _ _ _ _ fun input => (Formulas.alwaysTells_convert t input).onlyTells

theorem Script.alwaysTells_convert (script : Script) (formula : String) :
    AlwaysTells (script.convert formula) := by
  have hWarnings : AlwaysTells ((script formula).warnings.forM fun message =>
      Tracking.addWarning message .empty) :=
    fun component => ⟨_, _, _, tells_forM fun message _ =>
      tells_addWarning component message .empty⟩
  refine hWarnings.bind fun _ => ?_
  cases (script formula).error with
  | some e => exact alwaysTells_pure _
  | none => exact alwaysTells_pure _

theorem Stage.telling_scripted (name : String) (script : Script) :
    (Stage.scripted name script).Telling :=
  .ofConverter _ _ _ _ fun formula => (script.alwaysTells_convert formula).onlyTells

theorem Tracker.Handled.map {α β : Type} {t t' : Tracker} {outcome : Option α}
    (h : t.Handled outcome t') (f : α → β) : t.Handled (outcome.map f) t' := by
  cases h with
  | converted output ws => exact .converted (f output) ws
  | failed info ws => exact .failed info ws
  | skipped => exact .skipped

theorem Stage.Telling.handled {s : Stage} (h : s.Telling) (data : StageData) (st : Tracked) :
    st.tracker.Handled ((s.run data).run st).1 ((s.run data).run st).2.tracker := by
  cases h with
  | ofConverter name tracker take give hTells =>
    unfold Stage.ofConverter
    simp only
    cases take data with
    | some input => exact (handled_handle (hTells input) name st).map give
    | none => exact handled_decline name data st

structure StageRun.Settled (r : StageRun) : Prop where
  processed : r.summary.stats.processed = 1
  one : r.summary.stats.converted + r.summary.stats.failed + r.summary.stats.skipped = 1
  converted_iff : r.summary.stats.converted = 1 ↔ r.output.isSome = true
  errors : r.summary.errors.length = r.summary.stats.failed

theorem settled_of_handled {name component : String} {output : Option StageData} {t : Tracker}
    (h : ({ name := component } : Tracker).Handled output t) :
    StageRun.Settled ⟨name, output, t.summary⟩ := by
  cases h <;> exact ⟨rfl, rfl, by simp [Tracker.summary], rfl⟩

theorem Stage.Telling.settled {s : Stage} (h : s.Telling) (data : StageData) (journal : Journal) :
    ((s.report data).run journal).1.Settled :=
  settled_of_handled (h.handled data ⟨s.tracker.reset, _⟩)

/-! ## All stages in order -/

namespace Pipeline

/-- What the next stage gets: the output of the nearest run before it that had one, or the input. -/
def received (input : StageData) (earlier : List StageRun) : StageData :=
  (earlier.reverse.findSome? (·.output)).getD input

theorem received_append (input : StageData) (rs : List StageRun) (r : StageRun) :
    received input (rs ++ [r]) = r.output.getD (received input rs) := by
  rw [received, List.reverse_append, List.reverse_singleton, List.singleton_append,
    List.findSome?_cons]
  cases r.output <;> rfl

theorem lastOutput_eq_received (input : StageData) (rs : List StageRun) :
    lastOutput input rs = received input rs := by
  induction rs using List.reverseRecOn with
  | nil => rfl
  | append_singleton rs r ih =>
    rw [received_append, ← ih, lastOutput, List.foldl_append]
    rfl

/-- The runs of some stages, each run once and in order on what the runs before it had left, and the
journal before and after them. -/
inductive Ran (input : StageData) : Pipeline → Journal → List StageRun → Journal → Prop
  | nil (journal : Journal) : Ran input [] journal [] journal
  | snoc {p : Pipeline} {rs : List StageRun} {before between after : Journal} {s : Stage}
    {r : StageRun} (hRan : Ran input p before rs between)
    (hRun : (s.report (received input rs)).run between = (r, after)) :
    Ran input (p ++ [s]) before (rs ++ [r]) after

section

variable {input : StageData} {p : Pipeline} {before after : Journal} {rs : List StageRun}

theorem Ran.append (h : Ran input p before rs after) (q : Pipeline) :
    Ran input (p ++ q) before (rs ++ ((q.runs (received input rs)).run after).1)
      ((q.runs (received input rs)).run after).2 := by
  induction q generalizing p rs after with
  | nil =>
    have hNone : (Pipeline.runs [] (received input rs)).run after = ([], after) := rfl
    rwa [hNone, List.append_nil, List.append_nil]
  | cons s q ih =>
    have hStep := h.snoc (s := s) rfl
    have hRest := ih hStep
    rw [received_append, List.append_assoc, List.append_assoc] at hRest
    exact hRest

theorem ran_runs (p : Pipeline) (input : StageData) (journal : Journal) :
    Ran input p journal ((p.runs input).run journal).1 ((p.runs input).run journal).2 :=
  (Ran.nil journal).append p

/-- Stages on the same input and the same journal run in one way only. -/
theorem Ran.unique (h : Ran input p before rs after) {rs' : List StageRun} {after' : Journal}
    (h' : Ran input p before rs' after') : rs = rs' ∧ after = after' := by
  induction h generalizing rs' after' with
  | nil =>
    generalize hEmpty : ([] : Pipeline) = q at h'
    cases h' with
    | nil => exact ⟨rfl, rfl⟩
    | snoc => simp at hEmpty
  | @snoc p rs _ between _ s r _ hRun ih =>
    generalize hSame : p ++ [s] = q at h'
    cases h' with
    | nil => simp at hSame
    | snoc hRan' hRun' =>
      obtain ⟨rfl, hLast⟩ := List.append_inj' hSame rfl
      obtain rfl := List.cons.inj hLast |>.1
      obtain ⟨rfl, rfl⟩ := ih hRan'
      cases hRun.symm.trans hRun'
      exact ⟨rfl, rfl⟩

theorem Ran.names (h : Ran input p before rs after) : rs.map (·.name) = p.map (·.name) := by
  induction h with
  | nil => rfl
  | snoc _ hRun ih =>
    rw [List.map_append, List.map_append, ih]
    exact congrArg _ (congrArg (fun r : StageRun × Journal => [r.1.name]) hRun.symm)

theorem Ran.length (h : Ran input p before rs after) : rs.length = p.length := by
  simpa using congrArg List.length h.names

theorem Ran.settled (h : Ran input p before rs after) (hTelling : ∀ s ∈ p, s.Telling) :
    ∀ r ∈ rs, r.Settled := by
  induction h with
  | nil => simp
  | @snoc p rs _ between _ s r _ hRun ih =>
    have hLast : r.Settled := by
      have hSettled := (hTelling s (by simp)).settled (received input rs) between
      rwa [hRun] at hSettled
    intro r' hMem
    rcases List.mem_append.1 hMem with hEarlier | hNew
    · exact ih (fun s' hMem' => hTelling s' (by simp [hMem'])) r' hEarlier
    · rwa [List.mem_singleton.1 hNew]

end

/-- A stage without output has an error or is skipped. -/
theorem countP_failed {rs : List StageRun} (h : ∀ r ∈ rs, r.Settled) :
    rs.countP (·.output.isNone) =
      (rs.flatMap (·.summary.errors)).length +
        rs.countP (fun r => r.summary.stats.skipped = 1) := by
  induction rs with
  | nil => rfl
  | cons r rs ih =>
    obtain ⟨hFirst, hRest⟩ := List.forall_mem_cons.1 h
    rw [List.countP_cons, List.countP_cons, List.flatMap_cons, List.length_append, ih hRest,
      hFirst.errors]
    have hOne := hFirst.one
    have hIff := hFirst.converted_iff
    cases hOutput : r.output <;> simp [hOutput] at hIff ⊢ <;> grind

theorem countP_add_countP (rs : List StageRun) :
    rs.countP (·.output.isSome) + rs.countP (·.output.isNone) = rs.length := by
  rw [List.length_eq_countP_add_countP (fun r : StageRun => r.output.isSome),
    Nat.add_left_cancel_iff]
  exact List.countP_congr fun r _ => by simp

theorem all_iff_countP_eq_zero (rs : List StageRun) :
    rs.all (·.output.isSome) = true ↔ rs.countP (·.output.isNone) = 0 := by
  simp [List.countP_eq_zero, Option.ne_none_iff_isSome]

/-! ## The whole pipeline -/

def eventOf (status : Status) (details : Details) : JournalEntry :=
  .event (.component "ConversionPipeline" "pipeline_execution" status details)

structure Executed (p : Pipeline) (input : StageData) (before : Journal) (rs : List StageRun)
    (result : PipelineResult) (stats : PipelineStats) (after : Journal) : Prop where
  ran : ∃ between, Ran input p (before ++ [eventOf .started .empty]) rs between ∧
    after = between ++ [eventOf (if result.success then .completed else .failed)
      (.ofList stats.members)]
  names : rs.map (·.name) = p.map (·.name)
  data : result.data = some (received input rs)
  total : stats.total = p.length
  completed : stats.completed = rs.countP (·.output.isSome)
  adds_up : stats.completed + stats.failed = stats.total
  success_iff : result.success = true ↔ stats.failed = 0
  counts : ∀ r ∈ rs, r.summary.stats.processed = 1 ∧
    r.summary.stats.converted + r.summary.stats.failed + r.summary.stats.skipped = 1 ∧
    (r.summary.stats.converted = 1 ↔ r.output.isSome = true)
  errors : result.errors = rs.flatMap (·.summary.errors)
  warnings : result.warnings = rs.flatMap (·.summary.warnings)
  failures : stats.failed = result.errors.length +
    rs.countP (fun r => r.summary.stats.skipped = 1)
  metadata : result.metadata.entries.Perm (rs.map fun r => (r.name, r.summary.toJson))

/-- A pipeline of stages that only tell, with names that differ, runs each of them once, and its
result and its counts are the accounts of its stages. -/
theorem executed_execute (p : Pipeline) (hTelling : ∀ s ∈ p, s.Telling)
    (hNames : (p.map (·.name)).Nodup) (input : StageData) (journal : Journal) :
    let ((result, stats), after) := (p.execute input).run journal
    ∃ rs, Executed p input journal rs result stats after := by
  have hRan := ran_runs p input (journal ++ [eventOf .started .empty])
  have hSettled := hRan.settled hTelling
  exact ⟨_, {
    ran := ⟨_, hRan, rfl⟩
    names := hRan.names
    data := congrArg some (lastOutput_eq_received _ _)
    total := hRan.length
    completed := rfl
    adds_up := countP_add_countP _
    success_iff := all_iff_countP_eq_zero _
    counts := fun r hMem =>
      ⟨(hSettled r hMem).processed, (hSettled r hMem).one, (hSettled r hMem).converted_iff⟩
    errors := rfl
    warnings := rfl
    failures := countP_failed hSettled
    metadata := KeyMap.entries_ofList_perm (by rwa [List.map_map, ← hRan.names] at *) }⟩

/-- A stage that does not take its data, one that fails, one that warns and one that converts. -/
def mixed : Pipeline :=
  [.documents "parse" .builtin { files := .empty },
    .scripted "refuse" fun _ => { error := some (.unexpected "refused") },
    .scripted "rename" fun _ => { warnings := ["renamed"], output := some "SUM([Amount])" },
    .formulas "convert" (Catalogue.builtin.target "Sales" "OrderDate")]

theorem executed_mixed :
    (∀ s ∈ mixed, s.Telling) ∧ (mixed.map (·.name)).Nodup ∧
      let ((result, stats), after) := (mixed.execute (.formula "AVG([Amount])")).run []
      ∃ rs, Executed mixed (.formula "AVG([Amount])") [] rs result stats after := by
  have hTelling : ∀ s ∈ mixed, s.Telling := by
    simp only [mixed, List.forall_mem_cons]
    exact ⟨Stage.telling_documents _ _ _, Stage.telling_scripted _ _, Stage.telling_scripted _ _,
      Stage.telling_formulas _ _, by simp⟩
  have hNames : (mixed.map (·.name)).Nodup := by decide
  exact ⟨hTelling, hNames, executed_execute mixed hTelling hNames _ []⟩

/-- A stage whose converter counts the item itself while it converts. -/
def overcounting : Pipeline :=
  [.ofConverter "count" { name := "Counter" }
    { supportedTypes := [], accepts := fun _ => true, convert := fun formula : String => do
        Tracking.processed
        return .ok formula }
    StageData.formula? StageData.formula]

/-- A stage that is no converter, yields nothing and puts nothing down. -/
def silent : Pipeline :=
  [⟨"pass", { name := "Silent" }, fun _ => return none⟩]

/-- Names that differ are not enough for the accounts of the stages to add up: where a stage counts for
itself two items are processed, and where it puts nothing down none is. -/
theorem not_executed_overcounting_silent :
    (∀ p ∈ [overcounting, silent], (p.map (·.name)).Nodup) ∧
      ∀ p ∈ [overcounting, silent], ¬
        let ((result, stats), after) := (p.execute (.formula "[a]")).run []
        ∃ rs, Executed p (.formula "[a]") [] rs result stats after := by
  refine ⟨by decide, ?_⟩
  simp only [List.forall_mem_cons, List.not_mem_nil, false_implies, implies_true, and_true]
  constructor
  all_goals
    rintro ⟨rs, h⟩
    obtain ⟨between, hRan, -⟩ := h.ran
    obtain ⟨rfl, -⟩ := hRan.unique (ran_runs _ _ _)
    have hOne := (h.counts _ List.mem_cons_self).1
    revert hOne
    decide

end Pipeline

end DaxMigration.Migration
