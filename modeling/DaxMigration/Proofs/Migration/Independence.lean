import DaxMigration.Migration.Standing
import DaxMigration.Proofs.Migration.Execution
import DaxMigration.Proofs.Workbook.Loading

/-!
# Runs and what was told before them

What a pipeline yields and adds to the journal depends on its input, and on the file if the input is
a path; what the journal holds already does not matter.
-/

namespace DaxMigration.Migration

open Logging (Disk)
open Storage (FileTree)
open Tracking

variable {α β : Type}

/-! ## The journal before a run -/

/-- What the computation does to the accounts and adds to the journal does not depend on the journal
before it. -/
def Tracking.Adds (act : Tracking α) : Prop :=
  ∀ t, ∃ a t' es, ∀ journal, act.run ⟨t, journal⟩ = (a, ⟨t', journal ++ es⟩)

theorem Tracking.adds_pure (a : α) : Adds (pure a) :=
  fun t => ⟨a, t, [], fun journal => by rw [List.append_nil]; rfl⟩

theorem Tracking.Adds.bind {act : Tracking α} {f : α → Tracking β} (h : Adds act)
    (hNext : ∀ a, Adds (f a)) : Adds (act >>= f) := by
  intro t
  obtain ⟨a, t', es, hFirst⟩ := h t
  obtain ⟨b, t'', es', hSecond⟩ := hNext a t'
  refine ⟨b, t'', es ++ es', fun journal => ?_⟩
  calc (act >>= f).run ⟨t, journal⟩ = (f a).run ⟨t', journal ++ es⟩ := by
        rw [StateT.run_bind, hFirst]; rfl
    _ = (b, ⟨t'', journal ++ (es ++ es')⟩) := by rw [hSecond, List.append_assoc]

theorem Tracking.AlwaysTells.adds {act : Tracking α} (h : AlwaysTells act) : Adds act := by
  intro t
  obtain ⟨a, ws, es, hTells⟩ := h t.name
  exact ⟨a, { t with warnings := t.warnings ++ ws }, es, fun journal => hTells ⟨t, journal⟩ rfl⟩

theorem Tracking.adds_emit (e : Event) : Adds (emit e) :=
  fun t => ⟨(), t, [.event e], fun _ => rfl⟩

theorem Tracking.adds_log (l : Logging.Line) : Adds (log l) :=
  fun t => ⟨(), t, [.line l], fun _ => rfl⟩

theorem Tracking.adds_update (f : Tracker → Tracker) : Adds (update f) :=
  fun t => ⟨(), f t, [], fun journal => by rw [List.append_nil]; rfl⟩

theorem Tracking.adds_updateStats (f : ConversionStats → ConversionStats) : Adds (updateStats f) :=
  adds_update fun t => { t with stats := f t.stats }

theorem Tracking.adds_tracker : Adds tracker :=
  fun t => ⟨t, t, [], fun journal => by rw [List.append_nil]; rfl⟩

theorem Tracking.adds_skipped (item : String) : Adds (skipped item) :=
  (adds_emit _).bind fun _ => adds_updateStats _

theorem Tracking.adds_converted (item : String) : Adds (converted item) :=
  adds_tracker.bind fun _ => (adds_emit _).bind fun _ => adds_updateStats _

theorem Tracking.adds_failed (item : String) (e : Error) : Adds (failed item e) :=
  adds_tracker.bind fun _ => (adds_emit _).bind fun _ => (adds_update _).bind fun _ =>
    adds_updateStats _

theorem Tracking.adds_processed : Adds processed :=
  adds_updateStats _

theorem adds_handle {c : Converter α β} {input : α} (h : AlwaysTells (c.convert input))
    (name : String) : Adds (c.handle input name) := by
  have hEnd (outcome : Option β) : Adds (do Tracking.processed; pure outcome) :=
    adds_processed.bind fun _ => adds_pure outcome
  unfold Converter.handle
  simp only [pure_bind]
  split
  · refine h.adds.bind fun outcome => ?_
    cases outcome with
    | ok output => exact (adds_converted name).bind fun _ => hEnd (some output)
    | error e => exact (adds_failed name e).bind fun _ => hEnd none
  · exact (adds_skipped name).bind fun _ => hEnd none

theorem adds_decline (name : String) (data : StageData) : Adds (Stage.decline name data) :=
  (adds_log _).bind fun _ => (adds_skipped name).bind fun _ => adds_processed.bind fun _ =>
    adds_pure none

/-! ## The files of a run -/

def ReadsAlike (d d' : Disk) (path : String) : Prop :=
  ∀ said said', (d.after said).files.find? path = (d'.after said').files.find? path

theorem after_nil (d : Disk) : d.after [] = d := by
  unfold Disk.after
  cases d.log with
  | none => rfl
  | some log =>
    have hUnwritten : log.unwritten [] = [] := List.drop_nil
    simp only [hUnwritten]

section

variable {d d' : Disk} {path : String}

theorem ReadsAlike.find?_eq (h : ReadsAlike d d' path) :
    d.files.find? path = d'.files.find? path := by
  simpa only [after_nil] using h [] []

theorem ReadsAlike.right (h : ReadsAlike d d' path) : ReadsAlike d' d' path :=
  fun said said' => (h [] said).symm.trans (h [] said')

theorem Documents.convert_eq_converted (catalogue : Catalogue) (h : ReadsAlike d d' path) :
    convert catalogue d path = converted catalogue (Workbook.load d'.files path).outcome := by
  rw [convert_eq]
  funext s
  have hFind := h (Journal.log s.journal) []
  rw [after_nil] at hFind
  exact congrArg (fun l => (converted catalogue (Workbook.Loading.outcome l)).run s)
    (Workbook.load_congr hFind)

theorem Documents.handle_congr (catalogue : Catalogue) (h : ReadsAlike d d' path) (name : String) :
    (converter catalogue d).handle path name = (converter catalogue d').handle path name := by
  have hAccepts : (converter catalogue d).accepts path = (converter catalogue d').accepts path := by
    simp only [converter, FileTree.isFile, h.find?_eq]
  have hConvert : (converter catalogue d).convert path = (converter catalogue d').convert path :=
    (convert_eq_converted catalogue h).trans (convert_eq_converted catalogue h.right).symm
  unfold Converter.handle
  rw [hAccepts, hConvert]

theorem Documents.alwaysTells_convert (catalogue : Catalogue) (h : ReadsAlike d d' path) :
    AlwaysTells ((converter catalogue d).convert path) := by
  rw [show (converter catalogue d).convert path = _ from convert_eq_converted catalogue h]
  exact alwaysTells_converted catalogue _

end

def StageData.ReadsAlike (d d' : Disk) (data : StageData) : Prop :=
  ∀ path, data.path? = some path → Migration.ReadsAlike d d' path

theorem Duty.name_stage (duty : Duty) (name : String) (d : Disk) :
    (duty.stage name d).name = name := by
  cases duty <;> rfl

theorem Duty.tracker_stage (duty : Duty) (name : String) (d : Disk) :
    (duty.stage name d).tracker = duty.tracker := by
  cases duty <;> rfl

theorem Duty.telling_stage (duty : Duty) (name : String) (d : Disk) :
    (duty.stage name d).Telling := by
  cases duty with
  | documents catalogue => exact Stage.telling_documents name catalogue d
  | formulas t => exact Stage.telling_formulas name t
  | script s => exact Stage.telling_scripted name s

section

variable {d d' : Disk} {data : StageData}

theorem adds_ofConverter {name : String} {tracker : Tracker} {c : Converter α β}
    {take : StageData → Option α} {give : β → StageData}
    (h : ∀ input, take data = some input → AlwaysTells (c.convert input)) :
    Adds ((Stage.ofConverter name tracker c take give).run data) := by
  unfold Stage.ofConverter
  simp only
  cases hTake : take data with
  | some input => exact (adds_handle (h input hTake) name).bind fun _ => adds_pure _
  | none => exact adds_decline name data

theorem Duty.adds_run (duty : Duty) (name : String) (h : data.ReadsAlike d d') :
    Adds ((duty.stage name d).run data) := by
  cases duty with
  | documents catalogue =>
    exact adds_ofConverter fun path hPath => Documents.alwaysTells_convert catalogue (h path hPath)
  | formulas t => exact adds_ofConverter fun input _ => Formulas.alwaysTells_convert t input
  | script s => exact adds_ofConverter fun formula _ => s.alwaysTells_convert formula

theorem Duty.run_congr (duty : Duty) (name : String) (h : data.ReadsAlike d d') :
    (duty.stage name d).run data = (duty.stage name d').run data := by
  cases duty with
  | documents catalogue =>
    show (Stage.documents name catalogue d).run data = (Stage.documents name catalogue d').run data
    unfold Stage.documents Stage.ofConverter
    simp only
    cases hPath : data.path? with
    | some path => simp only [Documents.handle_congr catalogue (h path hPath) name]
    | none => rfl
  | formulas t => rfl
  | script s => rfl

theorem exists_give_of_run {name : String} {tracker : Tracker} {c : Converter α β}
    {take : StageData → Option α} {give : β → StageData} {s : Tracked} {output : StageData}
    (h : (((Stage.ofConverter name tracker c take give).run data).run s).1 = some output) :
    ∃ b, give b = output := by
  unfold Stage.ofConverter at h
  simp only at h
  cases hTake : take data with
  | some input =>
    rw [hTake] at h
    have hMap : (((c.handle input name).run s).1).map give = some output := h
    obtain ⟨b, -, hGive⟩ := Option.map_eq_some_iff.1 hMap
    exact ⟨b, hGive⟩
  | none =>
    rw [hTake] at h
    exact absurd h (Option.some_ne_none output).symm

/-- No stage yields a path. -/
theorem Duty.path?_output {duty : Duty} {name : String} {s : Tracked} {output : StageData}
    (h : (((duty.stage name d).run data).run s).1 = some output) : output.path? = none := by
  cases duty with
  | documents catalogue =>
    obtain ⟨w, rfl⟩ := exists_give_of_run h
    rfl
  | formulas t =>
    obtain ⟨c, rfl⟩ := exists_give_of_run h
    cases c <;> rfl
  | script script =>
    obtain ⟨formula, rfl⟩ := exists_give_of_run h
    rfl

theorem Duty.readsAlike_output (duty : Duty) (name : String) (journal : Journal)
    (h : data.ReadsAlike d d') :
    ((((duty.stage name d).report data).run journal).1.output.getD data).ReadsAlike d d' := by
  cases hOutput : (((duty.stage name d).report data).run journal).1.output with
  | none => exact h
  | some output =>
    intro path hPath
    rw [Option.getD_some, path?_output hOutput] at hPath
    exact absurd hPath.symm (Option.some_ne_none path)

end

/-! ## Pipelines on any journal -/

def Journaling.Adds (act : Journaling α) : Prop :=
  ∃ a es, ∀ journal, act.run journal = (a, journal ++ es)

theorem Journaling.Adds.bind {act : Journaling α} {f : α → Journaling β} (h : Journaling.Adds act)
    (hNext : ∀ journal, Journaling.Adds (f (act.run journal).1)) : Journaling.Adds (act >>= f) := by
  obtain ⟨a, es, hFirst⟩ := h
  have hSecond := hNext []
  rw [hFirst []] at hSecond
  obtain ⟨b, es', hSecond⟩ := hSecond
  refine ⟨b, es ++ es', fun journal => ?_⟩
  calc (act >>= f).run journal = (f a).run (journal ++ es) := by rw [StateT.run_bind, hFirst]; rfl
    _ = (b, journal ++ (es ++ es')) := by rw [hSecond, List.append_assoc]

/-- Continuations need only agree on the values that they can get. -/
theorem Journaling.bind_congr {act act' : Journaling α} {f f' : α → Journaling β} (h : act = act')
    (hNext : ∀ journal, f (act.run journal).1 = f' (act.run journal).1) :
    act >>= f = act' >>= f' := by
  subst h
  funext journal
  exact congrFun (hNext journal) (act.run journal).2

theorem Journaling.adds_pure (a : α) : Journaling.Adds (pure a) :=
  ⟨a, [], fun journal => by rw [List.append_nil]; rfl⟩

theorem Journaling.adds_emit (e : Event) : Journaling.Adds (emit e) :=
  ⟨(), [.event e], fun _ => rfl⟩

theorem Journaling.adds_log (l : Logging.Line) : Journaling.Adds (log l) :=
  ⟨(), [.line l], fun _ => rfl⟩

theorem Stage.report_congr {s s' : Stage} {data : StageData} (hName : s.name = s'.name)
    (hTracker : s.tracker = s'.tracker) (hRun : s.run data = s'.run data) :
    s.report data = s'.report data := by
  unfold Stage.report Stage.execute
  rw [hName, hTracker, hRun]

theorem Stage.adds_execute {s : Stage} {data : StageData} (h : Tracking.Adds (s.run data)) :
    Journaling.Adds (s.execute data) := by
  obtain ⟨output, t, es, hRun⟩ := h s.tracker.reset
  refine ⟨⟨s.name, output, t.summary⟩, es, fun journal => ?_⟩
  have hJournal := hRun journal
  exact congrArg (fun done : Option StageData × Tracked =>
    (StageRun.mk s.name done.1 done.2.tracker.summary, done.2.journal)) hJournal

theorem Stage.adds_report {s : Stage} {data : StageData} (h : Tracking.Adds (s.run data)) :
    Journaling.Adds (s.report data) :=
  (Journaling.adds_emit _).bind fun _ => (adds_execute h).bind fun _ =>
    (Journaling.adds_log _).bind fun _ => (Journaling.adds_emit _).bind fun _ =>
      Journaling.adds_pure _

def Pipeline.ofPlan (plan : List (String × Duty)) (disk : Disk) : Pipeline :=
  plan.map fun s => s.2.stage s.1 disk

namespace Pipeline

variable {d d' : Disk} {data input : StageData}

theorem adds_runs (plan : List (String × Duty)) (h : data.ReadsAlike d d') :
    Journaling.Adds ((ofPlan plan d).runs data) := by
  induction plan generalizing data with
  | nil => exact Journaling.adds_pure []
  | cons s plan ih =>
    refine (Stage.adds_report (Duty.adds_run s.2 s.1 h)).bind fun journal => ?_
    exact (ih (s.2.readsAlike_output s.1 journal h)).bind fun _ => Journaling.adds_pure _

theorem runs_congr (plan : List (String × Duty)) (h : data.ReadsAlike d d') :
    (ofPlan plan d).runs data = (ofPlan plan d').runs data := by
  induction plan generalizing data with
  | nil => rw [ofPlan, ofPlan, List.map_nil, List.map_nil]
  | cons s plan ih =>
    -- The two stages differ in what they would do with other data, so only their runs are equal.
    have hReport : (s.2.stage s.1 d).report data = (s.2.stage s.1 d').report data :=
      Stage.report_congr (by simp only [Duty.name_stage]) (by simp only [Duty.tracker_stage])
        (s.2.run_congr s.1 h)
    refine Journaling.bind_congr hReport fun journal => ?_
    have hRest := ih (s.2.readsAlike_output s.1 journal h)
    exact congrArg (fun act : Journaling (List StageRun) => do
      return (((s.2.stage s.1 d).report data).run journal).1 :: (← act)) hRest

theorem adds_execute (plan : List (String × Duty)) (h : input.ReadsAlike d d') :
    Journaling.Adds ((ofPlan plan d).execute input) :=
  (Journaling.adds_emit _).bind fun _ => (adds_runs plan h).bind fun _ =>
    (Journaling.adds_emit _).bind fun _ => Journaling.adds_pure _

theorem execute_congr (plan : List (String × Duty)) (h : input.ReadsAlike d d') :
    (ofPlan plan d).execute input = (ofPlan plan d').execute input := by
  unfold execute
  rw [runs_congr plan h]

end Pipeline

end DaxMigration.Migration
