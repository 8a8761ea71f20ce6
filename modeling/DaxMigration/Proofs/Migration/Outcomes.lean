import DaxMigration.Migration.Engine
import DaxMigration.Proofs.Migration.Batch
import DaxMigration.Proofs.Migration.Execution

/-!
# What becomes of a file

A file is turned away, or no stage takes it, or it cannot be read, or it is converted and its
artifacts are written or not. An error is left behind in every case but one: a directory that is
named like a workbook is there and has a supported name, so it is not turned away, and the stages
only skip it.
-/

namespace DaxMigration.Migration

open Logging (Disk)
open Tracking

variable {α β : Type}

/-! ## What a stage leaves -/

namespace Stage

def beginning (s : Stage) (journal : Journal) : Tracked :=
  ⟨s.tracker.reset, journal ++ [.event (.component "PipelineStage" s.name .started .empty)]⟩

def left (s : Stage) (data : StageData) (journal : Journal) :
    Option StageData × List ErrorInfo :=
  let done := (s.run data).run (s.beginning journal)
  (done.1, done.2.tracker.errors)

section

variable {c : Converter α β} {take : StageData → Option α} {data : StageData} {input : α}
  (name : String) (tracker : Tracker) (give : β → StageData) (journal : Journal)

theorem left_of_not_taken (h : take data = none) :
    (ofConverter name tracker c take give).left data journal = (none, []) := by
  unfold left ofConverter
  simp only [h]
  rfl

theorem left_of_refused (hTake : take data = some input) (h : c.accepts input = false) :
    (ofConverter name tracker c take give).left data journal = (none, []) := by
  unfold left ofConverter Converter.handle
  simp only [hTake, h, Bool.false_eq_true, if_false]
  rfl

theorem left_of_accepted {outcome : Except Error β} (hTake : take data = some input)
    (h : c.accepts input = true) (hTells : OnlyTells (c.convert input)) :
    let s := ofConverter name tracker c take give
    ((c.convert input).run (s.beginning journal)).1 = outcome →
      match outcome with
      | .ok output => s.left data journal = (some (give output), [])
      | .error _ => ∃ errors ≠ [], s.left data journal = (none, errors) := by
  intro s hConvert
  obtain ⟨a, ws, es, hRun⟩ := hTells (s.beginning journal)
  have hLeft : s.left data journal = (((c.handle input name).run (s.beginning journal)).1.map give,
      ((c.handle input name).run (s.beginning journal)).2.tracker.errors) := by
    simp only [left, s, ofConverter, hTake]
    rfl
  unfold Converter.handle at hLeft
  simp only [h, if_true, StateT.run_bind, hRun] at hLeft
  obtain rfl : a = outcome := by rw [← hConvert, hRun]
  cases a with
  | ok output => exact hLeft
  | error e => exact ⟨_, List.cons_ne_nil _ _, hLeft⟩

end

end Stage

/-! ## The pipeline of an engine -/

theorem Documents.converted_run (catalogue : Catalogue)
    (loaded : Except Workbook.LoadError Workbook × List Logging.Line) (s : Tracked) :
    ((converted catalogue loaded).run s).1 = loaded.1.mapError .load := by
  obtain ⟨outcome, lines⟩ := loaded
  cases outcome <;> rfl

/-- What is done with what the state shows. -/
theorem run_of_get {γ : Type} (look : Tracked → γ) (act : γ → Tracking α) (s : Tracked) :
    (do act (look (← get)) : Tracking α).run s = (act (look s)).run s :=
  rfl

theorem Documents.convert_run (catalogue : Catalogue) (disk : Disk) (path : String) (s : Tracked) :
    ((convert catalogue disk path).run s).1 =
      (Workbook.load (disk.after (Journal.log s.journal)).files path).outcome.1.mapError .load := by
  rw [convert_eq, run_of_get, converted_run]

theorem Documents.accepts_of_supported {path : String} (h : Workbook.isSupported path = true)
    (catalogue : Catalogue) (disk : Disk) :
    (converter catalogue disk).accepts path = disk.files.isFile path := by
  have hExtension : Workbook.supportedExtensions.contains (Storage.extensionOf path) = true := by
    simp only [Workbook.isSupported, Workbook.Form.ofExtension?] at h
    simp only [Workbook.supportedExtensions, List.contains_cons, List.contains_nil, Bool.or_false]
    grind
  simp only [converter, hExtension, Bool.and_true]

namespace Stage

section

variable (name : String) (catalogue : Catalogue) (disk : Disk) {path : String} (t : Dax.Target)
  (journal : Journal)

theorem left_documents_of_not_file (h : Workbook.isSupported path = true)
    (hFile : disk.files.isFile path = false) :
    (documents name catalogue disk).left (.path path) journal = (none, []) :=
  have hTaken : (StageData.path path).path? = some path := rfl
  left_of_refused name Documents.tracker StageData.workbook journal hTaken
    ((Documents.accepts_of_supported h catalogue disk).trans hFile)

theorem left_documents_of_file (h : Workbook.isSupported path = true)
    (hFile : disk.files.isFile path = true) :
    ∃ said,
      match (Workbook.load (disk.after said).files path).outcome.1 with
      | .ok w => (documents name catalogue disk).left (.path path) journal =
          (some (.workbook w), [])
      | .error _ => ∃ errors ≠ [],
          (documents name catalogue disk).left (.path path) journal = (none, errors) := by
  let s := documents name catalogue disk
  let said := Journal.log (s.beginning journal).journal
  have hRun := Documents.convert_run catalogue disk path (s.beginning journal)
  have hTaken : (StageData.path path).path? = some path := rfl
  have hLeft := left_of_accepted name Documents.tracker StageData.workbook journal hTaken
    ((Documents.accepts_of_supported h catalogue disk).trans hFile)
    (Documents.onlyTells_convert catalogue disk path) hRun
  refine ⟨said, ?_⟩
  generalize (Workbook.load (disk.after said).files path).outcome.1 = loaded at hLeft ⊢
  cases loaded with
  | ok w => exact hLeft
  | error e => exact hLeft

theorem left_formulas_of_path (path : String) :
    (formulas name t).left (.path path) journal = (none, []) :=
  have hTaken : (StageData.path path).formulaInput? = none := rfl
  left_of_not_taken name Formulas.tracker StageData.ofOutput journal hTaken

theorem left_formulas_of_workbook (w : Workbook) :
    (formulas name t).left (.workbook w) journal =
      (some (.converted (Formulas.allAlone t w)), []) := by
  have hTells := ((Formulas.tells_convertWorkbook t w).map ConversionOutput.workbook).map
    (Except.ok (ε := Error))
  have hRun : ((Formulas.converter t).convert (.workbook w)).run
      ((formulas name t).beginning journal) = _ := hTells ((formulas name t).beginning journal) rfl
  have hTaken : (StageData.workbook w).formulaInput? = some (.workbook w) := rfl
  exact left_of_accepted name Formulas.tracker StageData.ofOutput journal hTaken rfl
    (Formulas.alwaysTells_convert t (.workbook w)).onlyTells (congrArg Prod.fst hRun)

end

end Stage

/-- The result of two stages goes by what each of them leaves. -/
theorem Pipeline.execute_pair (s s' : Stage) (input : StageData) (journal : Journal) :
    ∃ before between,
      let first := s.left input before
      let second := s'.left (first.1.getD input) between
      let r := ((Pipeline.execute [s, s'] input).run journal).1.1
      r.success = (first.1.isSome && second.1.isSome) ∧
        r.data = some (second.1.getD (first.1.getD input)) ∧ r.errors = first.2 ++ second.2 := by
  refine ⟨_, _, ?_, rfl, ?_⟩
  · exact congrArg (_ && ·) (Bool.and_true _)
  · exact congrArg (_ ++ ·) (List.append_nil _)

inductive Piped (e : Engine) (disk : Disk) (path : String) : PipelineResult → Prop
  | skipped {r : PipelineResult} (hFile : disk.files.isFile path = false)
    (hSuccess : r.success = false) (hErrors : r.errors = []) : Piped e disk path r
  | unread {r : PipelineResult} (hFile : disk.files.isFile path = true)
    (hSuccess : r.success = false) (hErrors : r.errors ≠ []) : Piped e disk path r
  | converted {r : PipelineResult} {w : Workbook} (said : List Logging.Line)
    (hFile : disk.files.isFile path = true)
    (hLoad : (Workbook.load (disk.after said).files path).outcome.1 = .ok w)
    (hSuccess : r.success = true)
    (hData : r.data = some (.converted
      (Formulas.allAlone (e.settings.formula.target e.catalogue) w))) : Piped e disk path r

theorem Piped.note {e : Engine} {disk : Disk} {path : String} {r : PipelineResult}
    (h : Piped e disk path r) (key : String) (value : Json) :
    Piped e disk path (r.note key value) := by
  cases h with
  | skipped hFile hSuccess hErrors => exact .skipped hFile hSuccess hErrors
  | unread hFile hSuccess hErrors => exact .unread hFile hSuccess hErrors
  | converted said hFile hLoad hSuccess hData => exact .converted said hFile hLoad hSuccess hData

theorem Piped.isFile_of_success {e : Engine} {disk : Disk} {path : String} {r : PipelineResult}
    (h : Piped e disk path r) (hSuccess : r.success = true) : disk.files.isFile path = true := by
  cases h with
  | skipped _ hFailure => exact absurd hSuccess (by simp [hFailure])
  | unread hFile => exact hFile
  | converted _ hFile => exact hFile

namespace Engine

theorem piped_execute (e : Engine) (disk : Disk) {path : String}
    (h : Workbook.isSupported path = true) (journal : Journal) :
    Piped e disk path (((e.pipeline disk).execute (.path path)).run journal).1.1 := by
  obtain ⟨before, between, hSuccess, hData, hErrors⟩ := Pipeline.execute_pair
    (.documents "parse_tableau" e.catalogue disk)
    (.formulas "convert_formulas" (e.settings.formula.target e.catalogue)) (.path path) journal
  cases hFile : disk.files.isFile path with
  | false =>
    simp only [Stage.left_documents_of_not_file _ _ _ _ h hFile, Option.getD_none,
      Stage.left_formulas_of_path] at hSuccess hErrors
    exact .skipped hFile hSuccess hErrors
  | true =>
    obtain ⟨said, hLeft⟩ := Stage.left_documents_of_file "parse_tableau" e.catalogue disk before
      h hFile
    split at hLeft
    · rename_i w hLoad
      simp only [hLeft, Option.getD_some, Stage.left_formulas_of_workbook] at hSuccess hData
      exact .converted said hFile hLoad hSuccess hData
    · obtain ⟨errors, hSome, hLeft⟩ := hLeft
      simp only [hLeft, Option.getD_none, Stage.left_formulas_of_path, List.append_nil]
        at hSuccess hErrors
      exact .unread hFile hSuccess (hErrors ▸ hSome)

end Engine

/-! ## One file -/

namespace Migrating

def Disks (d : Disk) (act : Migrating α) (post : α → Disk → Prop) : Prop :=
  ∀ s : Progress, s.toDisk = d → post (act.run s).1 (act.run s).2.toDisk

def Still (act : Migrating α) : Prop :=
  ∀ s : Progress, (act.run s).2.toDisk = s.toDisk

variable {d : Disk} {post : β → Disk → Prop}

theorem Disks.bind {act : Migrating α} {f : α → Migrating β} {mid : α → Disk → Prop}
    (h : Disks d act mid) (hNext : ∀ a d', mid a d' → Disks d' (f a) post) :
    Disks d (act >>= f) post :=
  fun s hDisk => hNext _ _ (h s hDisk) _ rfl

theorem Still.bind {act : Migrating α} {f : α → Migrating β} (h : Still act)
    (hNext : ∀ a, Disks d (f a) post) : Disks d (act >>= f) post :=
  fun s hDisk => hNext _ _ ((h s).trans hDisk)

theorem disks_pure {b : β} (h : post b d) : Disks d (pure b) post := by
  intro s hDisk
  exact hDisk ▸ h

theorem disks_get : Disks d get fun (s : Progress) d' => s.toDisk = d ∧ d = d' :=
  fun _ hDisk => ⟨hDisk, hDisk.symm⟩

theorem still_count (f : MigrationStats → MigrationStats) : Still (count f) :=
  fun _ => rfl

theorem still_log (level : Logging.Level) (target message : String) :
    Still (log level target message) :=
  fun _ => rfl

theorem still_emit (event : Event) : Still (emit event) :=
  fun _ => rfl

theorem disks_work (act : Working α) : Disks d (work act) fun a d' =>
    ∃ w w' : Workspace, w.toDisk = d ∧ act.run w = (a, w') ∧ d' = w'.toDisk :=
  fun s hDisk => ⟨s.toWorkspace, _, hDisk, rfl, rfl⟩

end Migrating

open Migrating

inductive Became (e : Engine) (path name : String) (d : Disk) : PipelineResult → Disk → Prop
  | refused {error : Error} (hRefused : Engine.refusal? d.files path = some error) :
    Became e path name d
      ((PipelineResult.failure (.ofError error)).note "file_path" (.string path)) d
  | unsuccessful {r : PipelineResult} (hTaken : Engine.refusal? d.files path = none)
    (hPiped : Piped e d path r) (hFailure : r.success = false) : Became e path name d r d
  | unwritten {r : PipelineResult} {c : ConvertedWorkbook} {error : Error} {w w' : Workspace}
    (hTaken : Engine.refusal? d.files path = none) (hPiped : Piped e d path r)
    (hSuccess : r.success = true) (hData : r.data = some (.converted c)) (hDisk : w.toDisk = d)
    (hWritten : (writeArtifacts e.catalogue e.settings.outputDir name c).run.run w =
      (.error error, w')) :
    Became e path name d
      { r with
        success := false
        errors := r.errors ++ [(ErrorInfo.ofError error).withContext "file_path" path] }
      w'.toDisk
  | written {r : PipelineResult} {c : ConvertedWorkbook} {paths : List String} {w w' : Workspace}
    (hTaken : Engine.refusal? d.files path = none) (hPiped : Piped e d path r)
    (hSuccess : r.success = true) (hData : r.data = some (.converted c)) (hDisk : w.toDisk = d)
    (hWritten : (writeArtifacts e.catalogue e.settings.outputDir name c).run.run w =
      (.ok paths, w')) :
    Became e path name d (r.note "output_files" (.strings paths)) w'.toDisk

namespace Engine

variable {d : Disk}

theorem still_tell (status : Status) (details : List (String × Json)) : Still (tell status details) :=
  fun _ => rfl

theorem still_conclude (r : PipelineResult) : Still (conclude r) := by
  unfold conclude
  split
  · exact fun _ => rfl
  · exact fun _ => rfl

theorem disks_runPipeline (e : Engine) {path : String} (h : Workbook.isSupported path = true) :
    Disks d (e.runPipeline path) fun r d' => d = d' ∧ Piped e d path r := by
  rintro s rfl
  exact ⟨rfl, (e.piped_execute s.toDisk h s.journal).note _ _⟩

theorem disks_publish (e : Engine) {path name : String} {r : PipelineResult}
    {c : ConvertedWorkbook} (hTaken : refusal? d.files path = none) (hPiped : Piped e d path r)
    (hSuccess : r.success = true) (hData : r.data = some (.converted c)) :
    Disks d (e.publish path name r) (Became e path name d) := by
  have hConverted : r.data.bind StageData.converted? = some c := by
    rw [hData]
    rfl
  unfold publish
  simp only [hConverted]
  refine (disks_work _).bind ?_
  rintro outcome _ ⟨w, w', hDisk, hWritten, rfl⟩
  cases outcome with
  | ok paths =>
    exact (still_tell _ _).bind fun _ =>
      disks_pure (.written hTaken hPiped hSuccess hData hDisk hWritten)
  | error error =>
    exact (still_log _ _ _).bind fun _ =>
      disks_pure (.unwritten hTaken hPiped hSuccess hData hDisk hWritten)

theorem disks_convertAccepted (e : Engine) {path : String} (name : String)
    (hTaken : refusal? d.files path = none) :
    Disks d (e.convertAccepted path name) (Became e path name d) := by
  have hSupported : Workbook.isSupported path = true := by
    unfold refusal? at hTaken
    grind
  have hEnd {r : PipelineResult} {d' : Disk} (h : Became e path name d r d') :
      Disks d' (do conclude r; return r) (Became e path name d) :=
    (still_conclude r).bind fun _ => disks_pure h
  unfold convertAccepted
  simp only [pure_bind]
  refine (still_tell _ _).bind fun _ => (e.disks_runPipeline hSupported).bind ?_
  rintro r d' ⟨rfl, hPiped⟩
  refine (still_count _).bind fun _ => ?_
  split
  · rename_i hSuccess
    cases hPiped with
    | skipped _ hFailure _ => exact absurd hSuccess (by simp [hFailure])
    | unread _ hFailure _ => exact absurd hSuccess (by simp [hFailure])
    | converted said hFile hLoad _ hData =>
      exact (e.disks_publish hTaken (.converted said hFile hLoad hSuccess hData) hSuccess
        hData).bind fun _ _ => hEnd
  · rename_i hFailure
    exact hEnd (.unsuccessful hTaken hPiped (by simpa using hFailure))

theorem disks_reject (path name : String) {e : Engine} {error : Error}
    (hRefused : refusal? d.files path = some error) :
    Disks d (reject path error) (Became e path name d) := by
  unfold reject
  refine (still_log _ _ _).bind fun _ => (still_emit _).bind fun _ =>
    (still_count _).bind fun _ => ?_
  exact disks_pure (.refused hRefused)

theorem disks_convertFile (e : Engine) (path : String) (name : Option String) :
    Disks d (e.convertFile path name) (Became e path (name.getD (defaultName path)) d) := by
  unfold convertFile
  refine (still_count _).bind fun _ => disks_get.bind ?_
  rintro s d' ⟨hDisk, rfl⟩
  have hFiles : s.files = d.files := congrArg Disk.files hDisk
  cases hTaken : refusal? s.files path with
  | some error => exact disks_reject path _ (hFiles ▸ hTaken)
  | none => exact e.disks_convertAccepted _ (hFiles ▸ hTaken)

theorem refusal?_eq_none_iff {files : Storage.FileTree} {path : String} :
    refusal? files path = none ↔
      files.contains path = true ∧ Workbook.isSupported path = true := by
  unfold refusal?
  grind

end Engine

/-- What leaves no error behind though it failed. -/
theorem Became.unexplained_iff {e : Engine} {path name : String} {d d' : Disk}
    {r : PipelineResult} (h : Became e path name d r d') :
    r.success = false ∧ r.errors = [] ↔
      d.files.isDirectory path = true ∧ Workbook.isSupported path = true := by
  cases h with
  | refused hRefused =>
    have hNot : ¬(d.files.isDirectory path = true ∧ Workbook.isSupported path = true) := by
      rintro ⟨hDirectory, hSupported⟩
      have hTaken := Engine.refusal?_eq_none_iff.2
        ⟨Storage.FileTree.contains_of_isDirectory hDirectory, hSupported⟩
      rw [hTaken] at hRefused
      cases hRefused
    exact iff_of_false (fun hLeft => List.cons_ne_nil _ _ hLeft.2) hNot
  | unsuccessful hTaken hPiped hFailure =>
    have ⟨hThere, hSupported⟩ := Engine.refusal?_eq_none_iff.1 hTaken
    have hDirectory := Storage.FileTree.isDirectory_eq_not_isFile hThere
    cases hPiped with
    | skipped hFile _ hErrors => simp [hFailure, hErrors, hDirectory, hFile, hSupported]
    | unread hFile _ hErrors => simp [hErrors, hDirectory, hFile]
    | converted _ _ _ hSuccess => simp [hSuccess] at hFailure
  | unwritten hTaken hPiped hSuccess =>
    have hThere := (Engine.refusal?_eq_none_iff.1 hTaken).1
    have hDirectory := Storage.FileTree.isDirectory_eq_not_isFile hThere
    simp [hDirectory, hPiped.isFile_of_success hSuccess]
  | @written r _ _ _ _ hTaken hPiped hSuccess =>
    have hThere := (Engine.refusal?_eq_none_iff.1 hTaken).1
    have hDirectory := Storage.FileTree.isDirectory_eq_not_isFile hThere
    have hStill (key : String) (value : Json) : (r.note key value).success = true := hSuccess
    simp [hStill, hDirectory, hPiped.isFile_of_success hSuccess]

/-- A failure leaves no error exactly where a directory is named like a workbook. -/
theorem Engine.unexplained_iff (e : Engine) (path : String) (name : Option String)
    (s : Progress) :
    let r := ((e.convertFile path name).run s).1
    r.success = false ∧ r.errors = [] ↔
      s.files.isDirectory path = true ∧ Workbook.isSupported path = true :=
  (e.disks_convertFile path name s rfl).unexplained_iff

end DaxMigration.Migration
