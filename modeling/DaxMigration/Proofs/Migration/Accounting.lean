import DaxMigration.Migration.Engine
import DaxMigration.Proofs.Migration.Execution
import Mathlib.Algebra.Ring.Nat

/-!
# The accounts of an engine

Every file is counted once, as converted or as failed, in whichever way its conversion ends; and
those that were converted are those whose results name their artifacts.
-/

namespace DaxMigration.Migration

variable {α β : Type}

/-! ## Computations that count -/

def Yields (w : ExceptT Error Working α) (p : α → Prop) : Prop :=
  ∀ workspace a, (w.run.run workspace).1 = .ok a → p a

theorem yields_pure {a : α} {p : α → Prop} (h : p a) : Yields (pure a) p := by
  rintro workspace b hRun
  obtain rfl : a = b := Except.ok.inj hRun
  exact h

theorem Yields.of_bind {w : ExceptT Error Working α} {f : α → ExceptT Error Working β}
    {p : β → Prop} (h : ∀ a, Yields (f a) p) : Yields (w >>= f) p := by
  intro workspace b hRun
  rw [ExceptT.run_bind, StateT.run_bind] at hRun
  rcases hDone : w.run.run workspace with ⟨outcome, between⟩
  rw [hDone] at hRun
  cases outcome with
  | ok a => exact h a between b hRun
  | error e => exact absurd hRun (by rintro ⟨⟩)

theorem yields_writeArtifacts (catalogue : Catalogue) (outputDir name : String)
    (c : ConvertedWorkbook) :
    Yields (writeArtifacts catalogue outputDir name c) (· = artifactPaths outputDir name) := by
  unfold writeArtifacts
  exact .of_bind fun _ => .of_bind fun _ => .of_bind fun _ => yields_pure rfl

namespace Migrating

/-- Begun at the counts `t`, the computation ends with such a value and such counts. -/
def Counts (t : MigrationStats) (act : Migrating α) (post : α → MigrationStats → Prop) : Prop :=
  ∀ s : Progress, s.stats = t → post (act.run s).1 (act.run s).2.stats

section

variable {t : MigrationStats} {act : Migrating α} {f : α → Migrating β}
  {mid mid' : α → MigrationStats → Prop} {post : β → MigrationStats → Prop}

theorem Counts.mono (h : Counts t act mid) (hAll : ∀ a t', mid a t' → mid' a t') :
    Counts t act mid' :=
  fun s hStats => hAll _ _ (h s hStats)

theorem Counts.bind (h : Counts t act mid) (hNext : ∀ a t', mid a t' → Counts t' (f a) post) :
    Counts t (act >>= f) post :=
  fun s hStats => hNext _ _ (h s hStats) _ rfl

theorem counts_pure {a : α} (h : mid a t) : Counts t (pure a) mid := by
  rintro s rfl
  exact h

theorem counts_count (f : MigrationStats → MigrationStats) :
    Counts t (count f) fun _ t' => t' = f t := by
  rintro s rfl
  rfl

/-- Work on the files leaves the counts alone. -/
theorem counts_work {w : ExceptT Error Working α} {p : α → Prop} (h : Yields w p) :
    Counts t (work w.run) fun outcome t' => (∀ a, outcome = .ok a → p a) ∧ t' = t := by
  rintro s rfl
  exact ⟨h s.toWorkspace, rfl⟩

theorem counts_get : Counts t get fun _ t' => t' = t := by
  rintro s rfl
  rfl

theorem counts_tell (status : Status) (details : List (String × Json)) :
    Counts t (Engine.tell status details) fun _ t' => t' = t := by
  rintro s rfl
  rfl

theorem counts_log (level : Logging.Level) (target message : String) :
    Counts t (log level target message) fun _ t' => t' = t := by
  rintro s rfl
  rfl

end

end Migrating

open Migrating

/-! ## One file -/

def MigrationStats.add (t : MigrationStats) (r : PipelineResult) : MigrationStats where
  files := t.files + 1
  successful := t.successful + if r.success then 1 else 0
  failed := t.failed + if r.success then 0 else 1
  warnings := t.warnings + r.warnings.length

theorem foldl_add_eq (rs : List PipelineResult) (t : MigrationStats) :
    rs.foldl MigrationStats.add t =
      ⟨t.files + rs.length, t.successful + rs.countP (·.success),
        t.failed + rs.countP (!·.success), t.warnings + (rs.map (·.warnings.length)).sum⟩ := by
  induction rs generalizing t with
  | nil => rfl
  | cons r rs ih =>
    rw [List.foldl_cons, ih]
    cases hSuccess : r.success <;> simp +arith [MigrationStats.add, hSuccess]

theorem countP_success (rs : List PipelineResult) :
    rs.countP (·.success) + rs.countP (!·.success) = rs.length := by
  rw [List.length_eq_countP_add_countP (fun r : PipelineResult => r.success)]
  simp

def PipelineResult.Names (r : PipelineResult) (path outputDir name : String) : Prop :=
  r.metadata.get? "file_path" = some (.string path) ∧
    r.metadata.get? "output_files" =
      if r.success then some (.strings (artifactPaths outputDir name)) else none

namespace Engine

variable {t : MigrationStats}

theorem counts_reject (path : String) (error : Error) :
    Counts t (reject path error) fun r t' =>
      r = (PipelineResult.failure (.ofError error)).note "file_path" (.string path) ∧
        t' = { t with failed := t.failed + 1 } := by
  rintro s rfl
  exact ⟨rfl, rfl⟩

/-- No stage of the engine is called like the entry for artifacts. -/
theorem get?_output_files (e : Engine) (disk : Logging.Disk) (path : String) (journal : Journal) :
    (((e.pipeline disk).execute (.path path)).run journal).1.1.metadata.get? "output_files" =
      none := by
  have hNames : (((e.pipeline disk).runs (.path path)).run
      (journal ++ [Pipeline.eventOf .started .empty])).1.map (fun r => r.name) =
        ["parse_tableau", "convert_formulas"] :=
    (Pipeline.ran_runs _ _ _).names
  refine KeyMap.get?_ofList_of_not_mem ?_
  have hAbsent : "output_files" ∉ ["parse_tableau", "convert_formulas"] := by decide
  rw [← hNames] at hAbsent
  rwa [List.map_map]

theorem counts_runPipeline (e : Engine) (path : String) :
    Counts t (e.runPipeline path) fun r t' =>
      (r.metadata.get? "file_path" = some (.string path) ∧
        r.metadata.get? "output_files" = none) ∧ t' = t := by
  rintro s rfl
  refine ⟨⟨?_, ?_⟩, rfl⟩
  · exact (KeyMap.get?_insert _ _ _ _).trans (if_pos rfl)
  · exact (KeyMap.get?_insert _ _ _ _).trans
      ((if_neg (by decide)).trans (get?_output_files e s.toDisk path s.journal))

/-- What becomes of the result of a pipeline: its artifacts are written, or they are not and it is
made a failure, or it was one. -/
inductive Finished (result : PipelineResult) (artifacts : List String) : PipelineResult → Prop
  | written (hSuccess : result.success = true) :
    Finished result artifacts (result.note "output_files" (.strings artifacts))
  | unwritten (info : ErrorInfo) : Finished result artifacts
      { result with success := false, errors := result.errors ++ [info] }
  | unsuccessful (hFailure : result.success = false) : Finished result artifacts result

theorem Finished.warnings_eq {result r : PipelineResult} {artifacts : List String}
    (h : Finished result artifacts r) : r.warnings = result.warnings := by
  cases h <;> rfl

theorem Finished.names {result r : PipelineResult} {path outputDir name : String}
    (h : Finished result (artifactPaths outputDir name) r)
    (hPath : result.metadata.get? "file_path" = some (.string path))
    (hNone : result.metadata.get? "output_files" = none) : r.Names path outputDir name := by
  cases h with
  | written hSuccess =>
    refine ⟨?_, ?_⟩
    · exact (KeyMap.get?_insert _ _ _ _).trans ((if_neg (by decide)).trans hPath)
    · exact (KeyMap.get?_insert _ _ _ _).trans ((if_pos rfl).trans (if_pos hSuccess).symm)
  | unwritten info => exact ⟨hPath, hNone⟩
  | unsuccessful hFailure => exact ⟨hPath, by rw [hNone, hFailure]; rfl⟩

theorem counts_publish (e : Engine) (path name : String) {result : PipelineResult}
    (hSuccess : result.success = true) :
    Counts t (e.publish path name result) fun r t' =>
      Finished result (artifactPaths e.settings.outputDir name) r ∧ t' = t := by
  unfold publish
  simp only
  split
  · rename_i c _
    refine (counts_work (yields_writeArtifacts e.catalogue e.settings.outputDir name c)).bind ?_
    rintro written _ ⟨hPaths, rfl⟩
    cases written with
    | ok paths =>
      rintro s rfl
      exact ⟨hPaths paths rfl ▸ Finished.written hSuccess, rfl⟩
    | error error =>
      rintro s rfl
      exact ⟨.unwritten _, rfl⟩
  · rintro s rfl
    exact ⟨.unwritten _, rfl⟩

theorem counts_conclude (result : PipelineResult) :
    Counts t (conclude result) fun _ t' =>
      t' = { t with
        successful := t.successful + if result.success then 1 else 0
        failed := t.failed + if result.success then 0 else 1 } := by
  unfold conclude
  split
  · rintro s rfl
    rfl
  · rintro s rfl
    rfl

theorem counts_end {result r : PipelineResult} {path outputDir name : String}
    (h : Finished result (artifactPaths outputDir name) r)
    (hPath : result.metadata.get? "file_path" = some (.string path))
    (hNone : result.metadata.get? "output_files" = none) :
    Counts { t with warnings := t.warnings + result.warnings.length }
      (do conclude r; return r) fun r t' =>
        r.Names path outputDir name ∧ t' = { t.add r with files := t.files } := by
  refine (counts_conclude r).bind ?_
  rintro _ _ rfl
  refine counts_pure ⟨h.names hPath hNone, ?_⟩
  rw [← h.warnings_eq]
  rfl

theorem counts_convertAccepted (e : Engine) (path name : String) :
    Counts t (e.convertAccepted path name) fun r t' =>
      r.Names path e.settings.outputDir name ∧ t' = { t.add r with files := t.files } := by
  unfold convertAccepted
  simp only [pure_bind]
  -- Warnings are counted before publishing, which can still turn the success into a failure.
  refine (counts_tell _ _).bind ?_
  rintro _ _ rfl
  refine (counts_runPipeline e path).bind ?_
  rintro result _ ⟨⟨hPath, hNone⟩, rfl⟩
  refine (counts_count _).bind ?_
  rintro _ _ rfl
  split
  · rename_i hSuccess
    refine (counts_publish e path name hSuccess).bind ?_
    rintro r _ ⟨hFinished, rfl⟩
    exact counts_end hFinished hPath hNone
  · rename_i hFailure
    exact counts_end (.unsuccessful (by simpa using hFailure)) hPath hNone

theorem counts_convertFile (e : Engine) (path : String) (name : Option String) :
    Counts t (e.convertFile path name) fun r t' =>
      r.Names path e.settings.outputDir (name.getD (defaultName path)) ∧ t' = t.add r := by
  unfold convertFile
  refine (counts_count _).bind ?_
  rintro _ _ rfl
  refine (counts_get).bind ?_
  rintro s _ rfl
  cases refusal? s.files path with
  | some error =>
    refine (counts_reject path error).mono ?_
    rintro _ _ ⟨rfl, rfl⟩
    exact ⟨⟨rfl, rfl⟩, rfl⟩
  | none =>
    refine (e.counts_convertAccepted path _).mono ?_
    rintro r _ ⟨hNames, rfl⟩
    exact ⟨hNames, rfl⟩

/-! ## Many files -/

theorem counts_convertAll (e : Engine) (paths : List String) :
    Counts t (e.convertAll paths) fun rs t' =>
      (∀ r ∈ rs, ∃ path ∈ paths, r.Names path e.settings.outputDir (defaultName path)) ∧
        t' = rs.foldl MigrationStats.add t := by
  unfold convertAll
  induction paths generalizing t with
  | nil => exact counts_pure ⟨by simp, rfl⟩
  | cons path paths ih =>
    have hFirst : Counts t (do
        Migrating.log .info logTarget ("Converting: " ++ path)
        e.convertFile path none) fun r t' =>
          r.Names path e.settings.outputDir (defaultName path) ∧ t' = t.add r := by
      refine (counts_log _ _ _).bind ?_
      rintro _ _ rfl
      exact e.counts_convertFile path none
    rw [List.mapM_cons]
    refine hFirst.bind ?_
    rintro r _ ⟨hNames, rfl⟩
    refine ih.bind ?_
    rintro rs _ ⟨hRest, rfl⟩
    refine counts_pure ⟨?_, rfl⟩
    intro r' hMem
    rcases List.mem_cons.1 hMem with rfl | hMem
    · exact ⟨path, by simp, hNames⟩
    · obtain ⟨path', hMem', hNames'⟩ := hRest r' hMem
      exact ⟨path', by simp [hMem'], hNames'⟩

theorem counts_convertDirectory (e : Engine) (dir : String) (recursive : Bool) :
    Counts t (e.convertDirectory dir recursive) fun outcome t' =>
      match outcome with
      | .ok rs => (∀ r ∈ rs, ∃ path, r.Names path e.settings.outputDir (defaultName path)) ∧
          t' = rs.foldl MigrationStats.add t
      | .error _ => t' = t := by
  unfold convertDirectory
  refine counts_get.bind ?_
  rintro s _ rfl
  simp only
  split
  · refine (counts_log _ _ _).bind ?_
    rintro _ _ rfl
    refine (e.counts_convertAll _).bind ?_
    rintro rs _ ⟨hNames, rfl⟩
    exact counts_pure ⟨fun r hMem => let ⟨path, _, h⟩ := hNames r hMem; ⟨path, h⟩, rfl⟩
  · exact counts_pure rfl

end Engine

/-- What can be asked of an engine. In between, others may change the files and the journal. -/
inductive EngineCall where
  | file (path : String) (name : Option String)
  | directory (dir : String) (recursive : Bool)
  | elsewhere (change : Workspace → Workspace)

namespace EngineCall

def perform (e : Engine) : EngineCall → Migrating (List PipelineResult)
  | file path name => do return [← e.convertFile path name]
  | directory dir recursive => do
    match ← e.convertDirectory dir recursive with
    | .ok rs => return rs
    | .error _ => return []
  | elsewhere change => do
    modify fun s => { s with toWorkspace := change s.toWorkspace }
    return []

def performAll (e : Engine) : List EngineCall → Migrating (List (EngineCall × PipelineResult))
  | [] => return []
  | c :: rest => do
    let rs ← c.perform e
    return rs.map (c, ·) ++ (← performAll e rest)

/-- The result can be one of the call: it names its file and its artifacts. -/
def Gives (e : Engine) : EngineCall → PipelineResult → Prop
  | file path name, r =>
    r.Names path e.settings.outputDir (name.getD (Engine.defaultName path))
  | directory _ _, r => ∃ path, r.Names path e.settings.outputDir (Engine.defaultName path)
  | elsewhere _, _ => False

variable {t : MigrationStats}

theorem counts_perform (e : Engine) (c : EngineCall) :
    Counts t (c.perform e) fun rs t' =>
      (∀ r ∈ rs, c.Gives e r) ∧ t' = rs.foldl MigrationStats.add t := by
  cases c with
  | file path name =>
    refine (e.counts_convertFile path name).bind ?_
    rintro r _ ⟨hNames, rfl⟩
    exact counts_pure ⟨by simpa [Gives] using hNames, rfl⟩
  | directory dir recursive =>
    refine (e.counts_convertDirectory dir recursive).bind ?_
    rintro outcome t' hOutcome
    cases outcome with
    | ok rs => exact counts_pure hOutcome
    | error error => exact counts_pure ⟨by simp, hOutcome⟩
  | elsewhere change =>
    rintro s rfl
    exact ⟨by rintro r ⟨⟩, rfl⟩

theorem counts_performAll (e : Engine) (calls : List EngineCall) :
    Counts t (performAll e calls) fun rs t' =>
      (∀ r ∈ rs, r.1.Gives e r.2) ∧ t' = (rs.map (·.2)).foldl MigrationStats.add t := by
  induction calls generalizing t with
  | nil => exact counts_pure ⟨by simp, rfl⟩
  | cons c rest ih =>
    refine (c.counts_perform e).bind ?_
    rintro rs _ ⟨hFirst, rfl⟩
    refine ih.bind ?_
    rintro rest _ ⟨hRest, rfl⟩
    refine counts_pure ⟨?_, ?_⟩
    · intro r hMem
      rcases List.mem_append.1 hMem with hMem | hMem
      · obtain ⟨r', hMem', rfl⟩ := List.mem_map.1 hMem
        exact hFirst r' hMem'
      · exact hRest r hMem
    · have hResults : (rs.map fun r => (c, r)).map (·.2) = rs := by simp [Function.comp_def]
      rw [List.map_append, List.foldl_append, hResults]

end EngineCall

end DaxMigration.Migration
