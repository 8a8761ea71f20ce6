import DaxMigration.Proofs.Migration.Outcomes
import DaxMigration.Proofs.Storage.Keeping
import DaxMigration.Proofs.Workbook.Loading

/-!
# The artifacts of a directory

Artifacts are named after the stem of a file's name, wherever the file lies. Files with different
stems leave each other's artifacts alone, and no artifact is a file that is converted; so after a
whole directory each artifact holds what its own file was converted to. Files with the same stem
have the same artifacts.
-/

namespace DaxMigration.Migration

open Logging (Disk)
open Engine (defaultName)
open Storage (EndsIn FileTree IsName endName? fileName? joinPath)

/-! ## Names of artifacts -/

theorem whole_defaultName (path : String) : '/' ∉ (defaultName path).toList := by
  unfold defaultName Storage.fileStem?
  cases hName : fileName? path with
  | none => decide
  | some name => exact Storage.whole_splitExtension (Storage.isName_of_fileName? hName).whole

def IsArtifactOf (name file : String) : Prop :=
  ∃ ending ∈ artifactEndings, file = name ++ ending

theorem isName_artifact {name ending : String} (hName : '/' ∉ name.toList)
    (hEnding : ending ∈ artifactEndings) : IsName (name ++ ending) := by
  have hAll : ∀ e ∈ artifactEndings, '/' ∉ e.toList ∧ 2 < e.length := by decide
  obtain ⟨hSlash, hLong⟩ := hAll ending hEnding
  have hNot {s : String} (hs : s.length ≤ 2) : name ++ ending ≠ s := by
    intro hSame
    have hLength := congrArg String.length hSame
    rw [String.length_append] at hLength
    omega
  exact ⟨by simp [hName, hSlash], hNot (by decide), hNot (by decide), hNot (by decide)⟩

/-- No ending is the end of another one, so a name of an artifact is made in one way. -/
theorem artifact_inj {name other ending ending' : String} (h : ending ∈ artifactEndings)
    (h' : ending' ∈ artifactEndings) (hSame : name ++ ending = other ++ ending') :
    name = other ∧ ending = ending' := by
  have hEnds : ∀ e ∈ artifactEndings, ∀ e' ∈ artifactEndings,
      e.toList <:+ e'.toList → e = e' := by decide
  have hText : name.toList ++ ending.toList = other.toList ++ ending'.toList := by
    simpa using congrArg String.toList hSame
  have hFirst : ending.toList <:+ name.toList ++ ending.toList := List.suffix_append _ _
  have hSecond : ending'.toList <:+ name.toList ++ ending.toList :=
    hText ▸ List.suffix_append _ _
  obtain rfl : ending = ending' := by
    rcases List.suffix_or_suffix_of_suffix hFirst hSecond with hPart | hPart
    · exact hEnds _ h _ h' hPart
    · exact (hEnds _ h' _ h hPart).symm
  exact ⟨String.ext (List.append_cancel_right hText), rfl⟩

theorem IsArtifactOf.unique {name other file : String} (h : IsArtifactOf name file)
    (h' : IsArtifactOf other file) : name = other := by
  obtain ⟨ending, hEnding, rfl⟩ := h
  obtain ⟨ending', hEnding', hSame⟩ := h'
  exact (artifact_inj hEnding hEnding' hSame).1

theorem exists_extension {ending : String} (h : ending ∈ artifactEndings) :
    ∃ front ext, ending.toList = front ++ '.' :: ext ∧ ext ∈ ["dax".toList, "json".toList] := by
  simp only [artifactEndings, List.mem_cons, List.not_mem_nil, or_false] at h
  rcases h with rfl | rfl | rfl | rfl
  · exact ⟨"_measures".toList, "dax".toList, by decide, by decide⟩
  · exact ⟨"_report_structure".toList, "json".toList, by decide, by decide⟩
  · exact ⟨"_data_sources".toList, "json".toList, by decide, by decide⟩
  · exact ⟨"_worksheets".toList, "json".toList, by decide, by decide⟩

/-- Artifacts are no workbooks. -/
theorem not_isSupported_of_artifact {path name file : String} (h : IsArtifactOf name file)
    (hFile : fileName? path = some file) : Workbook.isSupported path = false := by
  obtain ⟨ending, hEnding, rfl⟩ := h
  obtain ⟨front, ext, hParts, hExt⟩ := exists_extension hEnding
  have hForms : ∀ e ∈ ["dax".toList, "json".toList], '.' ∉ e ∧
      Workbook.Form.ofExtension? ("." ++ String.ofList (Text.lower (String.ofList e).toList)) =
        none := by
    decide
  obtain ⟨hDot, hForm⟩ := hForms ext hExt
  have hText : name ++ ending = String.ofList ((name.toList ++ front) ++ '.' :: ext) := by
    apply String.ext
    simp [hParts]
  have hFound := Storage.splitExtension_append (name.toList ++ front) hDot
  rw [← hText] at hFound
  simp only [List.mem_cons, List.not_mem_nil, or_false] at hFound
  rw [Workbook.isSupported, Storage.extensionOf, hFile, Option.bind_some]
  rcases hFound with hNone | hSome
  · rw [hNone]
    decide
  · rw [hSome]
    simp only [hForm, Option.isSome_none]

theorem endsIn_of_mem_artifactPaths {outputDir name path : String} (hName : '/' ∉ name.toList)
    (h : path ∈ artifactPaths outputDir name) : ∃ file, IsArtifactOf name file ∧ EndsIn path file := by
  obtain ⟨ending, hEnding, rfl⟩ := List.mem_map.1 h
  exact ⟨name ++ ending, ⟨ending, hEnding, rfl⟩,
    Storage.endsIn_joinPath _ (isName_artifact hName hEnding)⟩

/-- Two lists of artifacts have a path in common only if they are the same. -/
theorem disjoint_artifactPaths_iff {outputDir name other : String} (hName : '/' ∉ name.toList)
    (hOther : '/' ∉ other.toList) :
    List.Disjoint (artifactPaths outputDir name) (artifactPaths outputDir other) ↔ name ≠ other := by
  constructor
  · rintro hDisjoint rfl
    exact hDisjoint List.mem_cons_self List.mem_cons_self
  · intro hNe path hPath hPath'
    obtain ⟨file, hFile, hEnd⟩ := endsIn_of_mem_artifactPaths hName hPath
    obtain ⟨file', hFile', hEnd'⟩ := endsIn_of_mem_artifactPaths hOther hPath'
    obtain rfl : file = file' :=
      Option.some.inj (hEnd.fileName?_eq.symm.trans hEnd'.fileName?_eq)
    exact hNe (hFile.unique hFile')

/-! ## Writing -/

variable {α β : Type}

/-- Begun on the files `t` without a log file, the work changes only files with free names, and if
it ends with a value then with such a value and such files. -/
def Leaves (free : String → Prop) (t : FileTree) (work : ExceptT Error Working α)
    (post : α → FileTree → Prop) : Prop :=
  ∀ w : Workspace, w.log = none → w.files = t →
    (work.run.run w).2.log = none ∧ t.Keeps free (work.run.run w).2.files ∧
      ∀ a, (work.run.run w).1 = .ok a → post a (work.run.run w).2.files

section

variable {free free' : String → Prop} {t : FileTree} {mid mid' : α → FileTree → Prop}
  {post : β → FileTree → Prop}

theorem leaves_pure {b : β} (h : post b t) : Leaves free t (pure b) post := by
  rintro w hLog rfl
  refine ⟨hLog, .refl _ _, ?_⟩
  rintro a hOk
  cases hOk
  exact h

theorem Leaves.bind {work : ExceptT Error Working α} {f : α → ExceptT Error Working β}
    (h : Leaves free t work mid)
    (hNext : ∀ a t', mid a t' → Leaves free t' (f a) post) : Leaves free t (work >>= f) post := by
  intro w hLog hFiles
  have hFirst := h w hLog hFiles
  rw [ExceptT.run_bind, StateT.run_bind]
  generalize work.run.run w = done at hFirst
  obtain ⟨outcome, between⟩ := done
  obtain ⟨hLog', hKeeps, hMid⟩ := hFirst
  cases outcome with
  | ok a =>
    obtain ⟨hLast, hRest, hPost⟩ := hNext a between.files (hMid a rfl) between hLog' rfl
    exact ⟨hLast, hKeeps.trans hRest, hPost⟩
  | error e => exact ⟨hLog', hKeeps, fun a hOk => nomatch hOk⟩

theorem Leaves.mono {work : ExceptT Error Working α} (h : Leaves free' t work mid')
    (hFree : ∀ name, free' name → free name)
    (hPost : ∀ a t', t.Keeps free' t' → mid' a t' → mid a t') : Leaves free t work mid := by
  intro w hLog hFiles
  obtain ⟨hLog', hKeeps, hMid⟩ := h w hLog hFiles
  exact ⟨hLog', hKeeps.mono hFree, fun a hOk => hPost a _ hKeeps (hMid a hOk)⟩

/-- What is said leaves the files as they are. -/
theorem leaves_journal {act : Working Unit} (h : ∀ w, (act.run w).2.toDisk = w.toDisk) :
    Leaves free t (act : ExceptT Error Working Unit) fun _ t' => t' = t := by
  intro w hLog hFiles
  have hDisk : ((act : ExceptT Error Working Unit).run.run w).2.toDisk = w.toDisk := h w
  have hSame := (congrArg Disk.files hDisk).trans hFiles
  exact ⟨(congrArg Disk.log hDisk).trans hLog, hSame ▸ .refl _ _, fun _ _ => hSame⟩

theorem run_change (c : Storage.Change Unit) (w : Workspace) :
    (Working.change c).run.run w =
      ((c.run.run w.disk.files).1.mapError fun fault => .io fault.message,
        { w with toDisk := { w.disk with files := (c.run.run w.disk.files).2 } }) := by
  rcases hDone : c.run.run w.disk.files with ⟨outcome, files⟩
  unfold Working.change
  simp only [ExceptT.run_bind, StateT.run_bind, ExceptT.run_liftM, StateT.run_map, StateT.run_get,
    map_pure, pure_bind, hDone]
  cases outcome <;> rfl

theorem leaves_change {c : Storage.Change Unit} {post : FileTree → Prop} (hKeeps : c.Keeping free)
    (h : ∀ t', c.run.run t = (.ok (), t') → post t') :
    Leaves free t (Working.change c) fun _ => post := by
  rintro w hLog rfl
  have hKept := hKeeps w.files
  have hDisk : w.disk = w.toDisk := Disk.after_of_log_eq_none hLog _
  rw [run_change, hDisk]
  generalize hDone : c.run.run w.files = done at hKept
  obtain ⟨outcome, files⟩ := done
  refine ⟨hLog, hKept, fun _ hOk => ?_⟩
  cases outcome with
  | ok u => exact h files hDone
  | error fault => cases hOk

theorem leaves_events (es : List Event) :
    Leaves free t (es.forM fun e => (Working.emit e : Working Unit)) fun _ t' => t' = t := by
  induction es with
  | nil => exact leaves_pure rfl
  | cons e es ih =>
    refine (leaves_journal fun _ => rfl).bind ?_
    rintro _ _ rfl
    exact ih

end

def EndOf (paths : List String) (name : String) : Prop :=
  ∃ path ∈ paths, EndsIn path name

theorem leaves_writeArtifact {path file : String} (hEnd : EndsIn path file)
    (content : List Event × String) (t : FileTree) :
    Leaves (EndOf [path]) t (writeArtifact path content) fun _ t' =>
      t'.read path = .ok content.2.toUTF8 := by
  unfold writeArtifact
  simp only [Tracking.forIn_eq_forM]
  refine (leaves_events content.1).bind ?_
  rintro _ _ rfl
  refine leaves_change (Storage.Change.keeping_write path _ ?_) fun t' hWrite => ?_
  · intro name hName
    obtain rfl : file = name := Option.some.inj (hEnd.endName?_eq.symm.trans hName)
    exact ⟨path, List.mem_cons_self, hEnd⟩
  · exact Storage.Change.read_of_write hEnd hWrite

def Apart (path path' : String) : Prop :=
  ∀ file, EndsIn path file → ¬EndsIn path' file

/-- Files that are written one after the other, and do not end alike, are all read as they were
written. -/
theorem leaves_writeAll {files : List (String × List Event × String)}
    (hEnds : ∀ q ∈ files, ∃ file, EndsIn q.1 file)
    (hApart : files.Pairwise fun q q' => Apart q.1 q'.1) (t : FileTree) :
    Leaves (EndOf (files.map Prod.fst)) t (files.forM fun q => writeArtifact q.1 q.2) fun _ t' =>
      ∀ q ∈ files, t'.read q.1 = .ok q.2.2.toUTF8 := by
  induction files generalizing t with
  | nil => exact leaves_pure (by simp)
  | cons q files ih =>
    obtain ⟨⟨file, hEnd⟩, hRest⟩ := List.forall_mem_cons.1 hEnds
    obtain ⟨hFirst, hOthers⟩ := List.pairwise_cons.1 hApart
    have hMore {paths : List String} (hAll : paths ⊆ (q :: files).map Prod.fst) (name : String)
        (h : EndOf paths name) : EndOf ((q :: files).map Prod.fst) name :=
      let ⟨path, hMem, hPath⟩ := h
      ⟨path, hAll hMem, hPath⟩
    refine ((leaves_writeArtifact hEnd q.2 t).mono (hMore (by simp)) fun _ _ _ h => h).bind ?_
    intro _ t' hRead
    refine (ih hRest hOthers t').mono (hMore (by simp)) fun _ t'' hKeeps hReads => ?_
    refine List.forall_mem_cons.2 ⟨hKeeps.read hEnd.fileName?_eq ?_ hRead, hReads⟩
    rintro ⟨path, hMem, hPath⟩
    obtain ⟨q', hq', rfl⟩ := List.mem_map.1 hMem
    exact hFirst q' hq' file hEnd hPath

theorem pairwise_artifactPaths (outputDir : String) {name : String} (hName : '/' ∉ name.toList) :
    (artifactPaths outputDir name).Pairwise Apart := by
  have hDistinct : artifactEndings.Nodup := by decide
  refine List.pairwise_map.2 (hDistinct.imp_of_mem fun h h' hNe => ?_)
  intro file hEnd hEnd'
  have hOwn := Storage.endsIn_joinPath (artifactDir outputDir name) (isName_artifact hName h)
  have hOther := Storage.endsIn_joinPath (artifactDir outputDir name) (isName_artifact hName h')
  exact hNe (artifact_inj h h' ((hOwn.unique hEnd).trans (hOther.unique hEnd').symm)).2

def artifacts (e : Engine) (name : String) (c : ConvertedWorkbook) :
    List (String × List Event × String) :=
  (artifactPaths e.settings.outputDir name).zip (artifactContents e.catalogue c)

theorem paths_artifacts (e : Engine) (name : String) (c : ConvertedWorkbook) :
    (artifacts e name c).map Prod.fst = artifactPaths e.settings.outputDir name :=
  List.map_fst_zip (by simp [artifactPaths, artifactEndings, artifactContents])

theorem leaves_writeArtifacts (e : Engine) {name : String} (hName : '/' ∉ name.toList)
    (c : ConvertedWorkbook) (t : FileTree) :
    Leaves (IsArtifactOf name) t (writeArtifacts e.catalogue e.settings.outputDir name c)
      fun paths t' => paths = artifactPaths e.settings.outputDir name ∧
        ∀ q ∈ artifacts e name c, t'.read q.1 = .ok q.2.2.toUTF8 := by
  have hPaths := paths_artifacts e name c
  have hEnds : ∀ q ∈ artifacts e name c, ∃ file, EndsIn q.1 file := by
    intro q hMem
    obtain ⟨file, -, hEnd⟩ := endsIn_of_mem_artifactPaths hName
      (hPaths ▸ List.mem_map_of_mem hMem : q.1 ∈ artifactPaths e.settings.outputDir name)
    exact ⟨file, hEnd⟩
  have hApart : (artifacts e name c).Pairwise fun q q' => Apart q.1 q'.1 := by
    rw [← List.pairwise_map, hPaths]
    exact pairwise_artifactPaths _ hName
  have hFree (file : String) (h : EndOf ((artifacts e name c).map Prod.fst) file) :
      IsArtifactOf name file := by
    obtain ⟨path, hMem, hEnd⟩ := h
    obtain ⟨own, hOwn, hEnd'⟩ := endsIn_of_mem_artifactPaths hName (hPaths ▸ hMem)
    exact hEnd.unique hEnd' ▸ hOwn
  unfold writeArtifacts
  simp only [Tracking.forIn_eq_forM]
  have hMake : Leaves (IsArtifactOf name) t
      (Working.change (.makeDirectories (artifactDir e.settings.outputDir name))) fun _ _ => True :=
    leaves_change (Storage.Change.keeping_makeDirectories _) fun _ _ => trivial
  refine hMake.bind ?_
  intro _ t' _
  refine ((leaves_writeAll hEnds hApart t').mono hFree fun _ _ _ h => h).bind ?_
  intro _ t'' hReads
  refine (leaves_journal fun _ => rfl).bind ?_
  rintro _ _ rfl
  exact leaves_pure ⟨rfl, hReads⟩

/-! ## Files and directories -/

/-- If the file was there before and the result is a success, then the result lists the artifacts
of the file, and after all they hold what the file was converted to. -/
def Published (e : Engine) (path name : String) (before after : FileTree) (r : PipelineResult) :
    Prop :=
  before.isFile path = true → r.success = true →
    r.metadata.get? "output_files" = some (.strings (artifactPaths e.settings.outputDir name)) ∧
      ∃ w, (Workbook.load before path).outcome.1 = .ok w ∧
        ∀ q ∈ artifacts e name (Formulas.allAlone (e.settings.formula.target e.catalogue) w),
          after.read q.1 = .ok q.2.2.toUTF8

section

variable {e : Engine} {path name : String} {d d' : Disk} {r : PipelineResult}

theorem Became.published (h : Became e path name d r d') (hName : '/' ∉ name.toList)
    (hLog : d.log = none) :
    d'.log = none ∧ d.files.Keeps (IsArtifactOf name) d'.files ∧
      Published e path name d.files d'.files r := by
  cases h with
  | refused hRefused => exact ⟨hLog, .refl _ _, fun _ hSuccess => nomatch hSuccess⟩
  | unsuccessful hTaken hPiped hFailure =>
    exact ⟨hLog, .refl _ _, fun _ hSuccess => absurd hSuccess (by simp [hFailure])⟩
  | @unwritten r c error w w' hTaken hPiped hSuccess hData hDisk hWritten =>
    have hLeaves := leaves_writeArtifacts e hName c d.files w (hDisk ▸ hLog) (hDisk ▸ rfl)
    rw [hWritten] at hLeaves
    exact ⟨hLeaves.1, hLeaves.2.1, fun _ hSuccess => nomatch hSuccess⟩
  | @written r c paths w w' hTaken hPiped hSuccess hData hDisk hWritten =>
    have hLeaves := leaves_writeArtifacts e hName c d.files w (hDisk ▸ hLog) (hDisk ▸ rfl)
    rw [hWritten] at hLeaves
    obtain ⟨hLog', hKeeps, hPost⟩ := hLeaves
    obtain ⟨rfl, hReads⟩ := hPost paths rfl
    refine ⟨hLog', hKeeps, fun _ _ => ⟨?_, ?_⟩⟩
    · exact (KeyMap.get?_insert _ _ _ _).trans (if_pos rfl)
    · cases hPiped with
      | skipped _ hFailure => exact absurd hSuccess (by simp [hFailure])
      | unread _ hFailure => exact absurd hSuccess (by simp [hFailure])
      | @converted workbook said _ hLoad _ hData' =>
        rw [Disk.after_of_log_eq_none hLog] at hLoad
        refine ⟨workbook, hLoad, ?_⟩
        rw [hData] at hData'
        cases hData'
        exact hReads

theorem exists_fileName_of_isSupported (h : Workbook.isSupported path = true) :
    ∃ file, fileName? path = some file := by
  cases hName : fileName? path with
  | some file => exact ⟨file, rfl⟩
  | none =>
    rw [Workbook.isSupported, Storage.extensionOf, hName] at h
    exact absurd h (by decide)

/-- Artifacts written before do not matter to a workbook. -/
theorem Published.of_keeps {before between after : FileTree} {free : String → Prop}
    (h : Published e path name between after r) (hSupported : Workbook.isSupported path = true)
    (hKeeps : before.Keeps free between) (hFree : ∀ file, free file → ∃ n, IsArtifactOf n file) :
    Published e path name before after r := by
  intro hFile hSuccess
  obtain ⟨file, hName⟩ := exists_fileName_of_isSupported hSupported
  have hFind : between.find? path = before.find? path := by
    refine hKeeps.find?_eq hName (fun hOther => ?_) hFile
    obtain ⟨n, hArtifact⟩ := hFree file hOther
    rw [not_isSupported_of_artifact hArtifact hName] at hSupported
    cases hSupported
  have hThere : between.isFile path = true := by
    rw [FileTree.isFile, hFind]
    exact hFile
  rw [← Workbook.load_congr hFind]
  exact h hThere hSuccess

/-- Artifacts of other names do not matter to those of this one. -/
theorem Published.keeps {before between after : FileTree} {free : String → Prop}
    (h : Published e path name before between r) (hName : '/' ∉ name.toList)
    (hKeeps : between.Keeps free after) (hFree : ∀ file, IsArtifactOf name file → ¬free file) :
    Published e path name before after r := by
  intro hFile hSuccess
  obtain ⟨hListed, w, hLoad, hReads⟩ := h hFile hSuccess
  refine ⟨hListed, w, hLoad, fun q hMem => ?_⟩
  have hPath : q.1 ∈ artifactPaths e.settings.outputDir name := by
    rw [← paths_artifacts e name]
    exact List.mem_map_of_mem hMem
  obtain ⟨file, hArtifact, hEnd⟩ := endsIn_of_mem_artifactPaths hName hPath
  exact hKeeps.read hEnd.fileName?_eq (hFree file hArtifact) (hReads q hMem)

end

namespace Engine

open Migrating

variable {d : Disk}

theorem disks_convertAll (e : Engine) {paths : List String}
    (hSupported : ∀ path ∈ paths, Workbook.isSupported path = true)
    (hNames : (paths.map defaultName).Nodup) (hLog : d.log = none) :
    Disks d (e.convertAll paths) fun rs d' =>
      d.files.Keeps (fun file => ∃ path ∈ paths, IsArtifactOf (defaultName path) file) d'.files ∧
        List.Forall₂ (fun path r => Published e path (defaultName path) d.files d'.files r)
          paths rs := by
  unfold convertAll
  induction paths generalizing d with
  | nil => exact disks_pure ⟨.refl _ _, .nil⟩
  | cons path paths ih =>
    obtain ⟨hFirst, hRest⟩ := List.forall_mem_cons.1 hSupported
    obtain ⟨hNew, hDistinct⟩ := List.nodup_cons.1 hNames
    have hConvert : Disks d (do
        Migrating.log .info logTarget ("Converting: " ++ path)
        e.convertFile path none) (Became e path (defaultName path) d) :=
      (still_log _ _ _).bind fun _ => e.disks_convertFile path none
    rw [List.mapM_cons]
    refine hConvert.bind fun r d₁ hBecame => ?_
    obtain ⟨hLog₁, hKeeps₁, hPublished⟩ := hBecame.published (whole_defaultName path) hLog
    refine (ih hRest hDistinct hLog₁).bind fun rs d' hAll => disks_pure ?_
    obtain ⟨hKeeps, hOthers⟩ := hAll
    refine ⟨?_, .cons ?_ ?_⟩
    · refine (hKeeps₁.mono fun file h => ?_).trans (hKeeps.mono fun file h => ?_)
      · exact ⟨path, List.mem_cons_self, h⟩
      · obtain ⟨other, hMem, hArtifact⟩ := h
        exact ⟨other, List.mem_cons_of_mem _ hMem, hArtifact⟩
    · refine hPublished.keeps (whole_defaultName path) hKeeps fun file hOwn h => ?_
      obtain ⟨other, hMem, hArtifact⟩ := h
      exact hNew (hOwn.unique hArtifact ▸ List.mem_map_of_mem hMem)
    · have hEach := (List.forall₂_and_left paths rs).2 ⟨hRest, hOthers⟩
      refine hEach.imp fun other r h => h.2.of_keeps h.1 hKeeps₁ fun file hFree => ?_
      exact ⟨_, hFree⟩

/-- If the files of a directory have different stems, then after all each artifact that is listed
holds what its own file was converted to. -/
theorem published_convertDirectory (e : Engine) (dir : String) (recursive : Bool)
    (hLog : d.log = none)
    (hNames : ((supportedFiles d.files dir recursive).map defaultName).Nodup) :
    Disks d (e.convertDirectory dir recursive) fun outcome d' => ∀ rs, outcome = .ok rs →
      List.Forall₂ (fun path r => Published e path (defaultName path) d.files d'.files r)
        (supportedFiles d.files dir recursive) rs := by
  have hSupported : ∀ path ∈ supportedFiles d.files dir recursive,
      Workbook.isSupported path = true :=
    fun path hMem => (List.mem_filter.1 hMem).2
  unfold convertDirectory
  refine disks_get.bind ?_
  rintro s _ ⟨hDisk, rfl⟩
  have hFiles : s.files = d.files := congrArg Disk.files hDisk
  simp only [hFiles]
  split
  · refine (still_log _ _ _).bind fun _ => (e.disks_convertAll hSupported hNames hLog).bind ?_
    rintro rs d' ⟨-, hAll⟩
    apply disks_pure
    rintro _ ⟨⟩
    exact hAll
  · apply disks_pure
    rintro _ ⟨⟩

/-- Only different stems keep the artifacts of a directory apart. -/
theorem pairwise_disjoint_iff (outputDir : String) (paths : List String) :
    paths.Pairwise (fun path path' => List.Disjoint (artifactPaths outputDir (defaultName path))
        (artifactPaths outputDir (defaultName path'))) ↔ (paths.map defaultName).Nodup := by
  simp only [disjoint_artifactPaths_iff (whole_defaultName _) (whole_defaultName _)]
  exact List.pairwise_map.symm

end Engine

end DaxMigration.Migration
