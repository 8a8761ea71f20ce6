import DaxMigration.Proofs.Dax.Remarks
import DaxMigration.Proofs.Dax.Undivided
import DaxMigration.Proofs.Migration.Publishing

/-!
# Live lines of the measures file

Every text that the file quotes becomes a comment by the mark in front of it, and only the source is
put on one line first. So the definitions are all that is live where the other texts are on one line
already: the names, the roles, the formulas, and what the target adds to these.
-/

namespace DaxMigration.Migration

open Dax (Conversion oneLine_appendText oneLine_between oneLine_ofList oneLine_toString)
open Decimal (Binary64)
open Text (OneLine oneLine_append oneLine_cons oneLine_nil ended)
open Workbook (CalculatedField)

/-! ## Lines of a text -/

def isLive (line : List Char) : Bool :=
  !line.isEmpty && !(['/', '/'].isPrefixOf line)

def liveLines (text : List Char) : List (List Char) :=
  (text.splitOn '\n').filter isLive

theorem splitOn_ended {lines : List String} (h : ∀ line ∈ lines, OneLine line.toList) :
    (ended lines).toList.splitOn '\n' = lines.map String.toList ++ [[]] := by
  induction lines with
  | nil => rfl
  | cons line lines ih =>
    obtain ⟨hFirst, hRest⟩ := List.forall_mem_cons.1 h
    have hText : (ended (line :: lines)).toList = line.toList ++ '\n' :: (ended lines).toList := by
      simp [ended]
    rw [hText, List.splitOn_append_cons_self_of_not_mem hFirst, ih hRest]
    rfl

theorem liveLines_ended {lines : List String} (h : ∀ line ∈ lines, OneLine line.toList) :
    liveLines (ended lines).toList = (lines.map String.toList).filter isLive := by
  have hEmpty : [[]].filter isLive = [] := by decide
  rw [liveLines, splitOn_ended h, List.filter_append, hEmpty, List.append_nil]

theorem toList_comment (s : String) : (comment s).toList = '/' :: '/' :: ' ' :: s.toList := by
  simp [comment]

theorem isLive_comment (s : String) : isLive (comment s).toList = false := by
  rw [toList_comment]
  rfl

theorem oneLine_comment {s : String} (h : OneLine s.toList) : OneLine (comment s).toList := by
  rw [toList_comment]
  simpa using h

theorem oneLine_unbroken (s : String) : OneLine (unbroken s).toList := by
  intro hMem
  simp only [unbroken, String.toList_map, List.mem_map] at hMem
  obtain ⟨c, -, hBreak⟩ := hMem
  split at hBreak
  · cases hBreak
  · contradiction

/-! ## Blocks -/

structure Conversion.Plain (name : String) (c : Conversion) : Prop extends c.OneLine where
  heading : OneLine name.toList
  role : OneLine c.fieldRole.toList

theorem toList_definition (name : String) (c : Conversion) : (definition name c).toList =
    '[' :: (name.toList ++ "] = ".toList ++ (if c.success then c.dax else "").toList) := by
  simp [definition]

/-- The definition is all that is live among the texts of a block. -/
theorem filter_measureBlock (name : String) (c : Conversion) :
    ((measureBlock name c).map String.toList).filter isLive = [(definition name c).toList] := by
  have hComments : (((commentTexts name c).map comment).map String.toList).filter isLive = [] := by
    simp [isLive_comment]
  have hDefinition : isLive (definition name c).toList = true := by
    rw [toList_definition]
    rfl
  rw [measureBlock_eq, List.map_append, List.filter_append, hComments]
  exact List.filter_cons_of_pos hDefinition

theorem oneLine_intercalateText {sep : String} {parts : List String} (hSep : OneLine sep.toList)
    (h : ∀ part ∈ parts, OneLine part.toList) : OneLine (sep.intercalate parts).toList := by
  rw [String.toList_intercalate]
  exact Text.not_mem_intercalate hSep (List.forall_mem_map.2 h)

theorem oneLine_measureBlock {name : String} {c : Conversion} (h : Conversion.Plain name c) :
    ∀ line ∈ measureBlock name c, OneLine line.toList := by
  have hHeading : OneLine (name ++ " (" ++ c.fieldRole ++ ")").toList := by
    simp [h.heading, h.role]
  have hSource : OneLine ("Original Tableau: " ++ unbroken c.source).toList :=
    oneLine_appendText.2 ⟨oneLine_ofList (by decide), oneLine_unbroken _⟩
  have hNotes : ∀ note ∈ c.notes.map ("Note: " ++ ·), OneLine note.toList := by
    intro note hMem
    obtain ⟨text, hText, rfl⟩ := List.mem_map.1 hMem
    exact oneLine_appendText.2 ⟨oneLine_ofList (by decide), h.notes text hText⟩
  have hIssues : OneLine ("Issues: " ++ ", ".intercalate c.issues).toList :=
    oneLine_appendText.2 ⟨oneLine_ofList (by decide), oneLine_intercalateText (by decide) h.issues⟩
  have hCandidate : OneLine ("Candidate: " ++ c.dax).toList :=
    oneLine_appendText.2 ⟨oneLine_ofList (by decide), h.dax⟩
  have hComments : ∀ text ∈ commentTexts name c, OneLine text.toList := by
    have hFailure : OneLine "CONVERSION FAILED - Manual review required".toList :=
      oneLine_ofList (by decide)
    unfold commentTexts
    simp only [List.forall_mem_append, List.forall_mem_cons]
    refine ⟨⟨⟨hHeading, hSource, by simp⟩, hNotes⟩, ?_⟩
    split
    · simp
    · simp only [List.forall_mem_append, List.forall_mem_cons]
      refine ⟨⟨hFailure, hIssues, by simp⟩, ?_⟩
      split
      · simp
      · simpa using hCandidate
  have hDefinition : OneLine (definition name c).toList := by
    rw [toList_definition]
    cases c.success <;> simp [h.heading, h.dax]
  rw [measureBlock_eq]
  simp only [List.forall_mem_append, List.forall_mem_map, List.forall_mem_cons]
  exact ⟨fun text hMem => oneLine_comment (hComments text hMem), hDefinition, by simp⟩

/-- In the block of a formula that failed, only the name and the sign of the definition are live. -/
theorem liveLines_of_failed {name : String} {c : Conversion} (h : Conversion.Plain name c)
    (hFailed : c.success = false) :
    liveLines (ended (measureBlock name c)).toList = [("[" ++ name ++ "] = ").toList] := by
  rw [liveLines_ended (oneLine_measureBlock h), filter_measureBlock]
  simp [definition, hFailed]

/-! ## The whole file -/

theorem oneLine_fixedText (places : Nat) (x : Binary64) : OneLine (x.fixedText places).toList := by
  have hZeros (n : Nat) : OneLine (Decimal.zeros n).toList := by
    simp [OneLine, Decimal.zeros]
  cases x with
  | finite negative m e =>
    have hSign : OneLine (if negative then "-" else "").toList := by
      cases negative <;> decide
    simp only [Binary64.fixedText]
    split
    · exact oneLine_appendText.2 ⟨hSign, oneLine_toString _⟩
    · simp only [oneLine_appendText]
      exact ⟨⟨⟨⟨hSign, oneLine_toString _⟩, by decide⟩, hZeros _⟩, oneLine_toString _⟩
  | infinite negative =>
    cases negative
    · exact (by decide : OneLine "inf".toList)
    · exact (by decide : OneLine "-inf".toList)
  | undefined => exact (by decide : OneLine "NaN".toList)

theorem oneLine_measuresHeading {c : ConvertedWorkbook} (hFile : OneLine c.workbook.file.name.toList) :
    ∀ line ∈ measuresHeading c, OneLine line.toList := by
  have hSource : OneLine ("Source: " ++ c.workbook.file.name).toList :=
    oneLine_appendText.2 ⟨oneLine_ofList (by decide), hFile⟩
  have hRate : OneLine ("Conversion Success Rate: " ++ c.summary.successRate.fixedText 1 ++ "%").toList :=
    oneLine_between (oneLine_ofList (by decide)) (oneLine_fixedText 1 _) (by decide)
  simp only [measuresHeading, List.forall_mem_cons]
  exact ⟨oneLine_comment (oneLine_ofList (by decide)), oneLine_comment hSource, oneLine_comment hRate,
    by decide, by simp⟩

theorem filter_measuresHeading (c : ConvertedWorkbook) :
    ((measuresHeading c).map String.toList).filter isLive = [] := by
  have hEmpty : isLive [] = false := rfl
  simp [measuresHeading, isLive_comment, hEmpty]

/-- The built-in functions have names on one line. -/
theorem oneLine_target_builtin {s : FormulaSettings} (hTable : OneLine s.table.toList)
    (hOrder : OneLine s.orderColumn.toList) : (s.target Catalogue.builtin).OneLine where
  table := hTable
  orderColumn := hOrder
  function name text h hMem := by
    have hInk := ((Dax.isNamed_builtin s.table s.orderColumn name text h).2 '\n' hMem).1
    exact absurd hInk (by decide)

structure FieldOneLine (f : CalculatedField) : Prop where
  name : OneLine f.displayName.toList
  role : OneLine f.role.toList
  formula : OneLine f.effectiveFormula.toList

section

variable {t : Dax.Target} (ht : t.OneLine) {w : Workbook}
  (hFields : ∀ f ∈ w.calculatedFields, FieldOneLine f)
include ht hFields

theorem plain_alone {f : CalculatedField} (hf : f ∈ w.calculatedFields) :
    Conversion.Plain ((Formulas.allAlone t w).measureName (Formulas.alone t f).1)
      (Formulas.alone t f).1 := by
  have hName : OneLine ((Formulas.allAlone t w).measureName (Formulas.alone t f).1).toList := by
    rcases measureName_of_mem t w hf with ⟨g, hg, -, hDisplay⟩ | ⟨-, -, hDefault⟩
    · exact hDisplay ▸ (hFields g hg).name
    · exact hDefault ▸ by decide
  have hRole : OneLine (Formulas.alone t f).1.fieldRole.toList := by
    rw [fieldRole_alone]
    unfold Formulas.orDefault
    split
    · decide
    · exact (hFields f hf).role
  have hLine : (Formulas.alone t f).1.OneLine := by
    rw [Formulas.conversion_alone]
    exact Dax.Conversion.oneLine_ofAttempt ht (hFields f hf).formula _ _
  exact ⟨hLine, hName, hRole⟩

/-- Where the texts of the fields are on one line each, the definitions are all that is live in the
measures file, and that of a formula that failed is empty. -/
theorem liveLines_measuresText (hFile : OneLine w.file.name.toList) (s : Tracked)
    (hName : s.tracker.name = Formulas.tracker.name) :
    let c := ((Formulas.convertWorkbook t w).run s).1
    liveLines (measuresText c).toList = c.conversions.map fun conversion =>
      ("[" ++ c.measureName conversion ++ "] = " ++
        if conversion.success then conversion.dax else "").toList := by
  intro c
  have hRun : c = Formulas.allAlone t w :=
    congrArg Prod.fst (Formulas.tells_convertWorkbook t w s hName)
  have hPlain : ∀ conversion ∈ c.conversions, Conversion.Plain (c.measureName conversion) conversion := by
    rw [hRun]
    intro conversion hMem
    obtain ⟨f, hf, rfl⟩ := List.mem_map.1 hMem
    exact plain_alone ht hFields hf
  have hLines : ∀ line ∈ measuresHeading c ++ c.blocks.flatten, OneLine line.toList := by
    refine List.forall_mem_append.2 ⟨oneLine_measuresHeading (by rw [hRun]; exact hFile), ?_⟩
    intro line hMem
    obtain ⟨block, hBlock, hLine⟩ := List.mem_flatten.1 hMem
    obtain ⟨conversion, hConversion, rfl⟩ := List.mem_map.1 hBlock
    exact oneLine_measureBlock (hPlain conversion hConversion) line hLine
  have hBlocks (conversions : List Conversion) :
      (((conversions.map fun k => measureBlock (c.measureName k) k).flatten).map
        String.toList).filter isLive =
          conversions.map fun k => (definition (c.measureName k) k).toList := by
    induction conversions with
    | nil => rfl
    | cons k ks ih =>
      rw [List.map_cons, List.flatten_cons, List.map_append, List.filter_append, ih,
        filter_measureBlock]
      rfl
  rw [c.measuresText_eq, liveLines_ended hLines, List.map_append, List.filter_append,
    filter_measuresHeading]
  exact hBlocks c.conversions

end

end DaxMigration.Migration
