import DaxMigration.Proofs.Migration.Handling

/-!
# Batches of formulas

The fields of a workbook are converted one after the other by one component, and each comes out as
if it were converted alone: what the component was asked before, and what became of the other
fields, shows in no result. Accounts, journal and summary agree with the results.
-/

namespace DaxMigration.Migration

open Tracking

variable {α β : Type}

/-! ## What a component was asked before -/

inductive Request (α : Type) where
  | convert (input : α)
  | handle (input : α) (name : String)
  | batch (inputs : List α) (names : List String)
  | start (operation : Option String)
  | finish (operation : Option String)
  | logStep (step : String) (details : Details)
  | warn (message : String) (context : Details)
  | skipped (item : String)
  | converted (item : String)
  | failed (item : String) (e : Error)
  | processed
  | reset
  /-- Nothing, while others add to the journal. -/
  | wait (entry : JournalEntry)

def Request.perform (c : Converter α β) : Request α → Tracking Unit
  | convert input => do let _ ← c.convert input
  | handle input name => do let _ ← c.handle input name
  | batch inputs names => do let _ ← c.batch inputs names
  | start operation => Tracking.start operation
  | finish operation => Tracking.finish operation
  | logStep step details => Tracking.logStep step details
  | warn message context => Tracking.addWarning message context
  | skipped item => Tracking.skipped item
  | converted item => Tracking.converted item
  | failed item e => Tracking.failed item e
  | processed => Tracking.processed
  | reset => Tracking.update Tracker.reset
  | wait entry => modify fun s => { s with journal := s.journal ++ [entry] }

/-- The state after some requests to a component that began with those accounts, on a journal that
others had begun. -/
def Converter.after (c : Converter α β) (tracker : Tracker) (requests : List (Request α))
    (journal : Journal) : Tracked :=
  ((requests.forM (Request.perform c)).run ⟨tracker, journal⟩).2

/-! ## The name of a component -/

namespace Tracking

def KeepsName (act : Tracking α) : Prop :=
  ∀ s, (act.run s).2.tracker.name = s.tracker.name

theorem keepsName_pure (a : α) : KeepsName (pure a) :=
  fun _ => rfl

theorem KeepsName.bind {act : Tracking α} {f : α → Tracking β} (h : KeepsName act)
    (hNext : ∀ a, KeepsName (f a)) : KeepsName (act >>= f) :=
  fun s => (hNext _ _).trans (h s)

theorem OnlyTells.keepsName {act : Tracking α} (h : OnlyTells act) : KeepsName act := by
  intro s
  obtain ⟨a, ws, es, hRun⟩ := h s
  rw [hRun]
  rfl

end Tracking

section

variable {c : Converter α β} (hTells : ∀ input, OnlyTells (c.convert input))
include hTells

theorem keepsName_handle (input : α) (name : String) : KeepsName (c.handle input name) :=
  fun s => (handled_handle (hTells input) name s).name_eq

theorem keepsName_batchItems (names : List String) (i : Nat) (inputs : List α) :
    KeepsName (c.batchItems names i inputs) := by
  induction inputs generalizing i with
  | nil => exact keepsName_pure []
  | cons input rest ih =>
    refine (keepsName_handle hTells input _).bind fun _ => ?_
    exact (ih (i + 1)).bind fun _ => keepsName_pure _

theorem keepsName_batch (inputs : List α) (names : List String) :
    KeepsName (c.batch inputs names) := by
  unfold Converter.batch
  refine .bind (fun _ => rfl) fun t => .bind (fun _ => rfl) fun _ => ?_
  refine (keepsName_batchItems hTells names 0 inputs).bind fun _ => ?_
  exact .bind (fun _ => rfl) fun _ => keepsName_pure _

theorem Request.keepsName_perform (request : Request α) : KeepsName (request.perform c) := by
  cases request with
  | convert input => exact (hTells input).keepsName.bind fun _ => keepsName_pure ()
  | handle input name => exact (keepsName_handle hTells input name).bind fun _ => keepsName_pure ()
  | batch inputs names => exact (keepsName_batch hTells inputs names).bind fun _ => keepsName_pure ()
  | _ => exact fun _ => rfl

theorem name_after (tracker : Tracker) (requests : List (Request α)) (journal : Journal) :
    (c.after tracker requests journal).tracker.name = tracker.name := by
  have hKeeps : KeepsName (requests.forM (Request.perform c)) := by
    induction requests with
    | nil => exact keepsName_pure ()
    | cons request rest ih => exact (request.keepsName_perform hTells).bind fun _ => ih
  exact hKeeps _

end

/-! ## The fields of a workbook -/

namespace Formulas

open Dax (Conversion)

/-- What a new component does with one field: with its formula, its name and its role. -/
def alone (t : Dax.Target) (f : Workbook.CalculatedField) : Conversion × Tracked :=
  (convertFormula t f.effectiveFormula (orDefault "Unknown" f.name) (orDefault "measure" f.role)).run
    ⟨tracker, []⟩

theorem alone_eq (t : Dax.Target) (f : Workbook.CalculatedField) :
    alone t f = (convertField t f).run (.fresh tracker.name) := rfl

theorem conversion_alone (t : Dax.Target) (f : Workbook.CalculatedField) :
    (alone t f).1 = Conversion.ofAttempt f.effectiveFormula (orDefault defaultName f.name)
      (orDefault defaultRole f.role) (Dax.attempt t f.effectiveFormula.toList) := by
  obtain ⟨ws, es, hTells, -⟩ := exists_tells_convertFormula t tracker.name f.effectiveFormula
    (orDefault defaultName f.name) (orDefault defaultRole f.role)
  exact congrArg Prod.fst hTells.fresh

def allAlone (t : Dax.Target) (w : Workbook) : ConvertedWorkbook :=
  ⟨w, w.calculatedFields.map fun f => (alone t f).1⟩

theorem tells_convertField (t : Dax.Target) (f : Workbook.CalculatedField) :
    Tells tracker.name (convertField t f) (alone t f).1 (alone t f).2.tracker.warnings
      (alone t f).2.journal := by
  obtain ⟨ws, es, hTells, -⟩ := exists_tells_convertFormula t tracker.name f.effectiveFormula
    (orDefault defaultName f.name) (orDefault defaultRole f.role)
  rw [alone_eq]
  exact tells_of_exists ⟨_, ws, es, hTells⟩

theorem formulas_alone (t : Dax.Target) (f : Workbook.CalculatedField) :
    Journal.formulas (alone t f).2.journal =
      if Text.allBlank f.effectiveFormula.toList then [] else [eventOf (alone t f).1] := by
  obtain ⟨ws, es, hTells, hFormulas⟩ := exists_tells_convertFormula t tracker.name f.effectiveFormula
    (orDefault defaultName f.name) (orDefault defaultRole f.role)
  have hAlone : alone t f = (_, ⟨{ name := tracker.name, warnings := ws }, es⟩) := hTells.fresh
  rw [hAlone]
  exact hFormulas

theorem tells_convertWorkbook (t : Dax.Target) (w : Workbook) :
    Tells tracker.name (convertWorkbook t w) ⟨w, w.calculatedFields.map fun f => (alone t f).1⟩
      (w.calculatedFields.flatMap fun f => (alone t f).2.tracker.warnings)
      ([JournalEntry.event (.component tracker.name "batch_formula_conversion" .inProgress
          (.ofList [("total_calculated_fields", .ofNat w.calculatedFields.length)]))] ++
        w.calculatedFields.flatMap fun f => (alone t f).2.journal) :=
  (tells_logStep _ _ _).bind
    ((tells_mapM fun f _ => tells_convertField t f).map (ConvertedWorkbook.mk w))

/-- Whatever a component for formulas was asked before, the results of a batch are those of new
components for each field alone, in any order of the fields; they are counted as they came out; each
formula that is not blank is told of in one event, in order; and the accounts gain the warnings of
each field alone, in order. -/
theorem batch_isolated (t : Dax.Target) (requests : List (Request FormulaInput)) (journal : Journal)
    (w : Workbook) :
    let before := (converter t).after tracker requests journal
    let (batch, after) := (convertWorkbook t w).run before
    batch.conversions = w.calculatedFields.map (fun f => (alone t f).1) ∧
      (∀ order : List Nat,
        let reordered := { w with calculatedFields := order.filterMap (w.calculatedFields[·]?) }
        ((convertWorkbook t reordered).run before).1.conversions =
          order.filterMap (batch.conversions[·]?)) ∧
      batch.summary.total = w.calculatedFields.length ∧
      batch.summary.successful = batch.conversions.countP (·.success) ∧
      batch.summary.successful + batch.summary.failed = batch.summary.total ∧
      (∃ recorded, after.journal = before.journal ++ recorded ∧
        Journal.formulas recorded = (w.calculatedFields.zip batch.conversions).flatMap fun (f, c) =>
          if Text.allBlank f.effectiveFormula.toList then []
          else [.formula c.source c.dax c.success c.issues]) ∧
      after.tracker.warnings = before.tracker.warnings ++
        w.calculatedFields.flatMap (fun f => (alone t f).2.tracker.warnings) := by
  intro before
  have hName : before.tracker.name = tracker.name :=
    name_after (fun input => (alwaysTells_convert t input).onlyTells) tracker requests journal
  have hRun (w : Workbook) := tells_convertWorkbook t w before hName
  rw [hRun w]
  refine ⟨rfl, fun order => ?_, List.length_map _, rfl, ?_, ⟨_, rfl, ?_⟩, rfl⟩
  · intro reordered
    rw [hRun reordered]
    simp [reordered, List.map_filterMap]
  · exact Nat.add_sub_cancel' List.countP_le_length
  · have hZip : w.calculatedFields.zip (w.calculatedFields.map fun f => (alone t f).1) =
        w.calculatedFields.map fun f => (f, (alone t f).1) := by
      simpa using List.zip_map' (f := id) (g := fun f => (alone t f).1) (l := w.calculatedFields)
    rw [Journal.formulas_append, Journal.formulas_flatMap, hZip, List.flatMap_map]
    simp only [formulas_alone]
    rfl

end Formulas

end DaxMigration.Migration
