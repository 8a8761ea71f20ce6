import DaxMigration.Migration.Script
import DaxMigration.Proofs.Migration.Execution
import Mathlib.Algebra.Order.Field.Rat
import Mathlib.Tactic.Linarith
import Mathlib.Tactic.Positivity

/-!
# The ledger of a component

Counts and errors of a component at work are what its items came to since the last reset, each item
put down once. What a component is asked in between changes neither.
-/

namespace DaxMigration.Migration

open Tracking

variable {α β : Type}

/-! ## What an item comes to -/

inductive Fate (β : Type) where
  | converted (output : β)
  | failed (info : ErrorInfo)
  | skipped

namespace Fate

@[simp]
def output? : Fate β → Option β
  | converted output => some output
  | failed _ | skipped => none

@[simp]
def error? : Fate β → Option ErrorInfo
  | failed info => some info
  | converted _ | skipped => none

@[simp]
def isSkipped : Fate β → Bool
  | skipped => true
  | converted _ | failed _ => false

end Fate

/-- How an error is put down; one that is not classified with the item and the component. -/
def ErrorInfo.entry (component item : String) (e : Error) : ErrorInfo :=
  if e.isClassified then .ofError e
  else ((ErrorInfo.mk e.kind e.message .empty).withContext "item_name" item).withContext
    "converter" component

namespace Converter

def itemName (names : List String) (i : Nat) : String :=
  (names[i]?).getD ("item_" ++ toString i)

def fate (c : Converter α β) (input : α) (name : String) (s : Tracked) : Fate β :=
  if c.accepts input then
    match ((c.convert input).run s).1 with
    | .ok output => .converted output
    | .error e => .failed (.entry s.tracker.name name e)
  else .skipped

def fates (c : Converter α β) (names : List String) : Nat → List α → Tracked → List (Fate β)
  | _, [], _ => []
  | i, input :: rest, s =>
    c.fate input (itemName names i) s ::
      c.fates names (i + 1) rest ((c.handle input (itemName names i)).run s).2

end Converter

/-! ## Counts and errors -/

structure Ledger where
  stats : ConversionStats := {}
  errors : List ErrorInfo := []

def Tracker.ledger (t : Tracker) : Ledger :=
  ⟨t.stats, t.errors⟩

namespace Ledger

def enter (l : Ledger) : Fate β → Ledger
  | .converted _ =>
    { l with stats := { l.stats with
        processed := l.stats.processed + 1, converted := l.stats.converted + 1 } }
  | .failed info =>
    { stats := { l.stats with processed := l.stats.processed + 1, failed := l.stats.failed + 1 }
      errors := l.errors ++ [info] }
  | .skipped =>
    { l with stats := { l.stats with
        processed := l.stats.processed + 1, skipped := l.stats.skipped + 1 } }

def enterAll (l : Ledger) (fs : List (Fate β)) : Ledger :=
  fs.foldl enter l

theorem enterAll_append (l : Ledger) (fs gs : List (Fate β)) :
    l.enterAll (fs ++ gs) = (l.enterAll fs).enterAll gs :=
  List.foldl_append

theorem errors_enterAll (fs : List (Fate β)) :
    (Ledger.enterAll {} fs).errors = fs.filterMap Fate.error? := by
  induction fs using List.reverseRecOn with
  | nil => rfl
  | append_singleton fs f ih =>
    rw [enterAll_append, List.filterMap_append, ← ih]
    cases f <;> simp [enterAll, enter]

/-- Every item is put down once. -/
theorem stats_enterAll (fs : List (Fate β)) :
    (Ledger.enterAll {} fs).stats =
      { processed := fs.length
        converted := fs.countP (·.output?.isSome)
        failed := fs.countP (·.error?.isSome)
        skipped := fs.countP (·.isSkipped) } := by
  induction fs using List.reverseRecOn with
  | nil => rfl
  | append_singleton fs f ih =>
    rw [enterAll_append, List.countP_append, List.countP_append, List.countP_append,
      List.length_append]
    generalize enterAll {} fs = l at ih ⊢
    cases f <;> simp [enterAll, enter, ih]

theorem length_eq_countP (fs : List (Fate β)) :
    fs.length = fs.countP (·.output?.isSome) + fs.countP (·.error?.isSome) +
      fs.countP (·.isSkipped) := by
  induction fs with
  | nil => rfl
  | cons f fs ih =>
    cases f <;> simp +arith [ih]

end Ledger

/-! ## Items at work -/

section

variable {c : Converter α β} (hTells : ∀ input, OnlyTells (c.convert input))
include hTells

theorem ledger_handle (input : α) (name : String) (s : Tracked) :
    ((c.handle input name).run s).1 = (c.fate input name s).output? ∧
      ((c.handle input name).run s).2.tracker.ledger =
        s.tracker.ledger.enter (c.fate input name s) := by
  unfold Converter.handle Converter.fate
  simp only
  split
  · obtain ⟨outcome, ws, es, hRun⟩ := hTells input s
    rw [StateT.run_bind, hRun]
    cases outcome with
    | ok output => exact ⟨rfl, rfl⟩
    | error e => exact ⟨rfl, rfl⟩
  · exact ⟨rfl, rfl⟩

theorem ledger_batchItems (names : List String) (i : Nat) (inputs : List α) (s : Tracked) :
    ((c.batchItems names i inputs).run s).1 = (c.fates names i inputs s).map Fate.output? ∧
      ((c.batchItems names i inputs).run s).2.tracker.ledger =
        s.tracker.ledger.enterAll (c.fates names i inputs s) := by
  induction inputs generalizing i s with
  | nil => exact ⟨rfl, rfl⟩
  | cons input rest ih =>
    obtain ⟨hOutcome, hLedger⟩ := ledger_handle hTells input (Converter.itemName names i) s
    obtain ⟨hOutcomes, hLedgers⟩ :=
      ih (i + 1) ((c.handle input (Converter.itemName names i)).run s).2
    constructor
    · exact congr (congrArg List.cons hOutcome) hOutcomes
    · rw [hLedger] at hLedgers
      exact hLedgers

end

/-! ## What is asked of a component -/

inductive Errand (α : Type) where
  | handle (input : α) (name : String)
  | batch (inputs : List α) (names : List String)
  | run (data : StageData) (stage : String)
  | start (operation : Option String)
  | finish (operation : Option String)
  | logStep (step : String) (details : Details)
  | warn (message : String) (context : Details)
  | summary
  | reset

inductive Answer (β : Type) where
  | outcome (output : Option β)
  | outcomes (outputs : List (Option β))
  | staged (output : Option StageData)
  | summary (s : ConversionSummary)
  | done

def Answer.outputs : Answer β → Nat
  | outcome output => if output.isSome then 1 else 0
  | outcomes outputs => outputs.countP (·.isSome)
  | staged output => if output.isSome then 1 else 0
  | summary _ | done => 0

/-- A component at work: a converter, and the data that it takes and gives as a stage. -/
structure Worker (α β : Type) where
  converter : Converter α β
  take : StageData → Option α
  give : β → StageData

def Worker.stageFate (w : Worker α β) (data : StageData) (stage : String) (s : Tracked) : Fate β :=
  match w.take data with
  | some input => w.converter.fate input stage s
  | none => .skipped

structure Deed (α β : Type) where
  errand : Errand α
  before : Tracked
  answer : Answer β

namespace Errand

variable (w : Worker α β)

def perform : Errand α → Tracking (Answer β)
  | handle input name => return .outcome (← w.converter.handle input name)
  | batch inputs names => return .outcomes (← w.converter.batch inputs names)
  | run data stage => return .staged (← (Stage.ofConverter stage { name := stage } w.converter
      w.take w.give).run data)
  | start operation => do Tracking.start operation; return .done
  | finish operation => do Tracking.finish operation; return .done
  | logStep step details => do Tracking.logStep step details; return .done
  | warn message context => do Tracking.addWarning message context; return .done
  | summary => return .summary (← Tracking.tracker).summary
  | reset => do Tracking.update Tracker.reset; return .done

def record (e : Errand α) : Tracking (Deed α β) := do
  let before ← get
  return ⟨e, before, ← e.perform w⟩

def isReset : Errand α → Bool
  | reset => true
  | _ => false

def opened (s : Tracked) : Tracked :=
  ((Tracking.start (some (s.tracker.name ++ "_batch"))).run s).2

def fates (e : Errand α) (s : Tracked) : List (Fate β) :=
  match e with
  | handle input name => [w.converter.fate input name s]
  | batch inputs names => w.converter.fates names 0 inputs (opened s)
  | run data stage => [w.stageFate data stage s]
  | _ => []

end Errand

namespace Worker

variable (w : Worker α β)

def work (errands : List (Errand α)) : Tracking (List (Deed α β)) :=
  errands.mapM (Errand.record w)

def history (name : String) (journal : Journal) (errands : List (Errand α)) :
    List (Deed α β) × Tracked :=
  (w.work errands).run ⟨{ name := name }, journal⟩

def OnlyTells : Prop :=
  ∀ input, Tracking.OnlyTells (w.converter.convert input)

end Worker

def sinceReset (vs : List (Deed α β)) : List (Deed α β) :=
  (vs.reverse.takeWhile fun v => !v.errand.isReset).reverse

theorem sinceReset_append (vs : List (Deed α β)) (v : Deed α β) :
    sinceReset (vs ++ [v]) = if v.errand.isReset then [] else sinceReset vs ++ [v] := by
  rw [sinceReset, sinceReset, List.reverse_append, List.reverse_singleton, List.singleton_append,
    List.takeWhile_cons]
  cases v.errand.isReset <;> simp

/-! ## Errands -/

namespace Converter

def reached (c : Converter α β) (earlier : List α) (names : List String) (s : Tracked) : Tracked :=
  ((c.batchItems names 0 earlier).run (Errand.opened s)).2

theorem getElem?_fates (c : Converter α β) (names : List String) (k : Nat) (inputs : List α)
    (s : Tracked) (i : Nat) :
    (c.fates names k inputs s)[i]? = inputs[i]?.map fun input =>
      c.fate input (itemName names (k + i)) ((c.batchItems names k (inputs.take i)).run s).2 := by
  induction inputs generalizing k s i with
  | nil => rfl
  | cons input rest ih =>
    cases i with
    | zero => rfl
    | succ i =>
      rw [fates, List.getElem?_cons_succ, ih, List.getElem?_cons_succ,
        Nat.add_assoc, Nat.add_comm 1 i]
      rfl

theorem length_fates (c : Converter α β) (names : List String) (k : Nat) (inputs : List α)
    (s : Tracked) : (c.fates names k inputs s).length = inputs.length := by
  induction inputs generalizing k s with
  | nil => rfl
  | cons input rest ih => exact congrArg (· + 1) (ih (k + 1) _)

end Converter

namespace Errand

variable {w : Worker α β} (hTells : w.OnlyTells)
include hTells

theorem perform_batch (inputs : List α) (names : List String) (s : Tracked) :
    (((batch inputs names).perform w).run s).1 =
        .outcomes ((w.converter.fates names 0 inputs (opened s)).map Fate.output?) ∧
      (((batch inputs names).perform w).run s).2.tracker.ledger =
        s.tracker.ledger.enterAll (w.converter.fates names 0 inputs (opened s)) := by
  obtain ⟨hOutcomes, hLedger⟩ := ledger_batchItems hTells names 0 inputs (opened s)
  exact ⟨congrArg Answer.outcomes hOutcomes, hLedger⟩

theorem perform_run (data : StageData) (stage : String) (s : Tracked) :
    let act := (Stage.ofConverter stage { name := stage } w.converter w.take w.give).run data
    (act.run s).1 = (w.stageFate data stage s).output?.map w.give ∧
      (act.run s).2.tracker.ledger = s.tracker.ledger.enter (w.stageFate data stage s) := by
  intro act
  unfold act Stage.ofConverter Worker.stageFate
  simp only
  cases w.take data with
  | some input =>
    obtain ⟨hOutcome, hLedger⟩ := ledger_handle hTells input stage s
    exact ⟨congrArg (Option.map w.give) hOutcome, hLedger⟩
  | none => exact ⟨rfl, rfl⟩

omit hTells in
theorem summary_of_answer {e : Errand α} {s : Tracked} {summary : ConversionSummary}
    (h : ((e.perform w).run s).1 = .summary summary) : summary = s.tracker.summary := by
  cases e with
  | summary =>
    cases h
    rfl
  | _ => cases h

/-- What an errand puts down, and how many outputs it returns. -/
theorem perform_eq (e : Errand α) (s : Tracked) :
    ((e.perform w).run s).1.outputs = (e.fates w s).countP (·.output?.isSome) ∧
      ((e.perform w).run s).2.tracker.ledger =
        if e.isReset then {} else s.tracker.ledger.enterAll (e.fates w s) := by
  cases e with
  | handle input name =>
    obtain ⟨hOutcome, hLedger⟩ := ledger_handle hTells input name s
    refine ⟨?_, hLedger⟩
    have hAnswer : (((handle input name).perform w).run s).1 =
        .outcome ((w.converter.handle input name).run s).1 := rfl
    rw [hAnswer, hOutcome, fates]
    cases w.converter.fate input name s <;> rfl
  | batch inputs names =>
    obtain ⟨hAnswer, hLedger⟩ := perform_batch hTells inputs names s
    refine ⟨?_, hLedger⟩
    rw [hAnswer, Answer.outputs, List.countP_map]
    rfl
  | run data stage =>
    obtain ⟨hStaged, hLedger⟩ := perform_run hTells data stage s
    refine ⟨?_, hLedger⟩
    have hAnswer : (((run data stage).perform w).run s).1 = .staged
        (((Stage.ofConverter stage { name := stage } w.converter w.take w.give).run data).run s).1 :=
      rfl
    rw [hAnswer, hStaged, fates]
    cases w.stageFate data stage s <;> rfl
  | _ => exact ⟨rfl, rfl⟩

end Errand

/-! ## A component at work -/

/-- The success rate of the accounts in hundredths, not rounded. -/
def ConversionSummary.exactRate (s : ConversionSummary) : ℚ :=
  if s.stats.processed = 0 then 0 else s.stats.converted / s.stats.processed * 100

theorem exactRate_bounds {s : ConversionSummary} (h : s.stats.converted ≤ s.stats.processed) :
    0 ≤ s.exactRate ∧ s.exactRate ≤ 100 := by
  unfold ConversionSummary.exactRate
  split
  · exact ⟨le_rfl, by norm_num⟩
  · rename_i hProcessed
    have hPositive : (0 : ℚ) < s.stats.processed := by exact_mod_cast Nat.pos_of_ne_zero hProcessed
    have hShare : (s.stats.converted : ℚ) / s.stats.processed ≤ 1 :=
      (div_le_one hPositive).2 (by exact_mod_cast h)
    exact ⟨by positivity, by linarith⟩

structure Balanced (w : Worker α β) (deeds : List (Deed α β)) (t : Tracker) : Prop where
  adds_up : t.stats.processed = t.stats.converted + t.stats.failed + t.stats.skipped
  failures : t.errors.length = t.stats.failed
  errors : t.errors = (sinceReset deeds).flatMap fun v =>
    (v.errand.fates w v.before).filterMap Fate.error?
  outputs : ((sinceReset deeds).map (·.answer.outputs)).sum = t.stats.converted
  batches : ∀ v ∈ deeds, ∀ inputs names, v.errand = .batch inputs names →
    ∃ outcomes, v.answer = .outcomes outcomes ∧ outcomes.length = inputs.length ∧
      ∀ i input, inputs[i]? = some input → outcomes[i]? = some
        (w.converter.fate input (Converter.itemName names i)
          (w.converter.reached (inputs.take i) names v.before)).output?
  rate : 0 ≤ t.summary.exactRate ∧ t.summary.exactRate ≤ 100
  rates : ∀ v ∈ deeds, ∀ s, v.answer = .summary s → 0 ≤ s.exactRate ∧ s.exactRate ≤ 100

namespace Worker

variable {w : Worker α β}

/-- What the items came to that were put down since the last reset. -/
def recent (w : Worker α β) (deeds : List (Deed α β)) : List (Fate β) :=
  (sinceReset deeds).flatMap fun v => v.errand.fates w v.before

structure Kept (w : Worker α β) (deeds : List (Deed α β)) (t : Tracker) : Prop where
  ledger : t.ledger = Ledger.enterAll {} (recent w deeds)
  answered : ∀ v ∈ deeds, v.answer = ((v.errand.perform w).run v.before).1
  within : ∀ v ∈ deeds, v.before.tracker.stats.converted ≤ v.before.tracker.stats.processed

section

variable {deeds : List (Deed α β)} {t : Tracker}

theorem Kept.stats (h : Kept w deeds t) :
    t.stats =
      { processed := (recent w deeds).length
        converted := (recent w deeds).countP (·.output?.isSome)
        failed := (recent w deeds).countP (·.error?.isSome)
        skipped := (recent w deeds).countP (·.isSkipped) } :=
  (congrArg Ledger.stats h.ledger).trans (Ledger.stats_enterAll _)

theorem Kept.errors (h : Kept w deeds t) : t.errors = (recent w deeds).filterMap Fate.error? :=
  (congrArg Ledger.errors h.ledger).trans (Ledger.errors_enterAll _)

theorem Kept.converted_le (h : Kept w deeds t) : t.stats.converted ≤ t.stats.processed := by
  rw [h.stats]
  exact List.countP_le_length

theorem work_append (errands : List (Errand α)) (e : Errand α) (s : Tracked) :
    (w.work (errands ++ [e])).run s =
      let (deeds, between) := (w.work errands).run s
      let (answer, after) := (e.perform w).run between
      (deeds ++ [⟨e, between, answer⟩], after) := by
  rw [work, List.mapM_append]
  rfl

variable (hTells : w.OnlyTells)
include hTells

/-- One more errand. -/
theorem Kept.step {between : Tracked} (h : Kept w deeds between.tracker) (e : Errand α) :
    Kept w (deeds ++ [⟨e, between, ((e.perform w).run between).1⟩])
      ((e.perform w).run between).2.tracker := by
  obtain ⟨-, hLedger⟩ := Errand.perform_eq hTells e between
  refine ⟨?_, ?_, ?_⟩
  · rw [hLedger, recent, sinceReset_append]
    cases e.isReset with
    | true => rfl
    | false =>
      simp only [Bool.false_eq_true, if_false, List.flatMap_append, List.flatMap_singleton]
      rw [Ledger.enterAll_append, h.ledger]
      rfl
  · intro v hv
    rcases List.mem_append.1 hv with hv | hv
    · exact h.answered v hv
    · rw [List.mem_singleton.1 hv]
  · intro v hv
    rcases List.mem_append.1 hv with hv | hv
    · exact h.within v hv
    · rw [List.mem_singleton.1 hv]
      exact h.converted_le

theorem kept_history (name : String) (journal : Journal) (errands : List (Errand α)) :
    Kept w (w.history name journal errands).1 (w.history name journal errands).2.tracker := by
  induction errands using List.reverseRecOn with
  | nil => exact ⟨rfl, by rintro v ⟨⟩, by rintro v ⟨⟩⟩
  | append_singleton errands e ih =>
    rw [history, work_append]
    exact ih.step hTells e

theorem outputs_eq_countP (h : ∀ v ∈ deeds, v.answer = ((v.errand.perform w).run v.before).1) :
    (deeds.map (·.answer.outputs)).sum =
      (deeds.flatMap fun v => v.errand.fates w v.before).countP (·.output?.isSome) := by
  induction deeds with
  | nil => rfl
  | cons v vs ih =>
    obtain ⟨hFirst, hRest⟩ := List.forall_mem_cons.1 h
    rw [List.map_cons, List.sum_cons, ih hRest, List.flatMap_cons, List.countP_append, hFirst,
      (Errand.perform_eq hTells v.errand v.before).1]

/-- Whatever is asked of a component that only warns and tells while it converts, its items add up,
its errors are those of the failures in order, and it has returned as many outputs as it counts as
converted, all since the last reset; a batch has one outcome for each item, that of the item in the
state that those before it left. -/
theorem balanced_history (name : String) (journal : Journal) (errands : List (Errand α)) :
    Balanced w (w.history name journal errands).1 (w.history name journal errands).2.tracker := by
  have hKept := kept_history hTells name journal errands
  generalize (w.history name journal errands).1 = deeds at hKept ⊢
  have hRecent : ∀ v ∈ sinceReset deeds, v ∈ deeds := by
    intro v hv
    have hMem := List.takeWhile_sublist _ |>.subset (List.mem_reverse.1 hv)
    exact List.mem_reverse.1 hMem
  exact {
    adds_up := by
      rw [hKept.stats]
      exact Ledger.length_eq_countP _
    failures := by
      rw [hKept.stats, hKept.errors]
      exact List.length_filterMap_eq_countP
    errors := hKept.errors.trans (List.filterMap_flatMap ..)
    outputs := by
      rw [hKept.stats]
      exact outputs_eq_countP hTells fun v hv => hKept.answered v (hRecent v hv)
    batches := by
      intro v hv inputs names hErrand
      have hAnswer := hKept.answered v hv
      rw [hErrand, (Errand.perform_batch hTells inputs names v.before).1] at hAnswer
      refine ⟨_, hAnswer, ?_, ?_⟩
      · rw [List.length_map, Converter.length_fates]
      · intro i input hInput
        rw [List.getElem?_map, Converter.getElem?_fates, hInput, Nat.zero_add]
        rfl
    rate := exactRate_bounds hKept.converted_le
    rates := by
      intro v hv summary hSummary
      rw [hKept.answered v hv] at hSummary
      rw [Errand.summary_of_answer hSummary]
      exact exactRate_bounds (hKept.within v hv) }

end

/-- Refuses a formula that is `skip` and fails on one that is `bad`. -/
def pickyScript : Script := fun formula =>
  { accepts := formula ≠ "skip"
    warnings := ["seen"]
    error := if formula = "bad" then some (.unexpected "refused") else none }

def picky : Worker String String :=
  ⟨pickyScript.converter, StageData.formula?, StageData.formula⟩

/-- A failure before a reset, then two batches, two runs as a stage and a summary between them. -/
def mixedErrands : List (Errand String) :=
  [.handle "bad" "first", .reset, .start none, .batch ["a", "bad", "skip", "b"] ["one"],
    .run (.formula "c") "stage", .summary, .run (.workbook {}) "stage", .warn "late" .empty,
    .batch ["bad", "d"] [], .finish none]

theorem balanced_history_mixed :
    picky.OnlyTells ∧
      Balanced picky (picky.history "Picky" [] mixedErrands).1
        (picky.history "Picky" [] mixedErrands).2.tracker ∧
      (picky.history "Picky" [] mixedErrands).2.tracker.stats = ⟨8, 4, 2, 2⟩ := by
  have hTells : picky.OnlyTells := fun formula => (pickyScript.alwaysTells_convert formula).onlyTells
  exact ⟨hTells, balanced_history hTells "Picky" [] mixedErrands, by decide +kernel⟩

end Worker

end DaxMigration.Migration
