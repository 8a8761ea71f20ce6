import DaxMigration.Migration.Documents
import DaxMigration.Migration.Formulas
import Mathlib.Tactic.Common

/-!
# Computations that only tell

A component at work puts warnings behind those in its accounts and entries behind the journal, and
leaves the counts and the errors to whoever asked it. The component for formulas, and that for
documents on given files, tell the same on every state: what they do depends on nothing that was
told before.
-/

namespace DaxMigration.Migration

open Dax (Attempt Conversion)

variable {α β : Type}

def Tracked.tell (s : Tracked) (warnings : List WarningInfo) (entries : Journal) : Tracked where
  tracker := { s.tracker with warnings := s.tracker.warnings ++ warnings }
  journal := s.journal ++ entries

theorem Tracked.tell_entries (s : Tracked) (es : Journal) :
    s.tell [] es = { s with journal := s.journal ++ es } := by
  simp [tell]

theorem Tracked.tell_tell (s : Tracked) (ws ws' : List WarningInfo) (es es' : Journal) :
    (s.tell ws es).tell ws' es' = s.tell (ws ++ ws') (es ++ es') := by
  simp [tell]

def Tracked.fresh (name : String) : Tracked :=
  ⟨{ name := name }, []⟩

namespace Tracking

/-- On accounts of that name the computation always has that value and tells those warnings and
entries, and it changes nothing else. -/
def Tells (name : String) (act : Tracking α) (a : α) (warnings : List WarningInfo)
    (entries : Journal) : Prop :=
  ∀ s : Tracked, s.tracker.name = name → act.run s = (a, s.tell warnings entries)

section

variable {name : String} {act : Tracking α} {a : α} {f : α → Tracking β} {b : β}
  {ws ws' : List WarningInfo} {es es' : Journal}

theorem Tells.fresh (h : Tells name act a ws es) :
    act.run (.fresh name) = (a, ⟨{ name := name, warnings := ws }, es⟩) :=
  h (.fresh name) rfl

/-- What is told on every state is what is told on fresh accounts. -/
theorem tells_of_exists (h : ∃ a ws es, Tells name act a ws es) :
    Tells name act (act.run (.fresh name)).1 (act.run (.fresh name)).2.tracker.warnings
      (act.run (.fresh name)).2.journal := by
  obtain ⟨a, ws, es, hTells⟩ := h
  rwa [hTells.fresh]

theorem tells_pure (name : String) (a : α) : Tells name (pure a) a [] [] := by
  intro s _
  rw [Tracked.tell_entries, List.append_nil]
  rfl

theorem Tells.bind (h : Tells name act a ws es) (hNext : Tells name (f a) b ws' es') :
    Tells name (act >>= f) b (ws ++ ws') (es ++ es') := by
  intro s hName
  have hFirst := h s hName
  have hSecond := hNext (s.tell ws es) hName
  calc (act >>= f).run s = (f a).run (s.tell ws es) := by rw [StateT.run_bind, hFirst]; rfl
    _ = (b, s.tell (ws ++ ws') (es ++ es')) := by rw [hSecond, Tracked.tell_tell]

theorem Tells.map (h : Tells name act a ws es) (f : α → β) :
    Tells name (do return f (← act)) (f a) ws es := by
  have hMapped := h.bind (f := fun a => pure (f a)) (tells_pure name (f a))
  rwa [List.append_nil, List.append_nil] at hMapped

theorem tells_emit (name : String) (e : Event) : Tells name (emit e) () [] [.event e] := by
  intro s _
  rw [Tracked.tell_entries]
  rfl

theorem tells_log (name : String) (l : Logging.Line) : Tells name (log l) () [] [.line l] := by
  intro s _
  rw [Tracked.tell_entries]
  rfl

theorem tells_logStep (name step : String) (details : Details) :
    Tells name (logStep step details) () []
      [.event (.component name step .inProgress details)] := by
  rintro s rfl
  rw [Tracked.tell_entries]
  rfl

theorem tells_addWarning (name message : String) (context : Details) :
    Tells name (addWarning message context) () [⟨message, context, name⟩]
      [.event (.warning "conversion_warning" message context)] := by
  rintro s rfl
  rfl

theorem tells_forM {xs : List β} {act : β → Tracking Unit} {ws : β → List WarningInfo}
    {es : β → Journal} (h : ∀ x ∈ xs, Tells name (act x) () (ws x) (es x)) :
    Tells name (xs.forM act) () (xs.flatMap ws) (xs.flatMap es) := by
  induction xs with
  | nil => exact tells_pure name ()
  | cons x xs ih =>
    obtain ⟨hFirst, hRest⟩ := List.forall_mem_cons.1 h
    exact hFirst.bind (ih hRest)

theorem tells_mapM {xs : List β} {act : β → Tracking α} {g : β → α} {ws : β → List WarningInfo}
    {es : β → Journal} (h : ∀ x ∈ xs, Tells name (act x) (g x) (ws x) (es x)) :
    Tells name (xs.mapM act) (xs.map g) (xs.flatMap ws) (xs.flatMap es) := by
  induction xs with
  | nil => exact tells_pure name []
  | cons x xs ih =>
    obtain ⟨hFirst, hRest⟩ := List.forall_mem_cons.1 h
    rw [List.mapM_cons]
    exact hFirst.bind ((ih hRest).map (g x :: ·))

/-- A loop over a list does the same as its body for each item. -/
theorem forIn_eq_forM {m : Type → Type} [Monad m] [LawfulMonad m] (xs : List α) (act : α → m Unit) :
    (forIn xs PUnit.unit fun x _ => do act x; return .yield PUnit.unit) = xs.forM act := by
  induction xs with
  | nil => rfl
  | cons x xs ih =>
    rw [List.forIn_cons, bind_assoc]
    simp only [pure_bind, ih]
    rfl

end

def AlwaysTells (act : Tracking α) : Prop :=
  ∀ name, ∃ a ws es, Tells name act a ws es

theorem alwaysTells_pure (a : α) : AlwaysTells (pure a) :=
  fun name => ⟨a, _, _, tells_pure name a⟩

theorem AlwaysTells.bind {act : Tracking α} {f : α → Tracking β} (h : AlwaysTells act)
    (hNext : ∀ a, AlwaysTells (f a)) : AlwaysTells (act >>= f) := by
  intro name
  obtain ⟨a, ws, es, hFirst⟩ := h name
  obtain ⟨b, ws', es', hSecond⟩ := hNext a name
  exact ⟨b, _, _, hFirst.bind hSecond⟩

theorem alwaysTells_mapM {act : β → Tracking α} (h : ∀ x, AlwaysTells (act x)) (xs : List β) :
    AlwaysTells (xs.mapM act) := by
  induction xs with
  | nil => exact alwaysTells_pure []
  | cons x xs ih =>
    rw [List.mapM_cons]
    exact (h x).bind fun _ => ih.bind fun _ => alwaysTells_pure _

/-- The computation tells something on every state and changes nothing else. -/
def OnlyTells (act : Tracking α) : Prop :=
  ∀ s, ∃ a ws es, act.run s = (a, s.tell ws es)

theorem AlwaysTells.onlyTells {act : Tracking α} (h : AlwaysTells act) : OnlyTells act := by
  intro s
  obtain ⟨a, ws, es, hTells⟩ := h s.tracker.name
  exact ⟨a, ws, es, hTells s rfl⟩

/-- What looks at the state first need only tell for what it finds there. -/
theorem OnlyTells.of_get {γ : Type} {look : Tracked → γ} {act : γ → Tracking α}
    (h : ∀ c, OnlyTells (act c)) : OnlyTells (do act (look (← get))) :=
  fun s => h (look s) s

end Tracking

open Tracking

/-! ## Formulas -/

def Event.isFormula : Event → Bool
  | .formula _ _ _ _ => true
  | _ => false

def Journal.formulas (j : Journal) : List Event :=
  (Journal.events j).filter Event.isFormula

theorem Journal.formulas_append (j j' : Journal) :
    Journal.formulas (j ++ j') = Journal.formulas j ++ Journal.formulas j' := by
  simp [formulas, events]

theorem Journal.formulas_flatMap (xs : List α) (f : α → Journal) :
    Journal.formulas (xs.flatMap f) = xs.flatMap fun x => Journal.formulas (f x) := by
  simp only [formulas, events, List.filterMap_flatMap, List.filter_flatMap]

theorem Journal.formulas_eq_nil {xs : List α} {f : α → Event} (h : ∀ x, (f x).isFormula = false) :
    Journal.formulas (xs.flatMap fun x => [.event (f x)]) = [] := by
  rw [formulas_flatMap, List.flatMap_eq_nil_iff]
  intro x _
  simp [formulas, events, h]

namespace Formulas

def eventOf (c : Conversion) : Event :=
  .formula c.source c.dax c.success c.issues

theorem attempt_eq_blank_iff {t : Dax.Target} {formula : List Char} :
    Dax.attempt t formula = .blank ↔ Text.allBlank formula = true := by
  unfold Dax.attempt
  split
  · rename_i hBlank
    simpa using hBlank
  · rename_i hInk
    simp only
    split <;> simpa using hInk

/-- A formula is told of in one event unless it is blank. -/
theorem exists_tells_convertFormula (t : Dax.Target) (component formula name role : String) :
    ∃ ws es, Tells component (convertFormula t formula name role)
        (.ofAttempt formula name role (Dax.attempt t formula.toList)) ws es ∧
      Journal.formulas es = if Text.allBlank formula.toList then []
        else [eventOf (.ofAttempt formula name role (Dax.attempt t formula.toList))] := by
  unfold convertFormula
  cases hAttempt : Dax.attempt t formula.toList with
  | blank =>
    rw [if_pos (attempt_eq_blank_iff.1 hAttempt)]
    exact ⟨_, _, tells_pure _ _, rfl⟩
  | tooDeep =>
    have hInk : ¬ Text.allBlank formula.toList = true := by
      rw [← @attempt_eq_blank_iff t, hAttempt]; simp
    rw [if_neg hInk]
    exact ⟨_, _, (tells_logStep component _ _).bind ((tells_emit component _).map fun _ => _), rfl⟩
  | converted kind facts dax remarks =>
    have hInk : ¬ Text.allBlank formula.toList = true := by
      rw [← @attempt_eq_blank_iff t, hAttempt]; simp
    rw [if_neg hInk]
    simp only [forIn_eq_forM]
    refine ⟨_, _, (tells_logStep component _ _).bind ((tells_forM fun _ _ =>
      tells_addWarning component _ _).bind ((tells_emit component _).map fun _ => _)), ?_⟩
    rw [Journal.formulas_append, Journal.formulas_append,
      Journal.formulas_eq_nil (f := fun _ => .warning _ _ _) fun _ => rfl]
    rfl

theorem alwaysTells_convertFormula (t : Dax.Target) (formula name role : String) :
    AlwaysTells (convertFormula t formula name role) := by
  intro component
  obtain ⟨ws, es, hTells, -⟩ := exists_tells_convertFormula t component formula name role
  exact ⟨_, ws, es, hTells⟩

theorem alwaysTells_convertField (t : Dax.Target) (f : Workbook.CalculatedField) :
    AlwaysTells (convertField t f) :=
  alwaysTells_convertFormula t _ _ _

theorem alwaysTells_convertWorkbook (t : Dax.Target) (w : Workbook) :
    AlwaysTells (convertWorkbook t w) := by
  have hStep : AlwaysTells (logStep "batch_formula_conversion"
      (.ofList [("total_calculated_fields", .ofNat w.calculatedFields.length)])) :=
    fun name => ⟨_, _, _, tells_logStep name _ _⟩
  have hFields := alwaysTells_mapM (alwaysTells_convertField t) w.calculatedFields
  exact hStep.bind fun _ => hFields.bind fun _ => alwaysTells_pure _

theorem alwaysTells_convert (t : Dax.Target) (input : FormulaInput) :
    AlwaysTells ((converter t).convert input) := by
  have hConvert : AlwaysTells (convert t input) := by
    cases input with
    | formula text => exact (alwaysTells_convertFormula t text _ _).bind fun _ => alwaysTells_pure _
    | field f =>
      exact (alwaysTells_convertFormula t f.formulaText _ _).bind fun _ => alwaysTells_pure _
    | workbook w => exact (alwaysTells_convertWorkbook t w).bind fun _ => alwaysTells_pure _
  exact hConvert.bind fun _ => alwaysTells_pure _

end Formulas

/-! ## Documents -/

namespace Documents

def converted (catalogue : Catalogue)
    (loaded : Except Workbook.LoadError Workbook × List Logging.Line) :
    Tracking (Except Error Workbook) := do
  loaded.2.forM Tracking.log
  match loaded.1 with
  | .error e => return .error (.load e)
  | .ok w => do
    describe catalogue w
    return .ok w

theorem convert_eq (catalogue : Catalogue) (disk : Logging.Disk) (path : String) :
    convert catalogue disk path = (do
      converted catalogue
        (Workbook.load (disk.after (Journal.log (← get).journal)).files path).outcome) :=
  rfl

theorem alwaysTells_describe (catalogue : Catalogue) (w : Workbook) :
    AlwaysTells (describe catalogue w) := by
  intro component
  have hRelease : ∃ ws es, Tells component (checkRelease catalogue w.version) () ws es := by
    unfold checkRelease
    simp only
    split
    · exact ⟨_, _, tells_addWarning _ _ _⟩
    · exact ⟨_, _, tells_pure _ _⟩
  obtain ⟨ws, es, hRelease⟩ := hRelease
  exact ⟨_, _, _, (tells_emit _ _).bind ((tells_logStep _ _ _).bind ((tells_logStep _ _ _).bind
    (hRelease.bind (tells_logStep _ _ _))))⟩

theorem alwaysTells_converted (catalogue : Catalogue)
    (loaded : Except Workbook.LoadError Workbook × List Logging.Line) :
    AlwaysTells (converted catalogue loaded) := by
  obtain ⟨outcome, lines⟩ := loaded
  have hLines : AlwaysTells (lines.forM log) :=
    fun component => ⟨_, _, _, tells_forM fun l _ => tells_log component l⟩
  cases outcome with
  | error e => exact hLines.bind fun _ => alwaysTells_pure _
  | ok w =>
    refine hLines.bind fun _ => ?_
    exact (alwaysTells_describe catalogue w).bind fun _ => alwaysTells_pure _

theorem onlyTells_convert (catalogue : Catalogue) (disk : Logging.Disk) (path : String) :
    OnlyTells (convert catalogue disk path) := by
  rw [convert_eq]
  exact .of_get fun loaded => (alwaysTells_converted catalogue loaded).onlyTells

end Documents

end DaxMigration.Migration
