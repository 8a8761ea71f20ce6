import DaxMigration.Migration.Stage
import DaxMigration.Proofs.Migration.Telling

/-!
# Handling one item

A component that only tells while it converts leaves three things that can become of an item, and
each shows in its accounts in one way.
-/

namespace DaxMigration.Migration

open Tracking

variable {α β : Type}

inductive Tracker.Handled (t : Tracker) : Option β → Tracker → Prop
  | converted (output : β) (ws : List WarningInfo) :
    Handled t (some output)
      { t with
        stats := { t.stats with
          processed := t.stats.processed + 1, converted := t.stats.converted + 1 }
        warnings := t.warnings ++ ws }
  | failed (info : ErrorInfo) (ws : List WarningInfo) :
    Handled t none
      { t with
        stats := { t.stats with
          processed := t.stats.processed + 1, failed := t.stats.failed + 1 }
        errors := t.errors ++ [info]
        warnings := t.warnings ++ ws }
  | skipped :
    Handled t none
      { t with
        stats := { t.stats with
          processed := t.stats.processed + 1, skipped := t.stats.skipped + 1 } }

theorem Tracker.Handled.name_eq {t t' : Tracker} {outcome : Option β} (h : t.Handled outcome t') :
    t'.name = t.name := by
  cases h <;> rfl

theorem handled_handle {c : Converter α β} {input : α} (h : OnlyTells (c.convert input))
    (name : String) (s : Tracked) :
    s.tracker.Handled ((c.handle input name).run s).1 ((c.handle input name).run s).2.tracker := by
  unfold Converter.handle
  simp only
  split
  · obtain ⟨outcome, ws, es, hRun⟩ := h s
    rw [StateT.run_bind, hRun]
    cases outcome with
    | ok output => exact .converted output ws
    | error e => exact .failed _ ws
  · exact .skipped

/-- Data that a stage does not take is an item that is skipped. -/
theorem handled_decline (name : String) (data : StageData) (s : Tracked) :
    s.tracker.Handled ((Stage.decline name data).run s).1
      ((Stage.decline name data).run s).2.tracker :=
  .skipped

end DaxMigration.Migration
