import DaxMigration.Proofs.Migration.Ledger

/-!
# How a batch is closed

The event that closes a batch tells how all items since the last reset came out, those of the batch
last among them. This is how the batch itself came out unless something failed earlier and nothing in
the batch, or something was converted earlier and the batch has failures only.
-/

namespace DaxMigration.Migration

variable {α β : Type}

namespace Fate

def anyFailed (fates : List (Fate β)) : Bool :=
  fates.any (·.error?.isSome)

def anyConverted (fates : List (Fate β)) : Bool :=
  fates.any (·.output?.isSome)

def status (fates : List (Fate β)) : Status :=
  if anyFailed fates = false then .completed
  else if anyConverted fates then .warning
  else .failed

/-- When items in front leave the status as it is. -/
theorem status_append_iff (earlier fates : List (Fate β)) :
    status (earlier ++ fates) = status fates ↔
      (anyFailed earlier = true → anyFailed fates = true) ∧
        (anyFailed fates = true → anyConverted earlier = true → anyConverted fates = true) := by
  have hFailed : anyFailed (earlier ++ fates) = (anyFailed earlier || anyFailed fates) :=
    List.any_append
  have hConverted : anyConverted (earlier ++ fates) =
      (anyConverted earlier || anyConverted fates) := List.any_append
  unfold status
  rw [hFailed, hConverted]
  grind

end Fate

theorem closingStatus_of_ledger {t : Tracker} {fates : List (Fate β)}
    (h : t.ledger = Ledger.enterAll {} fates) : t.closingStatus = Fate.status fates := by
  have hStats : t.stats = (Ledger.enterAll {} fates).stats := congrArg Ledger.stats h
  have hFailed : fates.countP (·.error?.isSome) = 0 ↔ Fate.anyFailed fates = false := by
    simp [Fate.anyFailed, List.countP_eq_zero]
  have hConverted : 0 < fates.countP (·.output?.isSome) ↔ Fate.anyConverted fates = true := by
    simp [Fate.anyConverted, List.countP_pos_iff]
  rw [Ledger.stats_enterAll] at hStats
  simp only [Tracker.closingStatus, Fate.status, hStats, hFailed, hConverted]

namespace Worker

variable {w : Worker α β}

def batchFates (w : Worker α β) (inputs : List α) (names : List String) (before : Tracked) :
    List (Fate β) :=
  (Errand.batch inputs names).fates w before

def closing? (w : Worker α β) (inputs : List α) (names : List String) (before : Tracked) :
    Option Event :=
  (Journal.events (((Errand.batch inputs names).perform w).run before).2.journal).getLast?

variable (hTells : w.OnlyTells)
include hTells

theorem closing?_eq {deeds : List (Deed α β)} {before : Tracked}
    (h : Kept w deeds before.tracker) (inputs : List α) (names : List String) :
    ∃ details, w.closing? inputs names before =
      some (.component (before.tracker.name ++ "_batch") "conversion_process"
        (Fate.status (recent w deeds ++ w.batchFates inputs names before)) details) := by
  have hLedger := (Errand.perform_batch hTells inputs names before).2
  rw [h.ledger, ← Ledger.enterAll_append] at hLedger
  have hStatus := closingStatus_of_ledger hLedger
  unfold batchFates Errand.fates
  rw [← hStatus]
  let s := ((w.converter.batchItems names 0 inputs).run (Errand.opened before)).2
  have hJournal : (((Errand.batch inputs names).perform w).run before).2.journal =
    s.journal ++ [.event (.performance (before.tracker.name ++ "_batch") (.zero false)
        (.ofList s.tracker.stats.members))] ++
      [.event (.component (before.tracker.name ++ "_batch") "conversion_process"
        s.tracker.closingStatus (.ofList s.tracker.stats.members))] := rfl
  refine ⟨.ofList s.tracker.stats.members, ?_⟩
  rw [closing?, hJournal, Journal.events, List.filterMap_append]
  exact List.getLast?_concat

/-- Whatever was asked of a component before, the event that closes a batch tells how all items since
the last reset came out together. That is how the items of the batch came out, unless the batch has
no failure and there was one before, or it has failures and no output and there was one before. -/
theorem closing_iff (name : String) (journal : Journal) (errands : List (Errand α))
    (inputs : List α) (names : List String) :
    let before := (w.history name journal errands).2
    let earlier := recent w (w.history name journal errands).1
    let fates := w.batchFates inputs names before
    ∃ status details, w.closing? inputs names before =
        some (.component (before.tracker.name ++ "_batch") "conversion_process" status details) ∧
      status = Fate.status (earlier ++ fates) ∧
      (status = Fate.status fates ↔
        (Fate.anyFailed earlier = true → Fate.anyFailed fates = true) ∧
          (Fate.anyFailed fates = true → Fate.anyConverted earlier = true →
            Fate.anyConverted fates = true)) := by
  intro before earlier fates
  obtain ⟨details, hClosing⟩ := closing?_eq hTells (kept_history hTells name journal errands)
    inputs names
  exact ⟨_, details, hClosing, rfl, Fate.status_append_iff earlier fates⟩

omit hTells in
/-- A batch without a failure, behind one that failed, is closed with a warning. -/
theorem closing_behind_failure :
    let before := (picky.history "Picky" [] [.batch ["bad"] []]).2
    Fate.status (picky.batchFates ["a"] [] before) = .completed ∧
      ∃ details, picky.closing? ["a"] [] before =
        some (.component "Picky_batch" "conversion_process" .warning details) :=
  ⟨by decide +kernel, _, rfl⟩

end Worker

end DaxMigration.Migration
