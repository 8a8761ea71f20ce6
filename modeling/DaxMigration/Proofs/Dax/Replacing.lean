import DaxMigration.Proofs.Dax.Splicing
import DaxMigration.Proofs.Formula.Nesting
import Mathlib.Data.List.Chain

/-!
# Replacing in place

A row with some of its runs swapped for others, told without positions. The spans of the outermost
constructs come in order, so splicing swaps the run of each for what it is converted to; what holds
of every swap is then carried to whole rows by one induction.
-/

namespace DaxMigration.Dax

open Formula

inductive Replaced (Swap : List Lexeme → List Lexeme → Prop) : List Lexeme → List Lexeme → Prop
  | nil : Replaced Swap [] []
  | keep (l : Lexeme) {old new : List Lexeme} (h : Replaced Swap old new) :
      Replaced Swap (l :: old) (l :: new)
  | swap {run made old new : List Lexeme} (hSwap : Swap run made) (h : Replaced Swap old new) :
      Replaced Swap (run ++ old) (made ++ new)

namespace Replaced

variable {Swap : List Lexeme → List Lexeme → Prop} {old new : List Lexeme}

theorem append_left (kept : List Lexeme) (h : Replaced Swap old new) :
    Replaced Swap (kept ++ old) (kept ++ new) := by
  induction kept with
  | nil => exact h
  | cons l kept ih => exact .keep l ih

theorem refl (ls : List Lexeme) : Replaced Swap ls ls := by
  simpa using append_left ls (Replaced.nil : Replaced Swap [] [])

theorem mono {Swap' : List Lexeme → List Lexeme → Prop} (h : Replaced Swap old new)
    (hSwap : ∀ {run made}, Swap run made → Swap' run made) : Replaced Swap' old new := by
  induction h with
  | nil => exact .nil
  | keep l _ ih => exact .keep l ih
  | swap hThis _ ih => exact .swap (hSwap hThis) ih

/-- Every run that is swapped is a part of the row. -/
theorem within (h : Replaced Swap old new) :
    Replaced (fun run made => Swap run made ∧ run <:+: old) old new := by
  induction h with
  | nil => exact .nil
  | keep l _ ih =>
    exact .keep l (ih.mono fun hSwap => ⟨hSwap.1, hSwap.2.trans (List.suffix_cons l _).isInfix⟩)
  | @swap run made old new hThis _ ih =>
    refine .swap ⟨hThis, (List.prefix_append run old).isInfix⟩ (ih.mono fun hSwap => ?_)
    exact ⟨hSwap.1, hSwap.2.trans (List.suffix_append run old).isInfix⟩

/-- A chain stays one if it does so for every swap, whatever stands around. -/
theorem isChain {R : Lexeme → Lexeme → Prop} (h : Replaced Swap old new)
    (hSwap : ∀ {run made}, Swap run made → ∀ before after, (before ++ run ++ after).IsChain R →
      (before ++ made ++ after).IsChain R) :
    ∀ before after, (before ++ old ++ after).IsChain R → (before ++ new ++ after).IsChain R := by
  induction h with
  | nil => exact fun _ _ hChain => hChain
  | keep l _ ih =>
    intro before after hChain
    have hThis := ih (before ++ [l]) after (by simpa using hChain)
    simpa using hThis
  | @swap run made old new hThis _ ih =>
    intro before after hChain
    have hMade := hSwap hThis before (old ++ after) (by simpa using hChain)
    have hRest := ih (before ++ made) after (by simpa using hMade)
    simpa using hRest

/-- What holds of all lexemes, and of those that a run of such is swapped for, stays. -/
theorem all {P : Lexeme → Prop} (h : Replaced Swap old new)
    (hSwap : ∀ {run made}, Swap run made → (∀ l ∈ run, P l) → ∀ l ∈ made, P l)
    (hOld : ∀ l ∈ old, P l) : ∀ l ∈ new, P l := by
  induction h with
  | nil => exact hOld
  | keep l _ ih =>
    obtain ⟨hFirst, hRest⟩ := List.forall_mem_cons.1 hOld
    exact List.forall_mem_cons.2 ⟨hFirst, ih hRest⟩
  | swap hThis _ ih =>
    obtain ⟨hRun, hRest⟩ := List.forall_mem_append.1 hOld
    exact List.forall_mem_append.2 ⟨hSwap hThis hRun, ih hRest⟩

/-- A row is swapped for an empty one only if it is empty. -/
theorem eq_nil (h : Replaced Swap old new) (hSwap : ∀ {run made}, Swap run made → made ≠ [])
    (hNew : new = []) : old = [] := by
  cases h with
  | nil => rfl
  | keep => cases hNew
  | swap hThis => exact absurd (List.append_eq_nil_iff.1 hNew).1 (hSwap hThis)

/-- Where every swap makes a single lexeme, a place in the new row is a place in the old one. -/
theorem split (h : Replaced Swap old new) (hSwap : ∀ {run made}, Swap run made → ∃ l, made = [l])
    {first second : List Lexeme} (hNew : new = first ++ second) :
    ∃ before after, old = before ++ after ∧ Replaced Swap before first ∧
      Replaced Swap after second := by
  induction h generalizing first with
  | nil =>
    obtain ⟨rfl, rfl⟩ := List.append_eq_nil_iff.1 hNew.symm
    exact ⟨[], [], rfl, .nil, .nil⟩
  | @keep l old new hRest ih =>
    cases first with
    | nil =>
      rw [List.nil_append] at hNew
      exact ⟨[], l :: old, rfl, .nil, hNew ▸ .keep l hRest⟩
    | cons m first =>
      obtain ⟨rfl, hOthers⟩ := List.cons.inj hNew
      obtain ⟨before, after, rfl, hBefore, hAfter⟩ := ih hOthers
      exact ⟨l :: before, after, rfl, .keep l hBefore, hAfter⟩
  | @swap run made old new hThis hRest ih =>
    cases first with
    | nil =>
      rw [List.nil_append] at hNew
      exact ⟨[], run ++ old, rfl, .nil, hNew ▸ .swap hThis hRest⟩
    | cons m first =>
      obtain ⟨l, rfl⟩ := hSwap hThis
      obtain ⟨rfl, hOthers⟩ := List.cons.inj hNew
      obtain ⟨before, after, rfl, hBefore, hAfter⟩ := ih hOthers
      exact ⟨run ++ before, after, by simp, .swap hThis hBefore, hAfter⟩

theorem of_part (h : Replaced Swap old new) (hSwap : ∀ {run made}, Swap run made → ∃ l, made = [l])
    {part : List Lexeme} (hPart : part <:+: new) :
    ∃ source, source <:+: old ∧ Replaced Swap source part := by
  obtain ⟨first, last, rfl⟩ := hPart
  obtain ⟨before, after, rfl, hBefore, -⟩ := h.split hSwap rfl
  obtain ⟨front, source, rfl, -, hSource⟩ := hBefore.split hSwap rfl
  exact ⟨source, ⟨front, after, rfl⟩, hSource⟩

end Replaced

theorem replaced_replaceFrom {Swap : List Lexeme → List Lexeme → Prop} {ls : List Lexeme}
    {cursor : Nat} {rs : List Replacement} (hOrdered : Ordered ls.length cursor (rs.map (·.span)))
    (hSwaps : ∀ r ∈ rs, Swap (r.span.slice ls) r.lexemes) :
    Replaced Swap (ls.drop cursor) (replaceFrom ls cursor rs) := by
  induction rs generalizing cursor with
  | nil => exact .refl _
  | cons r rs ih =>
    obtain ⟨hCursor, hStop, _, hRest⟩ := hOrdered
    obtain ⟨hSwap, hSwaps⟩ := List.forall_mem_cons.1 hSwaps
    rw [← slice_append_drop hCursor, ← slice_append_drop hStop.le, replaceFrom, List.append_assoc]
    exact (Replaced.swap hSwap (ih hRest hSwaps)).append_left _

theorem forall₂_imp_mem {β γ : Type} {R S : β → γ → Prop} {bs : List β} {cs : List γ}
    (h : List.Forall₂ R bs cs) (hImp : ∀ b ∈ bs, ∀ c, R b c → S b c) : List.Forall₂ S bs cs := by
  induction h with
  | nil => exact .nil
  | cons hFirst _ ih =>
    obtain ⟨hThis, hRest⟩ := List.forall_mem_cons.1 hImp
    exact .cons (hThis _ hFirst) (ih hRest)

/-- Splicing replaces the run of every construct. -/
theorem Gives.replaced {β : Type} {Swap : List Lexeme → List Lexeme → Prop} {ls ls' : List Lexeme}
    {bs : List β} {convert : β → Splicing Replacement} (span : β → Span)
    (h : Gives (do return replaceSpans ls (← bs.mapM convert)) ls')
    (hOrdered : Ordered ls.length 0 (bs.map span))
    (hSwaps : ∀ b ∈ bs, ∀ r, Gives (convert b) r →
      r.span = span b ∧ Swap ((span b).slice ls) r.lexemes) :
    Replaced Swap ls ls' := by
  obtain ⟨rs, hRs, hResult⟩ := h.of_bind
  rw [gives_pure_iff.1 hResult]
  have hMade := forall₂_imp_mem hRs.of_mapM hSwaps
  suffices hAll : rs.map (·.span) = bs.map span ∧ ∀ r ∈ rs, Swap (r.span.slice ls) r.lexemes from
    @replaced_replaceFrom Swap ls 0 rs (hAll.1 ▸ hOrdered) hAll.2
  clear h hRs hResult hOrdered hSwaps
  induction hMade with
  | nil => simp
  | cons hFirst _ ih =>
    obtain ⟨hSpan, hSwap⟩ := hFirst
    obtain ⟨hSpans, hRest⟩ := ih
    exact ⟨by simp [hSpan, hSpans], List.forall_mem_cons.2 ⟨hSpan ▸ hSwap, hRest⟩⟩

end DaxMigration.Dax
