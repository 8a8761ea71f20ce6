import DaxMigration.Proofs.Dax.Splicing
import DaxMigration.Proofs.Formula.Parts

/-!
# Splicing from left to right

What is tried at a position depends on what follows only, and what was found is passed over as a
whole. The result of splicing is therefore put together from the results for the parts of a row.
-/

namespace DaxMigration.Dax

open Formula

theorem outermostFrom_skip {β : Type} (found? : Nat → Option β) (stop : β → Nat)
    (skipped count position : Nat) :
    outermostFrom found? stop (skipped + count) position (position + skipped) =
      outermostFrom found? stop count (position + skipped) (position + skipped) := by
  induction skipped generalizing position with
  | zero => rw [Nat.zero_add, Nat.add_zero]
  | succ skipped ih =>
    have hNext : position + (skipped + 1) = position + 1 + skipped := by omega
    rw [Nat.add_right_comm, outermostFrom, if_pos (by omega), hNext, ih (position + 1)]

theorem length_of_drop {ls run rest : List Lexeme} {i : Nat} (hAt : ls.drop i = run ++ rest)
    (hFilled : run ≠ []) : ls.length = i + run.length + rest.length := by
  have hLength := congrArg List.length hAt
  have hPositive := List.length_pos_of_ne_nil hFilled
  simp only [List.length_drop, List.length_append] at hLength
  omega

/-- One sort of constructs: how one is found in a row, and what replaces it. -/
structure Splicer (β : Type) where
  found? : List Lexeme → Nat → Option β
  span : β → Span
  convert : List Lexeme → β → Splicing Replacement

namespace Splicer

variable {β : Type} (c : Splicer β)

def constructs (ls : List Lexeme) : List β :=
  outermost (c.found? ls) (fun b => (c.span b).stop) ls.length

def splice (ls : List Lexeme) : Splicing (List Lexeme) := do
  return replaceSpans ls (← (c.constructs ls).mapM (c.convert ls))

structure Swaps (ls : List Lexeme) (i : Nat) (run made : List Lexeme) (b : β) : Prop where
  found : c.found? ls i = some b
  span : c.span b = ⟨i, i + run.length⟩
  returns : Returns (c.convert ls b) ⟨⟨i, i + run.length⟩, made⟩

/-- From the position on, where no construct reaches across it, the splicing makes the second row. -/
inductive Advances (ls : List Lexeme) : Nat → List Lexeme → Prop
  | stop : Advances ls ls.length []
  | keep {i : Nat} {l : Lexeme} {rest new : List Lexeme} (hAt : ls.drop i = l :: rest)
      (hNone : c.found? ls i = none) (h : Advances ls (i + 1) new) : Advances ls i (l :: new)
  | swap {i : Nat} {run rest made new : List Lexeme} {b : β} (hAt : ls.drop i = run ++ rest)
      (hFilled : run ≠ []) (hSwap : c.Swaps ls i run made b) (h : Advances ls (i + run.length) new) :
      Advances ls i (made ++ new)

variable {c}

/-- The replacements from a position on, and the row with them made. -/
theorem Advances.replaced {ls : List Lexeme} {i : Nat} {new : List Lexeme} (h : c.Advances ls i new)
    {cursor free : Nat} (hCursor : cursor ≤ i) (hFree : free ≤ i) :
    ∃ rs, Returns ((outermostFrom (c.found? ls) (fun b => (c.span b).stop) (ls.length - i) i free).mapM
        (c.convert ls)) rs ∧ replaceFrom ls cursor rs = (Span.mk cursor i).slice ls ++ new := by
  induction h generalizing cursor free with
  | stop =>
    refine ⟨[], ?_, ?_⟩
    · rw [Nat.sub_self, outermostFrom, List.mapM_nil]
      exact returns_pure []
    · rw [replaceFrom, List.append_nil, Span.slice, List.take_length]
  | @keep i l rest new hAt hNone _ ih =>
    have hLength : ls.length = i + 1 + rest.length := @length_of_drop ls [l] rest i hAt (by simp)
    have hHere : ls.length - i = (ls.length - (i + 1)) + 1 := by omega
    obtain ⟨rs, hReturns, hReplaced⟩ := @ih cursor free (by omega) (by omega)
    refine ⟨rs, ?_, ?_⟩
    · rw [hHere, outermostFrom, if_neg (by omega), hNone]
      exact hReturns
    · have hSplit : (Span.mk cursor (i + 1)).slice ls = (Span.mk cursor i).slice ls ++ [l] := by
        have hTake : ls.take (i + 1) = ls.take i ++ [l] := by
          rw [List.take_add, hAt]
          rfl
        have hBefore : cursor ≤ (ls.take i).length := by
          rw [List.length_take]
          omega
        rw [Span.slice, Span.slice, hTake, List.drop_append_of_le_length hBefore]
      rw [hReplaced, hSplit, List.append_assoc]
      rfl
  | @swap i run rest made new b hAt hFilled hSwap _ ih =>
    have hLength := length_of_drop hAt hFilled
    obtain ⟨rs, hReturns, hReplaced⟩ := ih le_rfl le_rfl
    obtain ⟨skipped, hSkipped⟩ := Nat.exists_eq_succ_of_ne_zero (List.length_pos_of_ne_nil hFilled).ne'
    refine ⟨⟨⟨i, i + run.length⟩, made⟩ :: rs, ?_, ?_⟩
    · have hShift : i + run.length = i + 1 + skipped := by omega
      have hHere : ls.length - i = skipped + (ls.length - (i + run.length)) + 1 := by omega
      rw [hHere, outermostFrom, if_neg (by omega), hSwap.found]
      rw [List.mapM_cons, hSwap.span, hShift, outermostFrom_skip, ← hShift]
      exact hSwap.returns.bind (hReturns.bind (returns_pure _))
    · rw [replaceFrom, hReplaced, slice_self, List.nil_append, List.append_assoc]

theorem Advances.returns {ls new : List Lexeme} (h : c.Advances ls 0 new) : Returns (c.splice ls) new := by
  obtain ⟨rs, hReturns, hReplaced⟩ := h.replaced le_rfl le_rfl
  rw [slice_self, List.nil_append] at hReplaced
  rw [← hReplaced]
  exact hReturns.bind (returns_pure _)

theorem returns_splice_of_none {ls : List Lexeme} (h : c.constructs ls = []) : Returns (c.splice ls) ls := by
  rw [splice, h]
  exact (returns_pure []).bind (returns_pure ls)

/-! ## Parts of a row -/

variable (c)

/-- Wherever the run stands, the splicing makes a run with the property of it. -/
def Carries (run : List Lexeme) (P : List Lexeme → Prop) : Prop :=
  ∀ ⦃ls rest new : List Lexeme⦄ ⦃i : Nat⦄, ls.drop i = run ++ rest →
    c.Advances ls (i + run.length) new → ∃ made, P made ∧ c.Advances ls i (made ++ new)

/-- No construct begins with the lexeme. -/
def Passes (l : Lexeme) : Prop :=
  ∀ ⦃ls rest : List Lexeme⦄ ⦃i : Nat⦄, ls.drop i = l :: rest → c.found? ls i = none

variable {c} {a b : List Lexeme} {P Q R : List Lexeme → Prop}

theorem carries_nil (h : P []) : c.Carries [] P :=
  fun _ _ _ _ _ hRest => ⟨[], h, hRest⟩

theorem Carries.imp (ha : c.Carries a P) (h : ∀ a', P a' → Q a') : c.Carries a Q := by
  intro ls rest new i hAt hRest
  obtain ⟨a', hP, hRow⟩ := ha hAt hRest
  exact ⟨a', h a' hP, hRow⟩

theorem Carries.append (ha : c.Carries a P) (hb : c.Carries b Q)
    (h : ∀ a' b', P a' → Q b' → R (a' ++ b')) : c.Carries (a ++ b) R := by
  intro ls rest new i hAt hRest
  rw [List.append_assoc] at hAt
  rw [List.length_append, ← Nat.add_assoc] at hRest
  obtain ⟨b', hQ, hRest⟩ := hb (drop_of_drop hAt) hRest
  obtain ⟨a', hP, hRest⟩ := ha hAt hRest
  rw [← List.append_assoc] at hRest
  exact ⟨a' ++ b', h a' b' hP hQ, hRest⟩

theorem Passes.carries {l : Lexeme} (hPass : c.Passes l) : c.Carries [l] (· = [l]) :=
  fun _ _ _ _ hAt hRest => ⟨[l], rfl, .keep hAt (hPass hAt) hRest⟩

theorem Carries.cons {l : Lexeme} (hPass : c.Passes l) (hb : c.Carries b Q)
    (h : ∀ b', Q b' → R (l :: b')) : c.Carries (l :: b) R :=
  hPass.carries.append hb fun _ b' hSame hQ => hSame ▸ h b' hQ

theorem Carries.join {l : Lexeme} (ha : c.Carries a P) (hPass : c.Passes l) (hb : c.Carries b Q)
    (h : ∀ a' b', P a' → Q b' → R (a' ++ l :: b')) : c.Carries (a ++ l :: b) R := by
  have hRight : c.Carries (l :: b) fun x => ∃ b', x = l :: b' ∧ Q b' :=
    hb.cons hPass fun b' hQ => ⟨b', rfl, hQ⟩
  refine ha.append hRight fun a' x hP hx => ?_
  obtain ⟨b', rfl, hQ⟩ := hx
  exact h a' b' hP hQ

theorem Carries.bracketed {opening closing : Lexeme} (hOpening : c.Passes opening)
    (hb : c.Carries b Q) (hClosing : c.Passes closing)
    (h : ∀ b', Q b' → R (opening :: (b' ++ [closing]))) : c.Carries (opening :: (b ++ [closing])) R := by
  have hInner : c.Carries (b ++ [closing]) fun x => ∃ b', x = b' ++ [closing] ∧ Q b' :=
    hb.append hClosing.carries fun b' _ hQ hSame => ⟨b', by rw [hSame], hQ⟩
  refine hInner.cons hOpening fun x hx => ?_
  obtain ⟨b', rfl, hQ⟩ := hx
  exact h b' hQ

theorem Carries.call {r : CallRun} (hFirst : c.Passes r.first) (hOpening : c.Passes r.opening)
    (hb : c.Carries r.inner Q) (hClosing : c.Passes r.closing)
    (h : ∀ b', Q b' → R { r with inner := b' }.lexemes) : c.Carries r.lexemes R := by
  have hBracketed : c.Carries (r.opening :: (r.inner ++ [r.closing]))
      fun x => ∃ b', x = r.opening :: (b' ++ [r.closing]) ∧ Q b' :=
    hb.bracketed hOpening hClosing fun b' hQ => ⟨b', rfl, hQ⟩
  refine hBracketed.cons hFirst fun x hx => ?_
  obtain ⟨b', rfl, hQ⟩ := hx
  exact h b' hQ

theorem carries_of_swaps (hFilled : a ≠ []) (h : ∀ ⦃ls rest : List Lexeme⦄ ⦃i : Nat⦄,
    ls.drop i = a ++ rest → ∃ made b, P made ∧ c.Swaps ls i a made b) : c.Carries a P := by
  intro ls rest new i hAt hRest
  obtain ⟨made, b, hP, hSwap⟩ := h hAt
  exact ⟨made, hP, .swap hAt hFilled hSwap hRest⟩

/-- What is made of the whole row. -/
theorem Carries.returns (h : c.Carries a P) : ∃ made, P made ∧ Returns (c.splice a) made := by
  have hEnd : c.Advances a (0 + a.length) [] := by
    rw [Nat.zero_add]
    exact .stop
  obtain ⟨made, hP, hRow⟩ := h (show a.drop 0 = a ++ [] by simp) hEnd
  rw [List.append_nil] at hRow
  exact ⟨made, hP, hRow.returns⟩

end Splicer

end DaxMigration.Dax
