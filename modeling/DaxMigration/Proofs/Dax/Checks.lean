import DaxMigration.Dax.Splice
import DaxMigration.Proofs.Dax.Splicing
import DaxMigration.Proofs.Formula.Conditionals

/-!
# Checked conversions

A conversion that checks before each access that it stays in bounds, and before each call of itself
that there is less left to do, and stops where it does not. A conversion that checks nothing is one
that stops only where constructs nest too deep; a checked one that is the same never stops for
another reason.
-/

namespace DaxMigration.Dax

open Formula

inductive Stop where
  /-- One level of constructs too many: the one stop that is meant. -/
  | tooDeep
  /-- A slice or an element is sought where the list has none. -/
  | outOfBounds
  /-- A loop or a recursive call would have as much to do as before. -/
  | noProgress
deriving DecidableEq

section Checks

variable {m : Type → Type} [Monad m] [MonadExceptOf Stop m] {α : Type}

def checkedSlice (as : List α) (s : Span) : m (List α) :=
  if s.Within as.length then pure (s.slice as) else throw .outOfBounds

def checkSlices (as : List α) : List Span → m Unit
  | [] => pure ()
  | s :: rest => do
    let _ ← checkedSlice as s
    checkSlices as rest

def checkedElement (as : List α) (i : Nat) : m α :=
  match as[i]? with
  | some a => pure a
  | none => throw .outOfBounds

/-- What a bound counts must be positive where one is taken off. -/
def checkedPred (n : Nat) : m Nat :=
  if 0 < n then pure (n - 1) else throw .outOfBounds

def checkLess (new old : Nat) : m Unit :=
  if new < old then pure () else throw .noProgress

def shorterSlice (as : List α) (s : Span) : m (List α) := do
  let part ← checkedSlice as s
  checkLess part.length as.length
  return part

theorem checkedSlice_eq {as : List α} {s : Span} (h : s.Within as.length) :
    checkedSlice (m := m) as s = pure (s.slice as) :=
  if_pos h

theorem checkSlices_eq [LawfulMonad m] {as : List α} {spans : List Span}
    (h : ∀ s ∈ spans, s.Within as.length) : checkSlices (m := m) as spans = pure () := by
  induction spans with
  | nil => rfl
  | cons s spans ih =>
    obtain ⟨hFirst, hRest⟩ := List.forall_mem_cons.1 h
    rw [checkSlices, checkedSlice_eq hFirst, pure_bind, ih hRest]

theorem checkedElement_eq {as : List α} {i : Nat} (h : i < as.length) :
    checkedElement (m := m) as i = pure as[i] := by
  rw [checkedElement, List.getElem?_eq_getElem h]

theorem checkedPred_eq {n : Nat} (h : 0 < n) : checkedPred (m := m) n = pure (n - 1) :=
  if_pos h

theorem checkLess_eq {new old : Nat} (h : new < old) : checkLess (m := m) new old = pure () :=
  if_pos h

theorem shorterSlice_eq [LawfulMonad m] {as : List α} {s : Span} (hWithin : s.Within as.length)
    (hShorter : (s.slice as).length < as.length) : shorterSlice (m := m) as s = pure (s.slice as) := by
  rw [shorterSlice, checkedSlice_eq hWithin, pure_bind, checkLess_eq hShorter, pure_bind]

end Checks

abbrev Checked := StateT (List Remark) (Except Stop)

/-- A conversion that has no result only where constructs nest too deep. -/
def unstopped {α : Type} (c : Splicing α) : Checked α := fun remarks =>
  match c.run remarks with
  | some result => .ok result
  | none => .error .tooDeep

section Unstopped

variable {α β γ : Type}

@[simp]
theorem unstopped_pure (a : α) : unstopped (pure a) = pure a := rfl

theorem run_unstopped (c : Splicing α) (remarks : List Remark) :
    (unstopped c).run remarks =
      match c.run remarks with
      | some result => .ok result
      | none => .error .tooDeep := rfl

theorem unstopped_injective {c d : Splicing α} (h : unstopped c = unstopped d) :
    c = d := by
  refine StateT.ext fun remarks => ?_
  have hRun := congrArg (StateT.run · remarks) h
  simp only [run_unstopped] at hRun
  cases hFirst : c.run remarks <;> cases hSecond : d.run remarks <;> simp_all

theorem unstopped_bind_of {c : Splicing α} {f : α → Splicing β} {g : α → Checked β}
    (h : ∀ a, Gives c a → g a = unstopped (f a)) : unstopped c >>= g = unstopped (c >>= f) := by
  funext remarks
  cases hRun : c.run remarks with
  | none =>
    have hFirst : unstopped c remarks = .error .tooDeep := by simp [unstopped, hRun]
    have hWhole : unstopped (c >>= f) remarks = .error .tooDeep := by
      simp [unstopped, StateT.run_bind, hRun]
    rw [hWhole]
    exact congrArg (· >>= fun r => g r.1 r.2) hFirst
  | some result =>
    obtain ⟨a, more⟩ := result
    have hFirst : unstopped c remarks = .ok (a, more) := by simp [unstopped, hRun]
    have hWhole : unstopped (c >>= f) remarks = unstopped (f a) more := by
      simp [unstopped, StateT.run_bind, hRun]
    rw [hWhole, ← h a ⟨remarks, more, hRun⟩]
    exact congrArg (· >>= fun r => g r.1 r.2) hFirst

theorem unstopped_bind (c : Splicing α) (f : α → Splicing β) :
    unstopped (c >>= f) = unstopped c >>= fun a => unstopped (f a) :=
  (unstopped_bind_of fun _ _ => rfl).symm

theorem unstopped_mapM_of {bs : List β} {f : β → Splicing γ} {g : β → Checked γ}
    (h : ∀ b ∈ bs, g b = unstopped (f b)) : bs.mapM g = unstopped (bs.mapM f) := by
  induction bs with
  | nil => rfl
  | cons b bs ih =>
    obtain ⟨hFirst, hRest⟩ := List.forall_mem_cons.1 h
    simp only [List.mapM_cons, hFirst, ih hRest, unstopped_bind, unstopped_pure]

end Unstopped

/-! ## Texts of constructs -/

section Texts

variable {branch : Span → Splicing (List Char)} {checked : Span → Checked (List Char)}

theorem nestBranches_unstopped {bs : List Branch}
    (h : ∀ b ∈ bs, checked b.condition = unstopped (branch b.condition) ∧
      checked b.value = unstopped (branch b.value)) (acc : Option (List Char)) :
    nestBranches checked acc bs = unstopped (nestBranches branch acc bs) := by
  induction bs generalizing acc with
  | nil => rfl
  | cons b bs ih =>
    obtain ⟨⟨hCondition, hValue⟩, hRest⟩ := List.forall_mem_cons.1 h
    simp only [nestBranches, hCondition, hValue, ih hRest, unstopped_bind]

theorem armArguments_unstopped {bs : List Branch}
    (h : ∀ b ∈ bs, checked b.condition = unstopped (branch b.condition) ∧
      checked b.value = unstopped (branch b.value)) :
    armArguments checked bs = unstopped (armArguments branch bs) := by
  induction bs with
  | nil => rfl
  | cons b bs ih =>
    obtain ⟨⟨hCondition, hValue⟩, hRest⟩ := List.forall_mem_cons.1 h
    simp only [armArguments, hCondition, hValue, ih hRest, unstopped_bind, unstopped_pure]

theorem optionalBranch_unstopped {s : Option Span}
    (h : ∀ s' ∈ s, checked s' = unstopped (branch s')) :
    optionalBranch checked s = unstopped (optionalBranch branch s) := by
  cases s with
  | none => rfl
  | some s =>
    simp only [optionalBranch, h s rfl, map_eq_pure_bind, unstopped_bind, unstopped_pure]

theorem parts_of_spans {c : Clauses} (h : ∀ s ∈ c.spans, checked s = unstopped (branch s)) :
    (∀ b ∈ c.branches, checked b.condition = unstopped (branch b.condition) ∧
      checked b.value = unstopped (branch b.value)) ∧
    ∀ s ∈ c.otherwise, checked s = unstopped (branch s) := by
  refine ⟨fun b hb => ⟨h _ ?_, h _ ?_⟩, fun s hs => h _ ?_⟩
  · exact List.mem_append_left _ (List.mem_flatMap.2 ⟨b, hb, by simp⟩)
  · exact List.mem_append_left _ (List.mem_flatMap.2 ⟨b, hb, by simp⟩)
  · exact List.mem_append_right _ (Option.mem_toList.2 hs)

/-- The text of a conditional is made of those of its parts, whatever may stop in them. -/
theorem convertConditional_unstopped {c : Conditional}
    (h : ∀ s ∈ c.parts, checked s = unstopped (branch s)) :
    convertConditional checked c = unstopped (convertConditional branch c) := by
  cases c with
  | ifBlock span clauses =>
    obtain ⟨hBranches, hFallback⟩ := parts_of_spans h
    have hReversed : ∀ b ∈ clauses.branches.reverse,
        checked b.condition = unstopped (branch b.condition) ∧
          checked b.value = unstopped (branch b.value) :=
      fun b hb => hBranches b (List.mem_reverse.1 hb)
    simp only [convertConditional, optionalBranch_unstopped hFallback,
      nestBranches_unstopped hReversed, unstopped_bind]
    split <;> rfl
  | caseBlock span subject clauses =>
    obtain ⟨hSubject, hSpans⟩ := List.forall_mem_cons.1 h
    obtain ⟨hBranches, hFallback⟩ := parts_of_spans hSpans
    simp only [convertConditional, hSubject, armArguments_unstopped hBranches,
      optionalBranch_unstopped hFallback, unstopped_bind]
    split <;> rfl

theorem convertTableCalc_unstopped {t : Target} {ls : List Lexeme} {call : Call}
    (h : ∀ s ∈ call.args, checked s = unstopped (branch s)) :
    convertTableCalc t ls checked call = unstopped (convertTableCalc t ls branch call) := by
  obtain ⟨span, name, args⟩ := call
  unfold convertTableCalc
  simp only at h ⊢
  cases Formula.TableCalc.ofName? name with
  | none => rfl
  | some function =>
    simp only
    split
    · rfl
    split
    · rfl
    split
    · obtain ⟨hExpression, -⟩ := List.forall_mem_cons.1 h
      simp only [hExpression, unstopped_bind]
      split <;> rfl
    · obtain ⟨hExpression, -⟩ := List.forall_mem_cons.1 h
      simp only [hExpression, unstopped_bind]
      rfl
    · obtain ⟨hExpression, hRest⟩ := List.forall_mem_cons.1 h
      obtain ⟨hOffset, -⟩ := List.forall_mem_cons.1 hRest
      simp only [hExpression, hOffset, unstopped_bind]
      rfl
    · rfl

-- What a construct is converted to goes by what its parts are converted to: for checked conversions
-- this is known, and a conversion is found again in the checked one that never fails a check.
theorem convertConditional_congr {f g : Span → Splicing (List Char)} {c : Conditional}
    (h : ∀ s ∈ c.parts, f s = g s) : convertConditional f c = convertConditional g c := by
  have hFirst : convertConditional (fun s => unstopped (f s)) c = unstopped (convertConditional f c) :=
    convertConditional_unstopped fun _ _ => rfl
  have hSecond : convertConditional (fun s => unstopped (f s)) c = unstopped (convertConditional g c) :=
    convertConditional_unstopped fun s hs => congrArg unstopped (h s hs)
  exact unstopped_injective (hFirst.symm.trans hSecond)

theorem convertTableCalc_congr {t : Target} {ls : List Lexeme} {f g : Span → Splicing (List Char)}
    {call : Call} (h : ∀ s ∈ call.args, f s = g s) :
    convertTableCalc t ls f call = convertTableCalc t ls g call := by
  have hFirst : convertTableCalc t ls (fun s => unstopped (f s)) call =
      unstopped (convertTableCalc t ls f call) := convertTableCalc_unstopped fun _ _ => rfl
  have hSecond : convertTableCalc t ls (fun s => unstopped (f s)) call =
      unstopped (convertTableCalc t ls g call) :=
    convertTableCalc_unstopped fun s hs => congrArg unstopped (h s hs)
  exact unstopped_injective (hFirst.symm.trans hSecond)

end Texts

end DaxMigration.Dax
