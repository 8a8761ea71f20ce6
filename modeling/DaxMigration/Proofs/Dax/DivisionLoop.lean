import DaxMigration.Dax.Standard
import DaxMigration.Proofs.Dax.Checks
import DaxMigration.Proofs.Formula.Bounds
import DaxMigration.Proofs.Formula.Grouping

/-!
# Division by positions

The conversion of quotients as a loop over positions: at a bracket it seeks the partner, converts the
slice between by a call of itself, and goes on behind the partner; a term is cut at the positions of
its operators. Every slice, element and step of the loop is checked, and no check fails: the loop
gives what the conversion of the groups gives.
-/

namespace DaxMigration.Dax

open Formula Text

def checkedFactors (term : List TermUnit) :
    (start i : Nat) → List TermUnit → Except Stop (List (List TermUnit) × List TermUnit)
  | start, _, [] => do
    return ([← checkedSlice term ⟨start, term.length⟩], [])
  | start, i, u :: us => do
    if u.isOperator then
      let factor ← checkedSlice term ⟨start, i⟩
      let (factors, operators) ← checkedFactors term (i + 1) (i + 1) us
      return (factor :: factors, u :: operators)
    else checkedFactors term start (i + 1) us

def checkedTerm (term : List TermUnit) : Except Stop (List Char) := do
  if term.any TermUnit.isDivide then
    let (factors, operators) ← checkedFactors term 0 0 term
    let first ← checkedElement factors 0
    let others ← checkedSlice factors ⟨1, factors.length⟩
    let leading := (first.head?.map TermUnit.leading).getD []
    return leading ++
      (operators.zip others).foldl (fun acc f => applyOperator acc f.1 f.2) (trim (join first))
  else return join term

def checkedTerms (us : List TermUnit) : Except Stop (List Char) := do
  let (first, parts) := cutAt TermUnit.isBoundary us
  let text ← checkedTerm first
  let texts ← parts.mapM fun p => do return p.1.written ++ (← checkedTerm p.2)
  return text ++ texts.flatten

def checkedUnits (ls : List Lexeme) (i : Nat) (previous : Option UnitKind) :
    Except Stop (List TermUnit) :=
  if _hAt : i < ls.length then do
    let l ← checkedElement ls i
    match if l.token.opens then matchingClose ls i else none with
    | some close =>
      let inner ← checkedSlice ls ⟨i + 1, close⟩
      if _hShorter : inner.length < ls.length then
        let text ← checkedTerms (← checkedUnits inner 0 none)
        let closing ← checkedElement ls close
        if _hOnward : i < close + 1 then
          return ⟨l.leading, l.text ++ text ++ closing.written, .operand⟩ ::
            (← checkedUnits ls (close + 1) (some .operand))
        else throw .noProgress
      else throw .noProgress
    | none =>
      return ⟨l.leading, l.text, unitKind previous l.token⟩ ::
        (← checkedUnits ls (i + 1) (kindAfter previous (.leaf l)))
  else return []
termination_by (ls.length, ls.length - i)

def checkedDivision (ls : List Lexeme) : Except Stop (List Char) := do
  checkedTerms (← checkedUnits ls 0 none)

/-! ## Terms -/

theorem slice_part {α : Type} (front part rest : List α) :
    (Span.mk front.length (front.length + part.length)).slice (front ++ (part ++ rest)) = part :=
  slice_of_drop List.drop_left

/-- The factors are those between the operators of the term. -/
theorem checkedFactors_eq (front pending us : List TermUnit) :
    checkedFactors (front ++ (pending ++ us)) front.length (front.length + pending.length) us =
      pure ((pending ++ (cutAt TermUnit.isOperator us).1) ::
          (cutAt TermUnit.isOperator us).2.map Prod.snd,
        (cutAt TermUnit.isOperator us).2.map Prod.fst) := by
  induction us generalizing front pending with
  | nil =>
    have hLength : (front ++ (pending ++ [])).length = front.length + pending.length := by simp
    rw [checkedFactors, checkedSlice_eq ⟨by simp, le_rfl⟩, hLength, slice_part]
    simp [cutAt]
  | cons u us ih =>
    rw [checkedFactors, cutAt]
    cases hOperator : u.isOperator with
    | true =>
      have hRest := ih (front ++ (pending ++ [u])) []
      have hPosition : (front ++ (pending ++ [u])).length = front.length + pending.length + 1 := by
        simp [Nat.add_assoc]
      rw [hPosition, List.length_nil, Nat.add_zero] at hRest
      simp only [List.append_assoc, List.singleton_append, List.nil_append] at hRest
      rw [checkedSlice_eq ⟨by simp, by simp⟩, slice_part]
      simp [hRest]
    | false =>
      have hRest := ih front (pending ++ [u])
      rw [List.length_append, List.length_singleton, ← Nat.add_assoc] at hRest
      simp only [List.append_assoc, List.singleton_append] at hRest
      simp [hRest]

theorem checkedTerm_eq (term : List TermUnit) : checkedTerm term = pure (foldTerm term) := by
  rw [checkedTerm, foldTerm]
  cases term.any TermUnit.isDivide with
  | false => rfl
  | true =>
    have hFactors := checkedFactors_eq [] [] term
    simp only [List.nil_append, List.length_nil, Nat.add_zero] at hFactors
    generalize cutAt TermUnit.isOperator term = cut at hFactors
    obtain ⟨first, parts⟩ := cut
    have hOthers : (Span.mk 1 (first :: parts.map Prod.snd).length).slice
        (first :: parts.map Prod.snd) = parts.map Prod.snd := by
      rw [Span.slice, List.take_length]
      rfl
    have hZip : (parts.map Prod.fst).zip (parts.map Prod.snd) = parts := by
      rw [← List.unzip_fst, ← List.unzip_snd, List.zip_unzip]
    simp only [hFactors, if_true, pure_bind]
    rw [checkedElement_eq (by simp), pure_bind, checkedSlice_eq ⟨by simp, le_rfl⟩, pure_bind, hOthers,
      hZip]
    rfl

theorem checkedTerms_eq (us : List TermUnit) : checkedTerms us = pure (foldTerms us) := by
  rw [checkedTerms, foldTerms]
  simp only [checkedTerm_eq, pure_bind, List.mapM_pure, List.flatMap]

/-! ## Units -/

theorem units_leaf (previous : Option UnitKind) (l : Lexeme) (rest : List Piece) :
    units previous (.leaf l :: rest) =
      ⟨l.leading, l.text, unitKind previous l.token⟩ :: units (kindAfter previous (.leaf l)) rest := by
  rw [units, unitOf]

theorem units_group (previous : Option UnitKind) (l closing : Lexeme) (inner rest : List Piece) :
    units previous (.group l inner closing :: rest) =
      ⟨l.leading, l.text ++ foldTerms (units none inner) ++ closing.written, .operand⟩ ::
        units (some .operand) rest := by
  rw [units, unitOf, kindAfter]

/-- The loop from a position on gives the units of the groups that begin there. -/
theorem checkedUnits_eq (ls : List Lexeme) (i : Nat) (previous : Option UnitKind) :
    checkedUnits ls i previous = pure (units previous (group (ls.drop i))) := by
  -- The loop calls itself on shorter lists inside brackets, and else on fewer lexemes of the same one.
  rw [checkedUnits]
  by_cases hAt : i < ls.length
  case neg =>
    rw [dif_neg hAt, List.drop_eq_nil_of_le (not_lt.1 hAt)]
    rfl
  rw [dif_pos hAt, checkedElement_eq hAt, pure_bind]
  have hDrop := List.drop_eq_getElem_cons hAt
  cases hPartner : if ls[i].token.opens then matchingClose ls i else none with
  | none =>
    have hLeaf : group (ls.drop i) = .leaf ls[i] :: group (ls.drop (i + 1)) := by
      rw [hDrop]
      cases hOpens : ls[i].token.opens with
      | false => exact group_leaf hOpens
      | true =>
        rw [hOpens, if_pos rfl, matchingClose, hDrop] at hPartner
        exact group_unclosed hOpens hPartner
    have hRest := checkedUnits_eq ls (i + 1) (kindAfter previous (.leaf ls[i]))
    simp only [hRest, pure_bind, hLeaf, units_leaf]
  | some close =>
    obtain ⟨hOpens, hClose⟩ : ls[i].token.opens = true ∧ matchingClose ls i = some close := by
      split at hPartner
      · exact ⟨‹_›, hPartner⟩
      · cases hPartner
    -- The partner ends a balanced run, so what is sliced is the list that the grouping recurses on.
    rw [matchingClose, hDrop, closeFrom.eq_def] at hClose
    simp only [hOpens, if_true] at hClose
    obtain ⟨inner, closing, rest, hSplit, hBalanced, hCloses, rfl⟩ := closeFrom_eq_some hClose
    have hInner : (Span.mk (i + 1) (i + 1 + inner.length)).slice ls = inner := slice_of_drop hSplit
    have hClosing : ls.drop (i + 1 + inner.length) = closing :: rest := drop_of_drop hSplit
    have hBehind : ls.drop (i + 1 + inner.length + 1) = rest := drop_of_drop (a := [closing]) hClosing
    have hLength : i + 1 + inner.length < ls.length := lt_length_of_tokenAt (tokenAt_of_drop hClosing)
    have hLast : ls[i + 1 + inner.length] = closing := by
      rw [List.drop_eq_getElem_cons hLength] at hClosing
      exact (List.cons.inj hClosing).1
    have hWithin : (Span.mk (i + 1) (i + 1 + inner.length)).Within ls.length :=
      ⟨Nat.le_add_right _ _, hLength.le⟩
    have hShorter : inner.length < ls.length := by omega
    have hInside := checkedUnits_eq inner 0 none
    have hRest := checkedUnits_eq ls (i + 1 + inner.length + 1) (some .operand)
    have hGroup : group (ls.drop i) = .group ls[i] (group inner) closing :: group rest := by
      rw [hDrop, hSplit]
      exact group_group hOpens hBalanced hCloses
    simp only [checkedSlice_eq hWithin, hInner, pure_bind, dif_pos hShorter, hInside, List.drop_zero,
      checkedTerms_eq, checkedElement_eq hLength, hLast, hRest, hBehind, hGroup, units_group]
    rw [dif_pos (by omega)]
termination_by (ls.length, ls.length - i)

theorem checkedDivision_eq (ls : List Lexeme) : checkedDivision ls = pure (convertDivision ls) := by
  rw [checkedDivision, checkedUnits_eq, pure_bind]
  exact checkedTerms_eq _

end DaxMigration.Dax
