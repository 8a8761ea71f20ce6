import DaxMigration.Proofs.Dax.Arguments
import DaxMigration.Proofs.Dax.Distributing

/-!
# Rows without a division

A row is cut into groups, terms and factors and put together again. Where no division sign stands
in it, this gives the row just as it was written, whatever its brackets, comments and spliced texts.
The standard rules then do no more than spelling and qualification, but for the names of functions.
-/

namespace DaxMigration.Dax

open Formula Text

variable {t : Target} {ls : List Lexeme}

/-! ## Quotients -/

theorem foldTerm_eq_join {us : List TermUnit} (h : ∀ u ∈ us, u.isDivide = false) :
    foldTerm us = join us := by
  have hNone : us.any TermUnit.isDivide = false := by simpa using h
  rw [foldTerm, hNone]
  rfl

theorem foldTerms_eq_join {us : List TermUnit} (h : ∀ u ∈ us, u.isDivide = false) :
    foldTerms us = join us := by
  obtain ⟨hFirst, hParts⟩ := forall_cutAt TermUnit.isBoundary h
  have hRest : ((cutAt TermUnit.isBoundary us).2.flatMap fun q => q.1.written ++ foldTerm q.2) =
      (cutAt TermUnit.isBoundary us).2.flatMap fun q => q.1.written ++ join q.2 :=
    List.flatMap_congr fun q hq => by rw [foldTerm_eq_join (hParts q hq).2]
  calc
    foldTerms us = foldTerm (cutAt TermUnit.isBoundary us).1 ++
        (cutAt TermUnit.isBoundary us).2.flatMap fun q => q.1.written ++ foldTerm q.2 := rfl
    _ = join (cutAt TermUnit.isBoundary us).1 ++
        (cutAt TermUnit.isBoundary us).2.flatMap fun q => q.1.written ++ join q.2 := by
      rw [foldTerm_eq_join hFirst, hRest]
    _ = join us := join_cutAt TermUnit.isBoundary us

/-- No division sign stands in the row. One in a spliced text does not count. -/
def Divisionless (ls : List Lexeme) : Prop :=
  ∀ l ∈ ls, l.token ≠ .slash

instance (ls : List Lexeme) : Decidable (Divisionless ls) :=
  inferInstanceAs (Decidable (∀ l ∈ ls, l.token ≠ .slash))

theorem isDivide_unitOf_of_divisionless {p : Piece} (h : Divisionless p.flatten)
    (k : Option UnitKind) : (unitOf k p).isDivide = false := by
  refine Bool.eq_false_iff.2 fun hDivide => ?_
  obtain ⟨l, rfl, hSlash⟩ := isDivide_unitOf hDivide
  exact h l (List.mem_singleton_self l) hSlash

theorem isDivide_of_mem_units {ps : List Piece} (h : Divisionless (Piece.flattenAll ps))
    (k : Option UnitKind) : ∀ u ∈ units k ps, u.isDivide = false := by
  induction ps generalizing k with
  | nil => simp [units]
  | cons p ps ih =>
    obtain ⟨hFirst, hRest⟩ := List.forall_mem_append.1 h
    exact List.forall_mem_cons.2 ⟨isDivide_unitOf_of_divisionless hFirst k, ih hRest _⟩

mutual

theorem written_unitOf (k : Option UnitKind) : (p : Piece) → Divisionless p.flatten →
    (unitOf k p).written = written p.flatten
  | .leaf l => by
    intro _
    simp [unitOf, TermUnit.written, Piece.flatten]
  | .group opening inner closing => by
    intro h
    have hInner : Divisionless (Piece.flattenAll inner) :=
      (List.forall_mem_append.1 (List.forall_mem_cons.1 h).2).1
    have hText : foldTerms (units none inner) = written (Piece.flattenAll inner) := by
      rw [foldTerms_eq_join (isDivide_of_mem_units hInner none), join_units none inner hInner]
    simp [unitOf, TermUnit.written, Piece.flatten, hText, Lexeme.written]

theorem join_units (k : Option UnitKind) : (ps : List Piece) →
    Divisionless (Piece.flattenAll ps) → join (units k ps) = written (Piece.flattenAll ps)
  | [] => fun _ => rfl
  | p :: ps => by
    intro h
    obtain ⟨hFirst, hRest⟩ := List.forall_mem_append.1 h
    have hUnit := written_unitOf k p hFirst
    have hUnits := join_units (kindAfter k p) ps hRest
    rw [units, Piece.flattenAll, written_append, ← hUnit, ← hUnits]
    rfl

end

/-- Without a division sign nothing is converted, dropped or moved. -/
theorem convertDivision_of_divisionless (h : Divisionless ls) : convertDivision ls = written ls := by
  have hGrouped : Divisionless (Piece.flattenAll (group ls)) := by rwa [flatten_group]
  rw [convertDivision, foldTerms_eq_join (isDivide_of_mem_units hGrouped none),
    join_units none _ hGrouped, flatten_group]

/-! ## Names of functions -/

def KeepsNames (t : Target) (ls : List Lexeme) : Prop :=
  ∀ i l name text, ls[i]? = some l → isCallAt ls i = true → l.token = .identifier name →
    t.function? name = some text → text = l.text

theorem KeepsNames.tail {l : Lexeme} (h : KeepsNames t (l :: ls)) : KeepsNames t ls :=
  fun i => h (i + 1)

theorem mapFunctions_of_keepsNames (h : KeepsNames t ls) : mapFunctions t ls = ls := by
  induction ls with
  | nil => rfl
  | cons l ls ih =>
    rw [mapFunctions, ih h.tail]
    split
    · rename_i text hText
      obtain ⟨name, hCalled, hFunction⟩ := Option.bind_eq_some_iff.1 hText
      unfold calledName? at hCalled
      split at hCalled
      case h_2 => cases hCalled
      rename_i called hToken
      split at hCalled
      case isFalse => cases hCalled
      rename_i hParen
      obtain rfl := Option.some.inj hCalled
      have hCall : isCallAt (l :: ls) 0 = true := by simp [isCallAt, hToken, Token.isIdentifier, hParen]
      rw [h 0 l called text rfl hCall hToken hFunction]
    · rfl

/-! ## Whole rows -/

theorem blank_of_restated {ls' : List Lexeme} (h : ∀ l ∈ ls, allBlank l.leading = true)
    (hAll : List.Forall₂ (Restated false) ls ls') : ∀ l ∈ ls', allBlank l.leading = true := by
  induction hAll with
  | nil => exact h
  | cons hFirst _ ih =>
    obtain ⟨hBlank, hRest⟩ := List.forall_mem_cons.1 h
    refine List.forall_mem_cons.2 ⟨?_, ih hRest⟩
    rcases hFirst with rfl | hReworded
    · exact hBlank
    · rwa [hReworded.leading]

theorem divisionless_of_alike {ls' : List Lexeme} (hAlike : AlikeRows ls ls') (h : Divisionless ls) :
    Divisionless ls' := by
  induction hAlike with
  | nil => exact h
  | cons hFirst _ ih =>
    obtain ⟨hSign, hRest⟩ := List.forall_mem_cons.1 h
    exact List.forall_mem_cons.2 ⟨fun hSlash => hSign (hFirst.slash.2 hSlash), ih hRest⟩

/-- Where no name of a function changes, the rules for divisions are all that the standard rules
have beyond spelling and qualification. -/
theorem standard_eq_qualified (hBlank : ∀ l ∈ ls, allBlank l.leading = true) (h : Divisionless ls)
    (hNames : KeepsNames t ls) : standard t ls = qualified t ls := by
  have hRow : respelled t ls = qualify t none (normalize ls) := by
    rw [respelled, mapFunctions_of_keepsNames hNames]
  have hDivided := convertDivision_of_divisionless (divisionless_of_alike (alike_respelled t ls) h)
  have hLeading := blank_of_restated (blank_of_restated hBlank (restated_normalize ls))
    (restated_qualify t none (normalize ls))
  rw [standard_eq, hDivided, hRow, qualified, render_eq_trim hLeading]

/-- A row without a division sign is written as it stands; and where its calls keep their names as
well, the standard rules make of it what spelling and qualification make of it, be it a formula or a
row with spliced texts. -/
theorem divisionless_unchanged :
    (∀ ls, Divisionless ls → convertDivision ls = written ls) ∧
    (∀ t ls, Divisionless ls → KeepsNames t ls → (∀ l ∈ ls, allBlank l.leading = true) →
      standard t ls = qualified t ls) ∧
    ∀ t formula, Divisionless (tokenize formula) → KeepsNames t (tokenize formula) →
      standard t (tokenize formula) = qualified t (tokenize formula) := by
  refine ⟨fun ls h => convertDivision_of_divisionless h, fun t ls h hNames hBlank => ?_,
    fun t formula h hNames => ?_⟩
  · exact standard_eq_qualified hBlank h hNames
  · exact standard_eq_qualified (isRead_tokenize formula).blank h hNames

/-- Brackets of two kinds that do not match, a comment, a call that is kept by its spelling, one
without a name in the target, and a spliced text that divides. -/
theorem divisionless_unchanged_unbalanced :
    let t : Target :=
      ⟨fun name => if name = "SUM".toList then some "SUM".toList else none, "Sales".toList, []⟩
    let row := tokenize "SUM( [a]\x7d * // sum\n ) % (MEDIAN(x[b], 'c' != [d]".toList ++
      [Lexeme.verbatim "1 / 2".toList [' ', ' ']]
    Divisionless row ∧ KeepsNames t row ∧ convertDivision row = written row ∧
      standard t row = qualified t row ∧ qualified t row =
        "SUM( Sales[a]\x7d * // sum\n ) % (MEDIAN(x[b], \"c\" <> Sales[d]  1 / 2".toList := by
  intro t row
  have hPlain : Divisionless row := by decide +kernel
  have hSpelled : ∀ l ∈ row, l.token = .identifier "SUM".toList → "SUM".toList = l.text := by
    decide +kernel
  have hNames : KeepsNames t row := by
    intro i l name text hAt _ hToken hFunction
    have hMapped : (if name = "SUM".toList then some "SUM".toList else none) = some text := hFunction
    split at hMapped
    · rename_i hName
      obtain rfl := Option.some.inj hMapped
      exact hSpelled l (List.mem_of_getElem? hAt) (hName ▸ hToken)
    · cases hMapped
  obtain ⟨hWritten, hRow, -⟩ := divisionless_unchanged
  exact ⟨hPlain, hNames, hWritten row hPlain, hRow t row hPlain hNames (by decide +kernel),
    by decide +kernel⟩

end DaxMigration.Dax
