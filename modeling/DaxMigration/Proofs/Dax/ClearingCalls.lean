import DaxMigration.Proofs.Dax.Clearing
import DaxMigration.Proofs.Dax.Swaps

/-!
# Clearing table calculations

Splicing leaves no call that is converted, at any depth: neither among the arguments of a call that
is kept, nor among those of a function of another sort, nor among those of a call that is converted.
-/

namespace DaxMigration.Dax

open Formula

variable {t : Target} {room : Nat}

theorem returns_standardRemarked (t : Target) (ls : List Lexeme) :
    Returns (standardRemarked t ls) (standard t ls) :=
  fun _ => ⟨_, rfl⟩

theorem Returns.unique {γ : Type} {m : Splicing γ} {b c : γ} (hb : Returns m b) (hc : Returns m c) : b = c :=
  hc.gives_iff.1 (hb.gives_iff.2 rfl)

def tableSplicer (t : Target) (room : Nat) : Splicer Call where
  found? := callAt? fun name => (Formula.TableCalc.ofName? name).isSome
  span := Call.span
  convert ls call := do
    match ← convertTableCalc t ls (fun s => convertArgument t room (s.slice ls)) call with
    | some text => return Replacement.verbatim ls call.span text
    | none => keptCall t room ls call.span

theorem spliceTableCalcs_succ (t : Target) (room : Nat) (ls : List Lexeme) :
    spliceTableCalcs t (room + 1) ls = (tableSplicer t room).splice ls :=
  rfl

/-- Calls are sought at the names of table calculations only. -/
theorem passes_tableSplicer {l : Lexeme}
    (h : ∀ name, l.token = .identifier name → Formula.TableCalc.ofName? name = none) :
    (tableSplicer t room).Passes l := by
  intro ls rest i hAt
  refine Option.eq_none_iff_forall_ne_some.2 fun call hFound => ?_
  obtain ⟨name, hName, hWanted, -⟩ := parseCall_of_callAt hFound
  rw [tokenAt_of_drop hAt] at hName
  rw [h name (Option.some.inj hName)] at hWanted
  cases hWanted

/-- A name in front of a field is no call. -/
theorem carries_column {table l : Lexeme} {name : List Char} (hField : l.token = .field name) :
    (tableSplicer t room).Carries [table, l] (· = [table, l]) := by
  have hLast : (tableSplicer t room).Passes l := passes_tableSplicer fun _ hSame => by simp [hField] at hSame
  intro ls rest new i hAt hRest
  have hHere : (tableSplicer t room).found? ls i = none := by
    refine Option.eq_none_iff_forall_ne_some.2 fun call hFound => ?_
    obtain ⟨_, -, -, hParse⟩ := parseCall_of_callAt hFound
    have hCall := (isCallAt_of_parseCall hParse).2
    simp [isCallAt, hAt, followedByParen, hField, Lexeme.isComment, Token.isComment] at hCall
  have hBehind : ls.drop (i + 1) = l :: rest := @drop_of_drop _ _ [table] _ _ hAt
  exact ⟨[table, l], rfl, .keep hAt hHere (.keep hBehind (hLast hBehind) hRest)⟩

/-- The arguments of a call are the expressions between its brackets. -/
theorem exists_arguments {r : CallRun} {name : List Char} (hCall : r.IsCall name) {m k : Nat}
    (h : Phrase m k r.inner) {ls rest : List Lexeme} {i : Nat} (hAt : ls.drop i = r.lexemes ++ rest) :
    ∃ args, parseCall ls i = .ok ⟨⟨i, i + r.lexemes.length⟩, name, args⟩ ∧ args.length = k ∧
      ∀ row ∈ args.map (·.slice ls), Phrase m 1 row ∧ row ⊆ r.inner := by
  cases k with
  | zero =>
    have hEmpty : r.inner = [] := by
      generalize r.inner = inner at h
      cases h
      rfl
    have hNone : splitTopLevel ls ⟨i + 2, i + 2 + r.inner.length⟩ = [] := by
      rw [splitTopLevel, if_neg]
      rw [isFilled_iff, hEmpty, List.length_nil, Nat.add_zero, slice_self]
      simp
    exact ⟨[], hNone ▸ parseCall_of_isCall hCall hAt, rfl, by simp⟩
  | succ k =>
    obtain ⟨rows, hListed, hLength, hRows⟩ := h.exists_rows
    obtain ⟨l, hl⟩ := List.exists_mem_of_ne_nil _ h.filled
    obtain ⟨args, hParse, rfl⟩ := parseCall_of_run hCall hListed (fun row hRow => (hRows row hRow).isSlot)
      ⟨l, hl, (h.quiet l hl).comment⟩ hAt
    refine ⟨args, hParse, by simpa using hLength, fun row hRow => ⟨hRows row hRow, fun l hl => ?_⟩⟩
    exact hListed.mem hRow hl

def ClearsCalls (t : Target) (room : Nat) : Prop :=
  ∀ ⦃n k : Nat⦄ ⦃ls : List Lexeme⦄, Phrase n k ls → n < room → (∀ l ∈ ls, Admissible true l) →
    ∃ ls', Cleared true n k ls ls' ∧ Returns (spliceTableCalcs t room ls) ls'

/-- An expression is converted to an operand after the table calculations in it. -/
theorem ClearsCalls.convertArgument (ht : t.IsForeign) (h : ClearsCalls t room) {n : Nat}
    {ls : List Lexeme} (hPhrase : Phrase n 1 ls) (hRoom : n < room) (hAll : ∀ l ∈ ls, Admissible true l) :
    ∃ e, OperandText e ∧ Returns (convertArgument t room ls) e := by
  obtain ⟨ls', hCleared, hReturns⟩ := h hPhrase hRoom hAll
  exact ⟨_, operandText_standard ht hCleared.phrase hCleared.plain hCleared.fair (hCleared.resolved rfl),
    hReturns.bind (returns_standardRemarked t ls')⟩

/-- A table calculation is converted to an operand, or kept with its arguments cleared. -/
theorem ClearsCalls.swaps (ht : t.IsForeign) (h : ClearsCalls t room) {r : CallRun} {name : List Char}
    {function : TableCalc} (hFunction : Formula.TableCalc.ofName? name = some function)
    (hCall : r.IsCall name) (hName : isKeyword name = false) {m k n : Nat} (hPhrase : Phrase m k r.inner)
    (hDepth : m + callDepth name ≤ n) (hRoom : m < room) (hAll : ∀ l ∈ r.lexemes, Admissible true l)
    {ls rest : List Lexeme} {i : Nat} (hAt : ls.drop i = r.lexemes ++ rest) :
    ∃ made call, Cleared true n 1 r.lexemes made ∧ (tableSplicer t room).Swaps ls i r.lexemes made call := by
  obtain ⟨args, hParse, hLength, hRows⟩ := exists_arguments hCall hPhrase hAt
  have hInner : ∀ l ∈ r.inner, Admissible true l := fun l hl => hAll l (by simp [CallRun.lexemes, hl])
  have hFair : Fair r.first ∧ Fair r.opening ∧ Fair r.closing :=
    ⟨(hAll _ (by simp [CallRun.lexemes])).fair, (hAll _ (by simp [CallRun.lexemes])).fair,
      (hAll _ (by simp [CallRun.lexemes])).fair⟩
  have hFound : (tableSplicer t room).found? ls i = some ⟨⟨i, i + r.lexemes.length⟩, name, args⟩ := by
    have hFirst : tokenAt ls i = some (.identifier name) := by
      rw [tokenAt_of_drop (l := r.first) hAt, hCall.first]
    simp [tableSplicer, callAt?, hFirst, hFunction, hParse, Except.toOption]
  by_cases hArity : k ∈ TableCalc.arities function
  · have hTexts : ∀ row ∈ args.map (·.slice ls), ∃ e, OperandText e ∧ Returns (Dax.convertArgument t room row) e :=
      fun row hRow => h.convertArgument ht (hRows row hRow).1 hRoom fun l hl => hInner l ((hRows row hRow).2 hl)
    obtain ⟨shape, hShape⟩ := @exists_prescribed t (fun row e => Returns (Dax.convertArgument t room row) e)
      function (args.map (·.slice ls)) (by simpa [hLength] using hArity)
      fun row hRow => (hTexts row hRow).imp fun _ hText => hText.2
    have hOperand : OperandText shape.written := by
      refine hShape.operandText fun row hRow e he => ?_
      obtain ⟨e', hText, hReturns⟩ := hTexts row hRow
      rwa [he.unique hReturns]
    refine ⟨_, _, Cleared.operand hOperand hFair.1 _, hFound, rfl, ?_⟩
    refine (hShape.returns hFunction).bind ?_
    rw [← leading_of_drop (l := r.first) hAt]
    exact returns_pure _
  · obtain ⟨inner, hCleared, hReturns⟩ := h hPhrase hRoom hInner
    have hKept : isConvertible name k = false := by simpa [isConvertible, hFunction] using hArity
    refine ⟨{ r with inner := inner }.lexemes, _, ?_, hFound, rfl, ?_⟩
    · exact hCleared.call hCall.opening hCall.closing hFair.2 hCall.first hName hDepth hFair.1 fun _ => hKept
    · refine (returns_none_convertTableCalc hFunction (hLength ▸ hArity)).bind ?_
      show Returns (keptCall t room ls ⟨i, i + r.lexemes.length⟩) _
      rw [keptCall_of_isCall hCall hAt]
      exact hReturns.bind (returns_pure _)

theorem ClearsCalls.clears (ht : t.IsForeign) (h : ClearsCalls t room) :
    (tableSplicer t room).Clears true room where
  passes _ _ hName := passes_tableSplicer hName
  column _ hField := carries_column hField
  call {r name m k n} hCall hName hPhrase hDepth hRoom hAll hInner := by
    cases hFunction : Formula.TableCalc.ofName? name with
    | none =>
      have hFair : ∀ l ∈ r.lexemes, Fair l := fun l hl => (hAll l hl).fair
      have hFirst : (tableSplicer t room).Passes r.first :=
        passes_tableSplicer fun other hSame => by
          rw [hCall.first] at hSame
          rwa [← Token.identifier.inj hSame]
      have hOpening : (tableSplicer t room).Passes r.opening :=
        passes_tableSplicer fun _ hSame => by simp [hCall.opening] at hSame
      have hClosing : (tableSplicer t room).Passes r.closing :=
        passes_tableSplicer fun _ hSame => by simp [hCall.closing] at hSame
      refine Splicer.Carries.call hFirst hOpening hInner hClosing fun inner hCleared => ?_
      exact hCleared.call hCall.opening hCall.closing
        ⟨hFair _ (by simp [CallRun.lexemes]), hFair _ (by simp [CallRun.lexemes])⟩ hCall.first hName hDepth
        (hFair _ (by simp [CallRun.lexemes])) fun _ => not_isConvertible hFunction k
    | some function =>
      have hInside : m < room := by
        simp only [callDepth, hFunction, Option.isSome_some, if_true] at hDepth
        omega
      refine Splicer.carries_of_swaps (by simp [CallRun.lexemes]) fun ls rest i hAt => ?_
      exact h.swaps ht hFunction hCall hName hPhrase hDepth hInside hAll hAt
  block {r m n} hBlock _ _ _ hAll :=
    absurd hBlock.opening ((hAll r.opening (by simp [BlockRun.lexemes])).plain rfl)

/-- Every phrase without blocks is cleared, by induction on the number of levels. -/
theorem clearsCalls (ht : t.IsForeign) (room : Nat) : ClearsCalls t room := by
  induction room with
  | zero => exact fun n _ _ _ hRoom _ => absurd hRoom (Nat.not_lt_zero n)
  | succ room ih =>
    intro n k ls hPhrase hRoom hAll
    exact ((ih.clears ht).phrase hPhrase (Nat.lt_succ_iff.1 hRoom) hAll).returns

end DaxMigration.Dax
