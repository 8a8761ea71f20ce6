import DaxMigration.Proofs.Dax.ClearingCalls
import DaxMigration.Proofs.Formula.Heads

/-!
# Clearing level-of-detail blocks

Splicing leaves no block at any depth. Inside a block its own blocks are replaced first and then the
table calculations, so that the standard rules meet a row without constructs there too.
-/

namespace DaxMigration.Dax

open Formula

variable {t : Target} {room : Nat}

def lodSplicer (t : Target) (room : Nat) : Splicer LodBlock where
  found? := lodAt?
  span := LodBlock.span
  convert ls b := do
    let inner ← convertInner t room (b.inner.slice ls)
    return Replacement.verbatim ls b.span (← convertLod t ls inner b)

theorem spliceLods_succ (t : Target) (room : Nat) (ls : List Lexeme) :
    spliceLods t (room + 1) ls = (lodSplicer t room).splice ls := by
  simp only [spliceLods, Splicer.splice, lodSplicer, convertInner, convertArgument, bind_assoc]
  rfl

/-- Blocks are sought at curly brackets only. -/
theorem passes_lodSplicer {l : Lexeme} (h : l.token ≠ .lbrace) : (lodSplicer t room).Passes l := by
  intro ls rest i hAt
  show lodAt? ls i = none
  rw [lodAt?, if_neg]
  rw [tokenAt_of_drop hAt]
  simpa using h

/-- Where a run is a block, the block that is found takes up the run. -/
theorem exists_lodAt {r : BlockRun} (hBlock : r.IsBlock) (hFilled : ∃ l ∈ r.inner, l.isComment = false)
    {ls rest : List Lexeme} {i : Nat} (hAt : ls.drop i = r.lexemes ++ rest) :
    ∃ b, lodAt? ls i = some b ∧ b.span = ⟨i, i + r.lexemes.length⟩ ∧ b.inner.slice ls = r.inner := by
  obtain ⟨b, hFound, hWhole, hInner, -⟩ := lodAt_of_run hBlock hFilled hAt
  obtain ⟨r', rest', hAt', -, hSpan, -, -⟩ := run_of_lodAt hFound
  rw [hSpan, slice_of_drop hAt'] at hWhole
  rw [hWhole] at hSpan
  exact ⟨b, hFound, hSpan, hInner⟩

/-- Where `room` more levels may be entered, phrases with fewer levels are cleared of blocks. -/
def ClearsBlocks (t : Target) (room : Nat) : Prop :=
  ∀ ⦃n k : Nat⦄ ⦃ls : List Lexeme⦄, Phrase n k ls → n < room → (∀ l ∈ ls, Fair l) →
    ∃ ls', Cleared false n k ls ls' ∧ Returns (spliceLods t room ls) ls'

/-- The expression of a block is converted to an operand after all constructs in it. -/
theorem ClearsBlocks.convertInner (ht : t.IsForeign) (h : ClearsBlocks t room) {n : Nat}
    {ls : List Lexeme} (hPhrase : Phrase n 1 ls) (hRoom : n < room) (hFair : ∀ l ∈ ls, Fair l) :
    ∃ e, OperandText e ∧ Returns (convertInner t room ls) e := by
  obtain ⟨ls', hCleared, hReturns⟩ := h hPhrase hRoom hFair
  obtain ⟨less, rfl⟩ := Nat.exists_eq_succ_of_ne_zero (Nat.ne_of_gt (Nat.zero_lt_of_lt hRoom))
  have hNone : conditionals ls' = [] := conditionals_eq_nil fun l hl =>
    ⟨(hCleared.phrase.quiet l hl).ifWord, (hCleared.phrase.quiet l hl).caseWord⟩
  obtain ⟨e, hText, hConverted⟩ := (clearsCalls ht _).convertArgument ht hCleared.phrase hRoom
    fun l hl => ⟨hCleared.fair l hl, fun _ => hCleared.plain l hl⟩
  exact ⟨e, hText, hReturns.bind ((returns_spliceConditionals_of_none hNone).bind hConverted)⟩

theorem ClearsBlocks.clears (ht : t.IsForeign) (h : ClearsBlocks t room) :
    (lodSplicer t room).Clears false room where
  passes _ hBrace _ := passes_lodSplicer hBrace
  column {table l name} hTable hField := by
    have hLast : (lodSplicer t room).Passes l := passes_lodSplicer (by simp [hField])
    exact hLast.carries.cons (passes_lodSplicer (inner_table hTable).1.ne_lbrace) (by rintro _ rfl; rfl)
  call {r name m k n} hCall hName _ hDepth _ hAll hInner := by
    have hFair : ∀ l ∈ r.lexemes, Fair l := fun l hl => (hAll l hl).fair
    refine Splicer.Carries.call (passes_lodSplicer (by simp [hCall.first]))
      (passes_lodSplicer (by simp [hCall.opening])) hInner (passes_lodSplicer (by simp [hCall.closing]))
      fun inner hCleared => ?_
    exact hCleared.call hCall.opening hCall.closing
      ⟨hFair _ (by simp [CallRun.lexemes]), hFair _ (by simp [CallRun.lexemes])⟩ hCall.first hName hDepth
      (hFair _ (by simp [CallRun.lexemes])) fun hCalls => nomatch hCalls
  block {r m n} hBlock hPhrase hDepth hRoom hAll := by
    have hFair : ∀ l ∈ r.lexemes, Fair l := fun l hl => (hAll l hl).fair
    obtain ⟨l, hl⟩ := List.exists_mem_of_ne_nil _ hPhrase.filled
    obtain ⟨inner, hText, hReturns⟩ := h.convertInner ht hPhrase (hDepth.trans_le hRoom)
      fun l hl => hFair l (by simp [BlockRun.lexemes, hl])
    refine Splicer.carries_of_swaps (by simp [BlockRun.lexemes]) fun ls rest i hAt => ?_
    obtain ⟨b, hFound, hSpan, hInner⟩ := exists_lodAt hBlock ⟨l, hl, (hPhrase.quiet l hl).comment⟩ hAt
    have hOperand : OperandText (lodShape t inner b.keyword (b.dimensions.map (dimensionName ls))).written :=
      operandText_lodShape hText b.keyword _
    refine ⟨_, b, Cleared.operand hOperand (hFair r.opening (by simp [BlockRun.lexemes])) _, hFound, hSpan, ?_⟩
    have hConverted : Returns (Dax.convertInner t room (b.inner.slice ls)) inner := hInner ▸ hReturns
    refine hConverted.bind ((returns_convertLod t ls inner b).bind ?_)
    rw [← leading_of_drop (l := r.opening) hAt, hSpan]
    exact returns_pure _

/-- Every phrase is cleared of blocks, by induction on the number of levels. -/
theorem clearsBlocks (ht : t.IsForeign) (room : Nat) : ClearsBlocks t room := by
  induction room with
  | zero => exact fun n _ _ _ hRoom _ => absurd hRoom (Nat.not_lt_zero n)
  | succ room ih =>
    intro n k ls hPhrase hRoom hFair
    have hAll : ∀ l ∈ ls, Admissible false l := fun l hl => ⟨hFair l hl, fun hCalls => nomatch hCalls⟩
    rw [spliceLods_succ]
    exact ((ih.clears ht).phrase hPhrase (Nat.lt_succ_iff.1 hRoom) hAll).returns

end DaxMigration.Dax
