import DaxMigration.Proofs.Formula.Overlap
import DaxMigration.Proofs.Formula.Windows

/-!
# Laminar blocks

Level-of-detail blocks and conditionals that begin at different positions lie apart or one inside the
other, and what begins inside a conditional lies inside one of its parts. So replacing the blocks
before the conditionals, and the parts of a conditional each by itself, cuts through no construct.
-/

namespace DaxMigration.Formula

def Span.Apart (s t : Span) : Prop :=
  s.stop ≤ t.start ∨ t.stop ≤ s.start

def Span.Covers (s t : Span) : Prop :=
  s.start ≤ t.start ∧ t.stop ≤ s.stop

instance (s t : Span) : Decidable (s.Apart t) :=
  inferInstanceAs (Decidable (_ ∨ _))

instance (s t : Span) : Decidable (s.Covers t) :=
  inferInstanceAs (Decidable (_ ∧ _))

/-- A level-of-detail block or a conditional with that span is recognized at a position. -/
inductive BlockAt (ls : List Lexeme) (i : Nat) : Span → Prop
  | lod {b : LodBlock} (h : lodAt? ls i = some b) : BlockAt ls i b.span
  | conditional {c : Conditional} (h : conditionalAt? ls i = some c) : BlockAt ls i c.span

variable {ls : List Lexeme} {i k : Nat} {s t : Span}

theorem BlockAt.excursion (h : BlockAt ls i s) : Excursion ls s := by
  cases h with
  | lod h => exact excursion_of_lodAt h
  | conditional h => exact excursion_of_conditionalAt h

theorem BlockAt.start_eq (h : BlockAt ls i s) : s.start = i := by
  cases h with
  | lod h => exact (bounded_of_lodAt h).located.start
  | conditional h => exact (bounded_of_conditionalAt h).located.start

theorem BlockAt.covers (hs : BlockAt ls i s) (ht : BlockAt ls k t) (hOrder : i < k)
    (hInside : k < s.stop) : s.Covers t := by
  rw [← hs.start_eq, ← ht.start_eq] at hOrder
  rw [← ht.start_eq] at hInside
  exact ⟨hOrder.le, ht.excursion.stop_le hs.excursion.returns hOrder.le hInside⟩

/-- What stands where a block begins is no keyword that parts a conditional. -/
theorem BlockAt.not_keyword (h : BlockAt ls i s) (word : Keyword) : ¬ KeywordAt ls i word := by
  intro hWord
  have hToken : tokenAt ls i = some (.identifier word.spelling.toList) := hWord
  cases h with
  | lod h =>
    rw [(parseLod_of_lodAt h).1] at hToken
    cases hToken
  | conditional h =>
    rcases conditionalAt_eq_some_iff.1 h with ⟨hFirst, -⟩ | ⟨hFirst, -⟩
    all_goals
      rw [hFirst] at hToken
      cases word <;> exact absurd hToken (by decide)

def PartOrKeyword (ls : List Lexeme) (k : Nat) (spans : List Span) : Prop :=
  (∃ part ∈ spans, SegmentAt ls part ∧ part.start ≤ k ∧ k < part.stop) ∨
    ∃ word, KeywordAt ls k word

/-- A position behind the beginning of a segment lies in it, or is that of the keyword behind it, or
lies behind that. -/
theorem SegmentAt.position {first j : Nat} {word : Keyword} {spans : List Span}
    (h : SegmentAt ls ⟨first, j⟩) (hWord : KeywordAt ls j word) (hFirst : first ≤ k)
    (hMem : ⟨first, j⟩ ∈ spans) (hRest : j + 1 ≤ k → PartOrKeyword ls k spans) :
    PartOrKeyword ls k spans := by
  rcases lt_trichotomy k j with hBefore | rfl | hBehind
  · exact .inl ⟨_, hMem, h, hFirst, hBefore⟩
  · exact .inr ⟨word, hWord⟩
  · exact hRest hBehind

theorem ClausesAt.partOrKeyword {form : Form} {start stop : Nat} {c : Clauses}
    (h : ClausesAt ls form start c stop) (hStart : start ≤ k) (hStop : k ≤ stop) :
    PartOrKeyword ls k c.spans := by
  induction h with
  | last hCondition hThen hValue hEnd =>
    refine hCondition.position hThen hStart (by simp [Clauses.spans, Clauses.branches]) fun hBehind => ?_
    refine hValue.position hEnd hBehind (by simp [Clauses.spans, Clauses.branches]) fun hBehind => ?_
    omega
  | otherwise hCondition hThen hValue hElse hFallback hEnd =>
    refine hCondition.position hThen hStart (by simp [Clauses.spans, Clauses.branches]) fun hBehind => ?_
    refine hValue.position hElse hBehind (by simp [Clauses.spans, Clauses.branches]) fun hBehind => ?_
    refine hFallback.position hEnd hBehind (by simp [Clauses.spans, Clauses.branches]) fun hBehind => ?_
    omega
  | more hCondition hThen hValue hAgain _ ih =>
    refine hCondition.position hThen hStart (by simp [Clauses.spans, Clauses.branches]) fun hBehind => ?_
    refine hValue.position hAgain hBehind (by simp [Clauses.spans, Clauses.branches]) fun hBehind => ?_
    rcases ih hBehind hStop with ⟨part, hMem, hFound⟩ | hWord
    · exact .inl ⟨part, by simp_all [Clauses.spans, Clauses.branches], hFound⟩
    · exact .inr hWord

theorem partOrKeyword_of_conditionalAt {c : Conditional} (h : conditionalAt? ls i = some c)
    (hStart : i < k) (hStop : k < c.span.stop) : PartOrKeyword ls k c.parts := by
  rcases conditionalAt_eq_some_iff.1 h with ⟨-, hIf⟩ | ⟨-, hCase⟩
  · obtain ⟨hClauses⟩ := hIf
    exact hClauses.partOrKeyword hStart (Nat.le_of_lt_succ hStop)
  · obtain ⟨hSubject, hWhen, hClauses⟩ := hCase
    refine hSubject.position hWhen hStart List.mem_cons_self fun hBehind => ?_
    rcases hClauses.partOrKeyword hBehind (Nat.le_of_lt_succ hStop) with ⟨part, hMem, hFound⟩ | hWord
    · exact .inl ⟨part, List.mem_cons_of_mem _ hMem, hFound⟩
    · exact .inr hWord

theorem covers_of_part {c : Conditional} (h : conditionalAt? ls i = some c) (ht : BlockAt ls k t)
    (hStart : i < k) (hStop : k < c.span.stop) : ∃ part ∈ c.parts, part.Covers t := by
  rcases partOrKeyword_of_conditionalAt h hStart hStop with
    ⟨part, hMem, hSegment, hFirst, hLast⟩ | ⟨word, hWord⟩
  · have hReturns := (closes_zero_iff.2 ⟨hSegment.segment.balanced, hSegment.segment.paired⟩).countersAfter
    rw [← ht.start_eq] at hFirst hLast
    exact ⟨part, hMem, hFirst, ht.excursion.stop_le hReturns hFirst hLast⟩
  · exact absurd hWord (ht.not_keyword word)

end DaxMigration.Formula
