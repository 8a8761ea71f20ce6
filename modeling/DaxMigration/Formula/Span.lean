/-!
# Spans

Half-open ranges of positions in a list. What a formula holds is described by the spans of its
parts, so that the parts can be replaced in place.
-/

namespace DaxMigration.Formula

structure Span where
  start : Nat
  stop : Nat
deriving DecidableEq

namespace Span

def slice {α : Type} (s : Span) (as : List α) : List α :=
  (as.take s.stop).drop s.start

def length (s : Span) : Nat :=
  s.stop - s.start

def shift (s : Span) (n : Nat) : Span :=
  ⟨s.start + n, s.stop + n⟩

def Within (s : Span) (n : Nat) : Prop :=
  s.start ≤ s.stop ∧ s.stop ≤ n

instance (s : Span) (n : Nat) : Decidable (s.Within n) :=
  inferInstanceAs (Decidable (_ ∧ _))

theorem length_slice {α : Type} {s : Span} {as : List α} (h : s.Within as.length) :
    (s.slice as).length = s.length := by
  obtain ⟨_, h⟩ := h
  simp [slice, length, Nat.min_eq_left h]

end Span

/-- Tries every position from left to right and skips what was found: the outermost results of
`found?`, whose extents end at `stop`. -/
def outermostFrom {β : Type} (found? : Nat → Option β) (stop : β → Nat) :
    (count position free : Nat) → List β
  | 0, _, _ => []
  | count + 1, position, free =>
    if position < free then outermostFrom found? stop count (position + 1) free
    else
      match found? position with
      | some b => b :: outermostFrom found? stop count (position + 1) (stop b)
      | none => outermostFrom found? stop count (position + 1) free

def outermost {β : Type} (found? : Nat → Option β) (stop : β → Nat) (length : Nat) : List β :=
  outermostFrom found? stop length 0 0

theorem found_of_mem_outermostFrom {β : Type} {found? : Nat → Option β} {stop : β → Nat}
    {count position free : Nat} {b : β} (h : b ∈ outermostFrom found? stop count position free) :
    ∃ i, position ≤ i ∧ i < position + count ∧ found? i = some b := by
  fun_induction outermostFrom found? stop count position free with
  | case1 => simp at h
  | case2 count position free _ ih => obtain ⟨i, hi⟩ := ih h; exact ⟨i, by omega, by omega, hi.2.2⟩
  | case3 count position free _ c hc ih =>
    rcases List.mem_cons.1 h with rfl | h
    · exact ⟨position, by omega, by omega, hc⟩
    · obtain ⟨i, hi⟩ := ih h; exact ⟨i, by omega, by omega, hi.2.2⟩
  | case4 count position free _ _ ih => obtain ⟨i, hi⟩ := ih h; exact ⟨i, by omega, by omega, hi.2.2⟩

theorem found_of_mem_outermost {β : Type} {found? : Nat → Option β} {stop : β → Nat}
    {length : Nat} {b : β} (h : b ∈ outermost found? stop length) :
    ∃ i < length, found? i = some b := by
  obtain ⟨i, _, hi, hb⟩ := found_of_mem_outermostFrom h
  exact ⟨i, by omega, hb⟩

end DaxMigration.Formula
