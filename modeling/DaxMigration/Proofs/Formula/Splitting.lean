import DaxMigration.Proofs.Formula.Windows

/-!
# Splitting at commas

A span is cut at the commas outside all brackets that it opens before them, where a bracket that
closes none of these leaves the depth at zero. The pieces follow one another with one such comma
between neighbours, and none is left inside a piece, whose brackets are counted from its own start.
-/

namespace DaxMigration.Formula

/-! ## Depth -/

def Lexeme.nest (depth : Nat) (l : Lexeme) : Nat :=
  if l.token.opens then depth + 1
  else if l.token.closes then depth - 1
  else depth

/-- The depth in front of position `i`, counted from position `start` on. -/
def depthAt (ls : List Lexeme) (start i : Nat) : Nat :=
  ((Span.mk start i).slice ls).foldl Lexeme.nest 0

def IsOuterComma (ls : List Lexeme) (start i : Nat) : Prop :=
  tokenAt ls i = some .comma ∧ depthAt ls start i = 0

instance (ls : List Lexeme) (start i : Nat) : Decidable (IsOuterComma ls start i) :=
  inferInstanceAs (Decidable (_ ∧ _))

variable {ls : List Lexeme} {s : Span}

theorem depthAt_self (ls : List Lexeme) (i : Nat) : depthAt ls i i = 0 := by
  have hNone : (Span.mk i i).slice ls = [] := List.drop_take_self
  rw [depthAt, hNone]
  rfl

/-- Where the depth is zero, it may as well be counted from there. -/
theorem depthAt_of_zero {start middle i : Nat} (hFirst : start ≤ middle) (hLast : middle ≤ i)
    (hZero : depthAt ls start middle = 0) : depthAt ls start i = depthAt ls middle i := by
  have hSplit : (Span.mk start i).slice ls =
      (Span.mk start middle).slice ls ++ (Span.mk middle i).slice ls := by
    have hMiddle : (ls.take i).take middle = ls.take middle := by
      rw [List.take_take, min_eq_left hLast]
    have hParts := slice_append_drop hFirst (ls.take i)
    rw [Span.slice, hMiddle] at hParts
    exact hParts.symm
  rw [depthAt, hSplit, List.foldl_append]
  exact congrArg (List.foldl Lexeme.nest · _) hZero

/-- A comma does not change the depth. -/
theorem IsOuterComma.depthAt_succ {start i : Nat} (hOrder : start ≤ i) (h : IsOuterComma ls start i) :
    depthAt ls start (i + 1) = 0 := by
  obtain ⟨hComma, hDepth⟩ := h
  obtain ⟨l, hToken, hAt⟩ := drop_eq_cons_of_tokenAt hComma
  have hThis : (Span.mk i (i + 1)).slice ls = [l] := slice_of_drop (a := [l]) hAt
  rw [depthAt_of_zero hOrder (Nat.le_succ i) hDepth, depthAt, hThis]
  simp [Lexeme.nest, hToken, Token.opens, Token.closes]

/-! ## Where a span is cut -/

theorem topLevelFrom_eq_filter (depth i : Nat) (ls : List Lexeme) :
    topLevelFrom (· == .comma) depth i ls =
      (List.range' i ls.length).filter fun j =>
        decide (tokenAt ls (j - i) = some .comma ∧ (ls.take (j - i)).foldl Lexeme.nest depth = 0) := by
  induction ls generalizing depth i with
  | nil => rfl
  | cons l ls ih =>
    have hRest : ∀ j ∈ List.range' (i + 1) ls.length,
        decide (tokenAt (l :: ls) (j - i) = some .comma ∧
            ((l :: ls).take (j - i)).foldl Lexeme.nest depth = 0) =
          decide (tokenAt ls (j - (i + 1)) = some .comma ∧
            (ls.take (j - (i + 1))).foldl Lexeme.nest (l.nest depth) = 0) := by
      intro j hj
      have hStep : j - i = j - (i + 1) + 1 := by
        have := (List.mem_range'_1.1 hj).1
        omega
      rw [hStep]
      rfl
    rw [List.length_cons, List.range'_succ, List.filter_cons, List.filter_congr hRest, ← ih,
      topLevelFrom, Nat.sub_self]
    cases hToken : l.token <;>
      simp [Lexeme.nest, hToken, Token.opens, Token.closes, tokenAt]

/-- A span is cut at just its commas outside all brackets. -/
theorem topLevel_eq_filter (hWithin : s.Within ls.length) :
    topLevel (· == .comma) ls s =
      (List.range' s.start s.length).filter (IsOuterComma ls s.start ·) := by
  rw [topLevel, topLevelFrom_eq_filter, Span.length_slice hWithin]
  refine List.filter_congr fun j hj => ?_
  have hBounds : s.start ≤ j ∧ j < s.stop := by
    have := List.mem_range'_1.1 hj
    rw [Span.length] at this
    omega
  have hBack : j - s.start + s.start = j := Nat.sub_add_cancel hBounds.1
  have hToken : tokenAt (s.slice ls) (j - s.start) = tokenAt ls j := by
    rw [tokenAt_slice hWithin (by rw [hBack]; exact hBounds.2), hBack]
  have hFront : (s.slice ls).take (j - s.start) = (Span.mk s.start j).slice ls := by
    have hStop : j - s.start + s.start ≤ s.stop := by
      rw [hBack]
      exact hBounds.2.le
    have hSlice : (Span.mk 0 (j - s.start)).slice (s.slice ls) =
        (Span.mk (0 + s.start) (j - s.start + s.start)).slice ls := slice_slice hStop ls
    rwa [Nat.zero_add, hBack] at hSlice
  rw [hToken, hFront]
  rfl

theorem mem_topLevel_iff (hWithin : s.Within ls.length) {i : Nat} :
    i ∈ topLevel (· == .comma) ls s ↔ (s.start ≤ i ∧ i < s.stop) ∧ IsOuterComma ls s.start i := by
  have hOrder := hWithin.1
  rw [topLevel_eq_filter hWithin, List.mem_filter, List.mem_range'_1, Span.length,
    Nat.add_sub_of_le hOrder, decide_eq_true_iff]

/-! ## Consecutive spans -/

/-- The spans run from `start` to `stop`, with one position between neighbours, at which something
that satisfies `p` stands. -/
inductive Consecutive (p : Nat → Prop) : (start stop : Nat) → List Span → Prop
  | last {start stop : Nat} (hOrder : start ≤ stop) : Consecutive p start stop [⟨start, stop⟩]
  | more {start i stop : Nat} {rest : List Span} (hOrder : start ≤ i) (hBetween : p i)
      (hRest : Consecutive p (i + 1) stop rest) : Consecutive p start stop (⟨start, i⟩ :: rest)

theorem consecutive_pieces {p : Nat → Prop} {start stop : Nat} {seps : List Nat}
    (hOrder : start ≤ stop) (hSeps : ∀ j ∈ seps, (start ≤ j ∧ j < stop) ∧ p j)
    (hSorted : seps.Pairwise (· < ·)) : Consecutive p start stop (pieces start stop seps) := by
  induction seps generalizing start with
  | nil => exact .last hOrder
  | cons i seps ih =>
    obtain ⟨⟨hBounds, hFirst⟩, hRest⟩ := List.forall_mem_cons.1 hSeps
    obtain ⟨hAfter, hSorted⟩ := List.pairwise_cons.1 hSorted
    exact .more hBounds.1 hFirst
      (ih hBounds.2 (fun j hj => ⟨⟨hAfter j hj, (hRest j hj).1.2⟩, (hRest j hj).2⟩) hSorted)

/-- A piece begins where the whole does or behind a separator, and holds none. -/
theorem seps_of_mem_pieces {start stop : Nat} {seps : List Nat} (hSorted : seps.Pairwise (· < ·))
    {piece : Span} (h : piece ∈ pieces start stop seps) :
    (piece.start = start ∨ ∃ j ∈ seps, piece.start = j + 1) ∧
      ∀ j ∈ seps, piece.start ≤ j → piece.stop ≤ j := by
  induction seps generalizing start with
  | nil =>
    obtain rfl : piece = ⟨start, stop⟩ := by simpa [pieces] using h
    exact ⟨.inl rfl, by simp⟩
  | cons i seps ih =>
    obtain ⟨hAfter, hSorted⟩ := List.pairwise_cons.1 hSorted
    rcases List.mem_cons.1 h with rfl | h
    · refine ⟨.inl rfl, fun j hj _ => ?_⟩
      rcases List.mem_cons.1 hj with rfl | hj
      · exact le_rfl
      · exact (hAfter j hj).le
    · obtain ⟨hStart, hInside⟩ := ih hSorted h
      have hBehind : i < piece.start := by
        rcases hStart with hStart | ⟨j, hj, hStart⟩
        · omega
        · have := hAfter j hj
          omega
      refine ⟨.inr ?_, List.forall_mem_cons.2 ⟨fun hLate => absurd hBehind hLate.not_gt, hInside⟩⟩
      rcases hStart with hStart | ⟨j, hj, hStart⟩
      · exact ⟨i, List.mem_cons_self, hStart⟩
      · exact ⟨j, List.mem_cons_of_mem _ hj, hStart⟩

/-! ## Pieces of a span -/

theorem splitTopLevel_of_filled (h : ∃ l ∈ s.slice ls, l.isComment = false) :
    splitTopLevel ls s = pieces s.start s.stop (topLevel (· == .comma) ls s) :=
  if_pos (isFilled_iff.2 h)

/-- No comma is left outside the brackets of a piece, counted from where the piece begins. -/
theorem not_isOuterComma_of_mem_pieces (hWithin : s.Within ls.length) {piece : Span}
    (h : piece ∈ pieces s.start s.stop (topLevel (· == .comma) ls s)) {i : Nat}
    (hFirst : piece.start ≤ i) (hLast : i < piece.stop) : ¬IsOuterComma ls piece.start i := by
  have hSorted := pairwise_topLevelFrom (· == .comma) 0 s.start (s.slice ls)
  obtain ⟨hStart, hInside⟩ := seps_of_mem_pieces hSorted h
  obtain ⟨hLow, -, hHigh⟩ :=
    bounds_of_mem_pieces hWithin.1 (fun j hj => topLevel_bounds hWithin hj) hSorted h
  have hZero : depthAt ls s.start piece.start = 0 := by
    rcases hStart with hStart | ⟨j, hj, hStart⟩
    · rw [hStart]
      exact depthAt_self ls s.start
    · obtain ⟨⟨hOrder, -⟩, hComma⟩ := (mem_topLevel_iff hWithin).1 hj
      rw [hStart]
      exact hComma.depthAt_succ hOrder
  rintro ⟨hComma, hDepth⟩
  rw [← depthAt_of_zero hLow hFirst hZero] at hDepth
  have hMem : i ∈ topLevel (· == .comma) ls s :=
    (mem_topLevel_iff hWithin).2 ⟨⟨hLow.trans hFirst, hLast.trans_le hHigh⟩, hComma, hDepth⟩
  exact absurd (hInside i hMem hFirst) hLast.not_ge

/-- A span that no comma parts is its only piece. -/
theorem splitTopLevel_of_unparted (hWithin : s.Within ls.length)
    (hFilled : ∃ l ∈ s.slice ls, l.isComment = false)
    (hNone : ∀ i, s.start ≤ i → i < s.stop → ¬IsOuterComma ls s.start i) :
    splitTopLevel ls s = [s] := by
  have hCuts : topLevel (· == .comma) ls s = [] := by
    refine List.eq_nil_iff_forall_not_mem.2 fun i hi => ?_
    obtain ⟨⟨hFirst, hLast⟩, hComma⟩ := (mem_topLevel_iff hWithin).1 hi
    exact hNone i hFirst hLast hComma
  rw [splitTopLevel_of_filled hFilled, hCuts]
  rfl

/-- Whatever its brackets, a span is parted by its commas outside of them: the pieces run from its
start to its stop with one such comma between neighbours, there is one more of them than there are
such commas, and none is left in a piece. A span of comments has no pieces. -/
theorem splitTopLevel_partition (hWithin : s.Within ls.length) :
    ((∃ l ∈ s.slice ls, l.isComment = false) →
      Consecutive (IsOuterComma ls s.start) s.start s.stop (splitTopLevel ls s) ∧
      (splitTopLevel ls s).length =
        (List.range' s.start s.length).countP (IsOuterComma ls s.start ·) + 1 ∧
      ∀ piece ∈ splitTopLevel ls s,
        (∀ i, piece.start ≤ i → i < piece.stop → ¬IsOuterComma ls piece.start i) ∧
        ((∃ l ∈ piece.slice ls, l.isComment = false) → splitTopLevel ls piece = [piece])) ∧
    ((∀ l ∈ s.slice ls, l.isComment = true) → splitTopLevel ls s = []) := by
  constructor
  · intro hFilled
    have hSorted := pairwise_topLevelFrom (· == .comma) 0 s.start (s.slice ls)
    have hSplit := splitTopLevel_of_filled hFilled
    refine ⟨?_, ?_, fun piece hPiece => ?_⟩
    · rw [hSplit]
      exact consecutive_pieces hWithin.1 (fun j hj => (mem_topLevel_iff hWithin).1 hj) hSorted
    · rw [hSplit, length_pieces, topLevel_eq_filter hWithin, List.countP_eq_length_filter]
    · obtain ⟨-, hOrder, hStop⟩ := bounds_of_mem_splitTopLevel hWithin hPiece
      rw [hSplit] at hPiece
      have hNone := fun i => @not_isOuterComma_of_mem_pieces _ _ hWithin _ hPiece i
      exact ⟨hNone, fun hText =>
        splitTopLevel_of_unparted ⟨hOrder, hStop.trans hWithin.2⟩ hText hNone⟩
  · intro hComments
    refine if_neg fun hFilled => ?_
    obtain ⟨l, hl, hNot⟩ := isFilled_iff.1 hFilled
    rw [hComments l hl] at hNot
    cases hNot

/-- A bracket closes that nothing opened, one closes another kind, a piece holds only a comment, and
two brackets stay open. -/
theorem splitTopLevel_partition_stray :
    let ls := tokenize "a), b(c, d\x7d, /* e */, ((f, g".toList
    let s : Span := ⟨0, ls.length⟩
    let parts : List Span := [⟨0, 2⟩, ⟨3, 9⟩, ⟨10, 11⟩, ⟨12, 17⟩]
    s.Within ls.length ∧ (∃ l ∈ s.slice ls, l.isComment = false) ∧ splitTopLevel ls s = parts ∧
      Consecutive (IsOuterComma ls 0) 0 ls.length parts ∧
      parts.length = (List.range' 0 ls.length).countP (IsOuterComma ls 0 ·) + 1 ∧
      splitTopLevel ls ⟨3, 9⟩ = [⟨3, 9⟩] ∧ splitTopLevel ls ⟨10, 11⟩ = [] := by
  intro ls s parts
  have hWithin : s.Within ls.length := ⟨Nat.zero_le _, le_rfl⟩
  have hFilled : ∃ l ∈ s.slice ls, l.isComment = false := by decide +kernel
  have hSplit : splitTopLevel ls s = parts := by decide +kernel
  obtain ⟨hConsecutive, hCount, hPieces⟩ := (splitTopLevel_partition hWithin).1 hFilled
  rw [hSplit] at hConsecutive hCount hPieces
  have hAgain := (hPieces ⟨3, 9⟩ (by decide)).2 (by decide +kernel)
  have hComments := (@splitTopLevel_partition ls ⟨10, 11⟩ (by decide +kernel)).2 (by decide +kernel)
  exact ⟨hWithin, hFilled, hSplit, hConsecutive, hCount, hAgain, hComments⟩

end DaxMigration.Formula
