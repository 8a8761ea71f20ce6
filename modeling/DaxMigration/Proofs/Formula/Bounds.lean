import DaxMigration.Proofs.Formula.Segments

/-!
# Bounds of recognized constructs

Whatever the lexemes are, well nested or not, the spans that recognition gives lie within them: those
of the constructs follow one another, and those of their parts are shorter than the list. Nothing is
assumed of the list, so the bounds hold as well for rows with text spliced into them.
-/

namespace DaxMigration.Formula

structure Span.Inside (s : Span) (length : Nat) : Prop where
  within : s.Within length
  shorter : s.length < length

theorem Span.Inside.of_stop {s : Span} {length : Nat} (h : s.start ≤ s.stop) (hStop : s.stop < length) :
    s.Inside length :=
  ⟨⟨h, hStop.le⟩, by rw [Span.length]; omega⟩

theorem Span.Inside.length_slice_lt {α : Type} {s : Span} {as : List α} (h : s.Inside as.length) :
    (s.slice as).length < as.length := by
  rw [Span.length_slice h.within]
  exact h.shorter

theorem lt_length_of_tokenAt {ls : List Lexeme} {i : Nat} {t : Token} (h : tokenAt ls i = some t) :
    i < ls.length := by
  rw [tokenAt, Option.map_eq_some_iff] at h
  obtain ⟨l, hAt, -⟩ := h
  exact (List.getElem?_eq_some_iff.1 hAt).1

/-! ## Pieces -/

theorem topLevelFrom_bounds {p : Token → Bool} {depth i j : Nat} {ls : List Lexeme}
    (h : j ∈ topLevelFrom p depth i ls) : i ≤ j ∧ j < i + ls.length := by
  fun_induction topLevelFrom p depth i ls with
  | case1 => simp at h
  | case2 depth i l rest _ ih | case3 depth i l rest _ _ ih | case5 depth i l rest _ _ _ ih =>
    have := ih h
    rw [List.length_cons]
    omega
  | case4 depth i l rest _ _ _ ih =>
    rw [List.length_cons]
    rcases List.mem_cons.1 h with rfl | h
    · omega
    · have := ih h
      omega

theorem topLevel_bounds {p : Token → Bool} {ls : List Lexeme} {s : Span} {j : Nat}
    (hWithin : s.Within ls.length) (h : j ∈ topLevel p ls s) : s.start ≤ j ∧ j < s.stop := by
  have hBounds := topLevelFrom_bounds h
  rw [Span.length_slice hWithin, Span.length] at hBounds
  have := hWithin.1
  omega

theorem pairwise_topLevelFrom (p : Token → Bool) (depth i : Nat) (ls : List Lexeme) :
    (topLevelFrom p depth i ls).Pairwise (· < ·) := by
  fun_induction topLevelFrom p depth i ls with
  | case1 => exact .nil
  | case2 depth i l rest _ ih | case3 depth i l rest _ _ ih | case5 depth i l rest _ _ _ ih => exact ih
  | case4 depth i l rest _ _ _ ih =>
    refine .cons (fun j hj => ?_) ih
    have := topLevelFrom_bounds hj
    omega

theorem bounds_of_mem_pieces {start stop : Nat} {seps : List Nat} (hOrder : start ≤ stop)
    (hSeps : ∀ j ∈ seps, start ≤ j ∧ j < stop) (hSorted : seps.Pairwise (· < ·)) {s : Span}
    (h : s ∈ pieces start stop seps) : start ≤ s.start ∧ s.start ≤ s.stop ∧ s.stop ≤ stop := by
  induction seps generalizing start with
  | nil =>
    obtain rfl : s = ⟨start, stop⟩ := by simpa [pieces] using h
    exact ⟨le_rfl, hOrder, le_rfl⟩
  | cons i seps ih =>
    obtain ⟨hFirst, hRest⟩ := List.forall_mem_cons.1 hSeps
    obtain ⟨hAfter, hSorted⟩ := List.pairwise_cons.1 hSorted
    rcases List.mem_cons.1 h with rfl | h
    · exact ⟨le_rfl, hFirst.1, hFirst.2.le⟩
    · have hNext : i + 1 ≤ stop := hFirst.2
      have := ih hNext (fun j hj => ⟨hAfter j hj, (hRest j hj).2⟩) hSorted h
      omega

theorem bounds_of_mem_splitTopLevel {ls : List Lexeme} {s piece : Span} (hWithin : s.Within ls.length)
    (h : piece ∈ splitTopLevel ls s) :
    s.start ≤ piece.start ∧ piece.start ≤ piece.stop ∧ piece.stop ≤ s.stop := by
  rw [splitTopLevel] at h
  split at h
  · exact bounds_of_mem_pieces hWithin.1 (fun j hj => topLevel_bounds hWithin hj)
      (pairwise_topLevelFrom _ _ _ _) h
  · cases h

theorem nextSignificant_bounds {ls : List Lexeme} {i j : Nat} (h : nextSignificant ls i = some j) :
    i ≤ j ∧ j < ls.length := by
  simp only [nextSignificant] at h
  split at h
  · obtain rfl := Option.some.inj h
    omega
  · cases h

/-! ## Brackets -/

/-- What a bracket encloses lies behind it and in front of its partner. -/
theorem enclosed_bounds {ls : List Lexeme} {i close : Nat} {opening : Token}
    (hOpening : tokenAt ls i = some opening) (hOpens : opening.opens = true)
    (h : matchingClose ls i = some close) : i + 1 ≤ close ∧ close < ls.length := by
  obtain ⟨_, inner, _, _, -, -, -, -, hClose⟩ := drop_eq_of_matchingClose hOpening hOpens h
  exact ⟨by omega, (matchingClose_bounds h).2⟩

theorem paren_of_isCallAt {ls : List Lexeme} {i : Nat} (h : isCallAt ls i = true) :
    ∃ opening, nextSignificant ls (i + 1) = some opening ∧ tokenAt ls opening = some .lparen := by
  rw [isCallAt] at h
  split at h
  case h_2 => cases h
  rename_i l rest hAt
  have hRest : ls.drop (i + 1) = rest := drop_of_drop (a := [l]) hAt
  have hParen : (rest.dropWhile Lexeme.isComment).head?.map Lexeme.token = some .lparen := by
    simpa [followedByParen] using (Bool.and_eq_true_iff.1 h).2
  have hSplit : ls.drop (i + 1) = rest.takeWhile Lexeme.isComment ++ rest.dropWhile Lexeme.isComment := by
    rw [List.takeWhile_append_dropWhile, hRest]
  have hToken : tokenAt ls (i + 1 + (rest.takeWhile Lexeme.isComment).length) = some .lparen := by
    rw [tokenAt, ← List.head?_drop, drop_of_drop hSplit, hParen]
  refine ⟨_, ?_, hToken⟩
  simp only [nextSignificant, hRest]
  rw [if_pos (lt_length_of_tokenAt hToken)]

/-! ## Level of detail -/

structure FoundAt (ls : List Lexeme) (i : Nat) (s : Span) : Prop where
  start : s.start = i
  advances : i < s.stop
  within : s.stop ≤ ls.length

theorem FoundAt.start_lt {ls : List Lexeme} {i : Nat} {s : Span} (h : FoundAt ls i s) :
    s.start < ls.length := by
  rw [h.start]
  exact lt_of_lt_of_le h.advances h.within

theorem ordered_of_foundAt {β : Type} {ls : List Lexeme} {found? : Nat → Option β} {span : β → Span}
    (h : ∀ i b, found? i = some b → FoundAt ls i (span b)) (count : Nat) :
    Ordered ls.length 0 ((outermost found? (fun b => (span b).stop) count).map span) :=
  ordered_outermost (fun i b hb => ⟨(h i b hb).start, (h i b hb).advances, (h i b hb).within⟩) count

def lodHeadAt? (ls : List Lexeme) (start : Nat) : Option Span := do
  let close ← matchingClose ls start
  let colon ← (topLevel (· == .colon) ls ⟨start + 1, close⟩).head?
  return ⟨start + 1, colon⟩

theorem lodHead_within {ls : List Lexeme} {i : Nat} {s : Span} (hOpening : tokenAt ls i = some .lbrace)
    (h : lodHeadAt? ls i = some s) : s.Within ls.length := by
  obtain ⟨close, hClose, h⟩ := Option.bind_eq_some_iff.1 h
  obtain ⟨colon, hColon, h⟩ := Option.bind_eq_some_iff.1 h
  obtain rfl := Option.some.inj h
  obtain ⟨hOrder, hLength⟩ := enclosed_bounds hOpening rfl hClose
  obtain ⟨hFirst, hLast⟩ := topLevel_bounds ⟨hOrder, hLength.le⟩ (List.mem_of_mem_head? hColon)
  exact ⟨hFirst, (hLast.trans hLength).le⟩

structure LodBlock.Bounded (ls : List Lexeme) (i : Nat) (b : LodBlock) : Prop where
  located : FoundAt ls i b.span
  inner : b.inner.Inside ls.length
  dimensions : ∀ d ∈ b.dimensions, d.Within ls.length

theorem within_of_mem_lodHead {ls : List Lexeme} {s d : Span} (hWithin : s.Within ls.length)
    (h : d ∈ (lodHead ls s).2) : d.Within ls.length := by
  rw [lodHead] at h
  split at h
  · cases h
  rename_i i hNext
  split at h
  · cases h
  rename_i hBefore
  split at h
  · have hRest : (Span.mk (i + 1) s.stop).Within ls.length := ⟨not_le.1 hBefore, hWithin.2⟩
    have hPiece := bounds_of_mem_splitTopLevel hRest h
    exact ⟨hPiece.2.1, hPiece.2.2.trans hWithin.2⟩
  · cases h

theorem bounded_of_parseLod {ls : List Lexeme} {i : Nat} {b : LodBlock}
    (hOpening : tokenAt ls i = some .lbrace) (h : parseLod ls i = .ok b) : b.Bounded ls i := by
  rw [parseLod] at h
  split at h
  · cases h
  rename_i close hClose
  obtain ⟨hOrder, hLength⟩ := enclosed_bounds hOpening rfl hClose
  split at h
  · cases h
  simp only at h
  split at h
  · split at h
    case isFalse => cases h
    cases h
    exact ⟨⟨rfl, by simp; omega, hLength⟩, .of_stop hOrder hLength, by simp⟩
  · rename_i colon colons hColons
    obtain ⟨hFirst, hLast⟩ := topLevel_bounds (p := (· == .colon)) (j := colon)
      (s := ⟨i + 1, close⟩) ⟨hOrder, hLength.le⟩ (by simp [hColons])
    split at h
    case isFalse => cases h
    cases h
    refine ⟨⟨rfl, by simp; omega, hLength⟩, .of_stop hLast hLength, fun d hd => ?_⟩
    exact within_of_mem_lodHead ⟨hFirst, (hLast.trans hLength).le⟩ (List.mem_of_mem_filter hd)

theorem bounded_of_lodAt {ls : List Lexeme} {i : Nat} {b : LodBlock} (h : lodAt? ls i = some b) :
    b.Bounded ls i := by
  obtain ⟨hOpening, hParse⟩ := parseLod_of_lodAt h
  exact bounded_of_parseLod hOpening hParse

/-! ## Conditionals -/

structure Conditional.Bounded (ls : List Lexeme) (i : Nat) (c : Conditional) : Prop where
  located : FoundAt ls i c.span
  parts : ∀ s ∈ c.parts, s.Inside ls.length

theorem SegmentAt.inside {ls : List Lexeme} {start i : Nat} {k : Keyword}
    (h : SegmentAt ls ⟨start, i⟩) (hWord : KeywordAt ls i k) : (Span.mk start i).Inside ls.length :=
  .of_stop h.within.1 (lt_length_of_tokenAt hWord)

theorem ClausesAt.bounds {ls : List Lexeme} {form : Form} {start stop : Nat} {c : Clauses}
    (h : ClausesAt ls form start c stop) :
    start ≤ stop ∧ stop < ls.length ∧ ∀ s ∈ c.spans, s.Inside ls.length := by
  induction h with
  | last hCondition hThen hValue hEnd =>
    have hOrder := hCondition.within.1.trans (Nat.le_of_succ_le hValue.within.1)
    refine ⟨hOrder, lt_length_of_tokenAt hEnd, ?_⟩
    simp [Clauses.spans, Clauses.branches, hCondition.inside hThen, hValue.inside hEnd]
  | otherwise hCondition hThen hValue hElse hFallback hEnd =>
    have hOrder := hCondition.within.1.trans ((Nat.le_of_succ_le hValue.within.1).trans
      (Nat.le_of_succ_le hFallback.within.1))
    refine ⟨hOrder, lt_length_of_tokenAt hEnd, ?_⟩
    simp [Clauses.spans, Clauses.branches, hCondition.inside hThen, hValue.inside hElse,
      hFallback.inside hEnd]
  | more hCondition hThen hValue hAgain _ ih =>
    obtain ⟨hOrder, hLength, hSpans⟩ := ih
    have hFirst := hCondition.within.1.trans (Nat.le_of_succ_le hValue.within.1)
    refine ⟨hFirst.trans (Nat.le_of_succ_le hOrder), hLength, ?_⟩
    intro s hs
    simp only [Clauses.spans, Clauses.branches, List.flatMap_cons, List.cons_append,
      List.nil_append, List.mem_cons] at hs
    rcases hs with rfl | rfl | hs
    · exact hCondition.inside hThen
    · exact hValue.inside hAgain
    · exact hSpans s (by simpa [Clauses.spans, Clauses.branches] using hs)

theorem ClausesAt.endWord {ls : List Lexeme} {form : Form} {start stop : Nat} {c : Clauses}
    (h : ClausesAt ls form start c stop) : KeywordAt ls stop .endWord := by
  induction h with
  | last _ _ _ hEnd => exact hEnd
  | otherwise _ _ _ _ _ hEnd => exact hEnd
  | more _ _ _ _ _ ih => exact ih

theorem bounded_of_conditionalAt {ls : List Lexeme} {i : Nat} {c : Conditional}
    (h : conditionalAt? ls i = some c) : c.Bounded ls i := by
  obtain ⟨_, -, ⟨-, hIf⟩ | ⟨-, hCase⟩⟩ := parse_of_conditionalAt h
  · obtain ⟨hClauses⟩ := parseIf_eq_ok_iff.1 hIf
    obtain ⟨hOrder, hLength, hSpans⟩ := hClauses.bounds
    exact ⟨⟨rfl, by simp [Conditional.span]; omega, hLength⟩, hSpans⟩
  · obtain ⟨hSubject, hWhen, hClauses⟩ := parseCase_eq_ok_iff.1 hCase
    obtain ⟨hOrder, hLength, hSpans⟩ := hClauses.bounds
    have hFirst := hSubject.within.1
    refine ⟨⟨rfl, by simp at hFirst; simp [Conditional.span]; omega, hLength⟩, ?_⟩
    exact List.forall_mem_cons.2 ⟨hSubject.inside hWhen, hSpans⟩

/-! ## Calls -/

structure Call.Bounded (ls : List Lexeme) (i : Nat) (c : Call) : Prop where
  located : FoundAt ls i c.span
  args : ∀ s ∈ c.args, s.Inside ls.length
  opening : i ≤ (nextSignificant ls (i + 1)).getD (i + 1)
  enclosed : (Span.mk ((nextSignificant ls (i + 1)).getD (i + 1) + 1) (c.span.stop - 1)).Inside ls.length

theorem bounded_of_parseCall {ls : List Lexeme} {i : Nat} {c : Call} (h : parseCall ls i = .ok c) :
    c.Bounded ls i := by
  rw [parseCall] at h
  split at h
  case h_2 => cases h
  split at h
  case isFalse => cases h
  rename_i hCall
  obtain ⟨opening, hNext, hParen⟩ := paren_of_isCallAt hCall
  simp only [hNext, Option.getD_some] at h
  split at h
  case h_2 => cases h
  rename_i close hClose
  split at h
  case isFalse => cases h
  cases h
  obtain ⟨hOrder, hLength⟩ := enclosed_bounds hParen rfl hClose
  have hAfter := nextSignificant_bounds hNext
  refine ⟨⟨rfl, by simp; omega, hLength⟩, fun s hs => ?_, by simp [hNext]; omega, ?_⟩
  · obtain ⟨-, hPiece, hStop⟩ := bounds_of_mem_splitTopLevel ⟨hOrder, hLength.le⟩ hs
    exact .of_stop hPiece (lt_of_le_of_lt hStop hLength)
  · rw [hNext]
    exact .of_stop hOrder hLength

theorem bounded_of_callAt {wanted : List Char → Bool} {ls : List Lexeme} {i : Nat} {c : Call}
    (h : callAt? wanted ls i = some c) : c.Bounded ls i := by
  obtain ⟨_, -, -, hParse⟩ := parseCall_of_callAt h
  exact bounded_of_parseCall hParse

/-- The parentheses of a call. -/
theorem parens_of_callAt {wanted : List Char → Bool} {ls : List Lexeme} {i : Nat} {c : Call}
    (h : callAt? wanted ls i = some c) :
    ∃ opening, nextSignificant ls (i + 1) = some opening ∧ tokenAt ls opening = some .lparen ∧
      tokenAt ls (c.span.stop - 1) = some .rparen := by
  obtain ⟨_, -, -, hParse⟩ := parseCall_of_callAt h
  rw [parseCall] at hParse
  split at hParse
  case h_2 => cases hParse
  split at hParse
  case isFalse => cases hParse
  rename_i hCall
  obtain ⟨opening, hNext, hParen⟩ := paren_of_isCallAt hCall
  simp only at hParse
  split at hParse
  case h_2 => cases hParse
  split at hParse
  case isFalse => cases hParse
  rename_i hClosing
  cases hParse
  exact ⟨opening, hNext, hParen, hClosing⟩

end DaxMigration.Formula
