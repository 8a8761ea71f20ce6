import DaxMigration.Proofs.Formula.Bounds

/-!
# Recognition in a window

What is recognized in a slice of a row is what is recognized in the whole row and lies within the
slice, with its positions counted from where the slice begins.
-/

namespace DaxMigration.Formula

def LodBlock.shift (b : LodBlock) (n : Nat) : LodBlock :=
  ⟨b.span.shift n, b.keyword, b.dimensions.map (·.shift n), b.inner.shift n⟩

def Branch.shift (b : Branch) (n : Nat) : Branch :=
  ⟨b.condition.shift n, b.value.shift n⟩

def Clauses.shift (c : Clauses) (n : Nat) : Clauses :=
  ⟨c.first.shift n, c.others.map (·.shift n), c.otherwise.map (·.shift n)⟩

def Conditional.shift : Conditional → Nat → Conditional
  | ifBlock span clauses, n => .ifBlock (span.shift n) (clauses.shift n)
  | caseBlock span subject clauses, n => .caseBlock (span.shift n) (subject.shift n) (clauses.shift n)

variable {ls : List Lexeme} {window : Span}

/-! ## Searches -/

/-- What comes next is the first lexeme that is no comment. -/
theorem nextSignificant_eq_some_iff {i j : Nat} :
    nextSignificant ls i = some j ↔
      i ≤ j ∧ (∀ l ∈ (Span.mk i j).slice ls, l.isComment = true) ∧
        ∃ t, tokenAt ls j = some t ∧ t.isComment = false := by
  have hSplit := (List.takeWhile_append_dropWhile (p := Lexeme.isComment) (l := ls.drop i)).symm
  constructor
  · intro h
    simp only [nextSignificant] at h
    split at h
    case isFalse => cases h
    rename_i hLess
    obtain rfl := Option.some.inj h
    refine ⟨Nat.le_add_right i _, ?_, ?_⟩
    · rw [slice_of_drop hSplit]
      exact fun l hl => List.mem_takeWhile_imp hl
    · have hAt := drop_of_drop hSplit
      cases hRest : (ls.drop i).dropWhile Lexeme.isComment with
      | nil =>
        rw [hRest, List.drop_eq_nil_iff] at hAt
        omega
      | cons l rest =>
        rw [hRest] at hAt
        have hFilled : (ls.drop i).dropWhile Lexeme.isComment ≠ [] := by rw [hRest]; simp
        have hNot := List.head_dropWhile_not Lexeme.isComment hFilled
        simp only [hRest, List.head_cons] at hNot
        exact ⟨l.token, tokenAt_of_drop hAt, hNot⟩
  · rintro ⟨hOrder, hComments, t, hToken, hNot⟩
    obtain ⟨l, rfl, hAt⟩ := drop_eq_cons_of_tokenAt hToken
    have hTaken : (ls.drop i).takeWhile Lexeme.isComment = (Span.mk i j).slice ls := by
      rw [← slice_append_drop hOrder ls, List.takeWhile_append_of_pos hComments, hAt,
        List.takeWhile_cons_of_neg (by simpa [Lexeme.isComment] using hNot), List.append_nil]
    have hLess := lt_length_of_tokenAt hToken
    simp only [nextSignificant, hTaken, Span.length_slice (s := ⟨i, j⟩) ⟨hOrder, hLess.le⟩, Span.length,
      Nat.add_sub_of_le hOrder, if_pos hLess]

/-- A partner is found in the front of a list as it is found in the list, if it stands there. -/
theorem closeFrom_iff_append {depth i j : Nat} {a : List Lexeme} (b : List Lexeme) :
    closeFrom depth i a = some j ↔ closeFrom depth i (a ++ b) = some j ∧ j < i + a.length := by
  induction a generalizing depth i with
  | nil =>
    constructor
    · intro h
      cases h
    · rintro ⟨h, hLess⟩
      have := closeFrom_bounds h
      simp only [List.length_nil] at hLess
      omega
  | cons l a ih =>
    have hShift : i + (l :: a).length = i + 1 + a.length := by simp; omega
    rw [hShift, List.cons_append, closeFrom.eq_def, closeFrom.eq_def]
    cases hOpens : l.token.opens with
    | true => simpa only [hOpens, if_true] using ih
    | false =>
      cases hCloses : l.token.closes with
      | false => simpa only [hOpens, hCloses, Bool.false_eq_true, if_false] using ih
      | true =>
        simp only [hOpens, hCloses, Bool.false_eq_true, if_false, if_true]
        cases depth with
        | zero => simp
        | succ depth =>
          cases depth with
          | zero => simp; omega
          | succ depth => exact ih

/-- A block ends behind the partner of its bracket. -/
theorem closing_of_parseLod {i : Nat} {b : LodBlock} (h : parseLod ls i = .ok b) :
    ∃ close, matchingClose ls i = some close ∧ tokenAt ls close = some .rbrace ∧
      b.span = ⟨i, close + 1⟩ := by
  rw [parseLod] at h
  split at h
  · cases h
  rename_i close hClose
  split at h
  · cases h
  rename_i hClosing
  refine ⟨close, hClose, not_not.1 hClosing, ?_⟩
  simp only at h
  split at h
  all_goals
    split at h
    · cases h
      rfl
    · cases h

theorem conditionalAt_eq_some_iff {i : Nat} {c : Conditional} :
    conditionalAt? ls i = some c ↔
      tokenAt ls i = some (.identifier "IF".toList) ∧ IfAt ls i c ∨
        tokenAt ls i = some (.identifier "CASE".toList) ∧ CaseAt ls i c := by
  constructor
  · intro h
    obtain ⟨t, hToken, ⟨hWord, hIf⟩ | ⟨hWord, hCase⟩⟩ := parse_of_conditionalAt h
    · rw [Token.isWord_iff.1 hWord] at hToken
      exact .inl ⟨hToken, parseIf_eq_ok_iff.1 hIf⟩
    · rw [Token.isWord_iff.1 hWord] at hToken
      exact .inr ⟨hToken, parseCase_eq_ok_iff.1 hCase⟩
  · rintro (⟨hToken, hIf⟩ | ⟨hToken, hCase⟩)
    · rw [conditionalAt?, hToken, parseIf_eq_ok_iff.2 hIf]
      rfl
    · rw [conditionalAt?, hToken, parseCase_eq_ok_iff.2 hCase]
      rfl

/-- A conditional ends behind its `END`. -/
theorem endWord_of_conditionalAt {i : Nat} {c : Conditional} (h : conditionalAt? ls i = some c) :
    ∃ stop, KeywordAt ls stop .endWord ∧ c.span.stop = stop + 1 := by
  rcases conditionalAt_eq_some_iff.1 h with ⟨-, ⟨hClauses⟩⟩ | ⟨-, ⟨-, -, hClauses⟩⟩
  · exact ⟨_, hClauses.endWord, rfl⟩
  · exact ⟨_, hClauses.endWord, rfl⟩

/-! ## Slices of a slice -/

theorem slice_slice {α : Type} {s : Span} (h : s.stop + window.start ≤ window.stop) (as : List α) :
    s.slice (window.slice as) = (s.shift window.start).slice as := by
  simp only [Span.slice, Span.shift, List.take_drop, List.drop_drop, List.take_take,
    Nat.add_comm window.start, min_eq_left h]

theorem drop_slice {α : Type} {i : Nat} (h : i + window.start ≤ window.stop) (as : List α) :
    (window.slice as).drop i ++ as.drop window.stop = as.drop (i + window.start) := by
  have hStart : window.slice as = (Span.mk window.start window.stop).slice as := rfl
  rw [hStart, Span.slice, List.drop_drop, Nat.add_comm window.start]
  exact slice_append_drop h as

theorem isFilled_slice {s : Span} (h : s.stop + window.start ≤ window.stop) :
    isFilled ls (s.shift window.start) = isFilled (window.slice ls) s := by
  rw [isFilled, isFilled, slice_slice h]

theorem topLevel_slice {p : Token → Bool} {s : Span} (h : s.stop + window.start ≤ window.stop) :
    topLevel p ls (s.shift window.start) =
      (topLevel p (window.slice ls) s).map (· + window.start) := by
  rw [topLevel, topLevel, slice_slice h]
  exact topLevelFrom_shift p 0 s.start window.start _

theorem pieces_shift (start stop n : Nat) (separators : List Nat) :
    pieces (start + n) (stop + n) (separators.map (· + n)) =
      (pieces start stop separators).map (·.shift n) := by
  induction separators generalizing start with
  | nil => rfl
  | cons i rest ih =>
    rw [List.map_cons, pieces, pieces, List.map_cons, Nat.add_right_comm, ih]
    rfl

theorem splitTopLevel_slice {s : Span} (h : s.stop + window.start ≤ window.stop) :
    splitTopLevel ls (s.shift window.start) =
      (splitTopLevel (window.slice ls) s).map (·.shift window.start) := by
  rw [splitTopLevel, splitTopLevel, isFilled_slice h, topLevel_slice h]
  split
  · exact pieces_shift s.start s.stop window.start _
  · rfl

section

variable (hWindow : window.Within ls.length)

include hWindow

theorem length_window : (window.slice ls).length + window.start = window.stop := by
  rw [Span.length_slice hWindow, Span.length]
  exact Nat.sub_add_cancel hWindow.1

theorem tokenAt_slice {i : Nat} (h : i + window.start < window.stop) :
    tokenAt (window.slice ls) i = tokenAt ls (i + window.start) := by
  have hLess : i < (window.slice ls).length := by
    have := length_window hWindow
    omega
  rw [tokenAt, tokenAt, ← List.head?_drop, ← List.head?_drop, ← drop_slice h.le,
    List.head?_append_of_ne_nil]
  simpa using hLess

theorem tokenAt_slice_iff {i : Nat} {t : Token} :
    tokenAt (window.slice ls) i = some t ↔
      tokenAt ls (i + window.start) = some t ∧ i + window.start < window.stop := by
  have hLength := length_window hWindow
  constructor
  · intro h
    have hLess : i + window.start < window.stop := by
      have := lt_length_of_tokenAt h
      omega
    exact ⟨by rw [← tokenAt_slice hWindow hLess, h], hLess⟩
  · rintro ⟨h, hLess⟩
    rw [tokenAt_slice hWindow hLess, h]

theorem nextSignificant_slice {i j : Nat} :
    nextSignificant (window.slice ls) i = some j ↔
      nextSignificant ls (i + window.start) = some (j + window.start) ∧
        j + window.start < window.stop := by
  simp only [nextSignificant_eq_some_iff, tokenAt_slice_iff hWindow]
  constructor
  · rintro ⟨hOrder, hComments, t, ⟨hToken, hLess⟩, hNot⟩
    rw [slice_slice (s := ⟨i, j⟩) hLess.le] at hComments
    exact ⟨⟨by omega, hComments, t, hToken, hNot⟩, hLess⟩
  · rintro ⟨⟨hOrder, hComments, t, hToken, hNot⟩, hLess⟩
    refine ⟨by omega, ?_, t, ⟨hToken, hLess⟩, hNot⟩
    rw [slice_slice (s := ⟨i, j⟩) hLess.le]
    exact hComments

theorem matchingClose_slice {i j : Nat} :
    matchingClose (window.slice ls) i = some j ↔
      matchingClose ls (i + window.start) = some (j + window.start) ∧
        j + window.start < window.stop := by
  have hLength := length_window hWindow
  rcases Nat.lt_or_ge window.stop (i + window.start) with hBeyond | hWithin
  · constructor
    · intro h
      have := matchingClose_bounds h
      omega
    · rintro ⟨h, hLess⟩
      have := matchingClose_bounds h
      omega
  · rw [matchingClose, matchingClose, closeFrom_iff_append (ls.drop window.stop), List.length_drop]
    rw [drop_slice hWithin, closeFrom_shift, Option.map_eq_some_iff]
    constructor
    · rintro ⟨hClose, hLess⟩
      exact ⟨⟨j, hClose, rfl⟩, by omega⟩
    · rintro ⟨⟨k, hClose, hSame⟩, hLess⟩
      obtain rfl : k = j := by omega
      exact ⟨hClose, by omega⟩

/-! ## Level of detail -/

theorem lodHead_slice {s : Span} (h : s.stop + window.start ≤ window.stop) :
    lodHead ls (s.shift window.start) =
      ((lodHead (window.slice ls) s).1, (lodHead (window.slice ls) s).2.map (·.shift window.start)) := by
  have hStart : (s.shift window.start).start = s.start + window.start := rfl
  have hStop : (s.shift window.start).stop = s.stop + window.start := rfl
  rw [lodHead, lodHead, hStart, hStop, slice_slice h]
  cases hNext : nextSignificant (window.slice ls) s.start with
  | some i =>
    obtain ⟨hWhole, hLess⟩ := (nextSignificant_slice hWindow).1 hNext
    have hPieces := @splitTopLevel_slice ls window ⟨i + 1, s.stop⟩ h
    simp only [Span.shift, Nat.add_right_comm i 1] at hPieces
    simp only [hWhole, tokenAt_slice hWindow hLess, Nat.add_le_add_iff_right, hPieces]
    split
    · rfl
    split <;> rfl
  | none =>
    cases hWhole : nextSignificant ls (s.start + window.start) with
    | none => rfl
    | some j =>
      -- What comes next in the whole row stands behind the window.
      have hBeyond : window.stop ≤ j := by
        by_contra hLess
        obtain ⟨k, rfl⟩ := Nat.exists_eq_add_of_le'
          ((Nat.le_add_left _ _).trans (nextSignificant_bounds hWhole).1)
        rw [(nextSignificant_slice hWindow).2 ⟨hWhole, not_le.1 hLess⟩] at hNext
        cases hNext
      simp only [if_pos (h.trans hBeyond), List.map_nil]

theorem parseLod_slice {i close : Nat} (hOpening : tokenAt (window.slice ls) i = some .lbrace)
    (hClose : matchingClose (window.slice ls) i = some close) :
    (parseLod (window.slice ls) i).toOption.map (·.shift window.start) =
      (parseLod ls (i + window.start)).toOption := by
  have hLength := length_window hWindow
  obtain ⟨hOrder, hLess⟩ := enclosed_bounds hOpening rfl hClose
  obtain ⟨hWhole, hBefore⟩ := (matchingClose_slice hWindow).1 hClose
  have hStart : i + window.start + 1 = i + 1 + window.start := Nat.add_right_comm i _ 1
  have hStop : close + window.start + 1 = close + 1 + window.start := Nat.add_right_comm close _ 1
  have hBody := @topLevel_slice ls window (· == .colon) ⟨i + 1, close⟩ hBefore.le
  have hFilled := @isFilled_slice ls window ⟨i + 1, close⟩ hBefore.le
  simp only [Span.shift] at hBody hFilled
  rw [parseLod, parseLod, hClose, hWhole]
  simp only [tokenAt_slice hWindow hBefore, hStart, hStop, hBody, hFilled]
  split
  · rfl
  cases hColons : topLevel (· == .colon) (window.slice ls) ⟨i + 1, close⟩ with
  | nil =>
    simp only [List.map_nil]
    split <;> rfl
  | cons colon colons =>
    obtain ⟨hFirst, hLast⟩ := topLevel_bounds (p := (· == .colon)) (s := ⟨i + 1, close⟩) (j := colon)
      ⟨hOrder, hLess.le⟩ (by rw [hColons]; exact List.mem_cons_self)
    have hColon : colon + window.start ≤ window.stop := by simp only at hLast; omega
    have hHead := @lodHead_slice ls window hWindow ⟨i + 1, colon⟩ hColon
    have hInner := @isFilled_slice ls window ⟨colon + 1, close⟩ hBefore.le
    have hDimensions : ∀ d ∈ (lodHead (window.slice ls) ⟨i + 1, colon⟩).2,
        isFilled ls (d.shift window.start) = isFilled (window.slice ls) d := by
      intro d hd
      have hWithin := within_of_mem_lodHead ⟨hFirst, (hLast.trans hLess).le⟩ hd
      exact isFilled_slice (by have := hWithin.2; omega)
    simp only [Span.shift] at hHead hInner
    simp only [List.map_cons, Nat.add_right_comm colon window.start, hHead, hInner]
    split
    · simp only [Except.toOption, Option.map_some, LodBlock.shift, Span.shift, List.filter_map,
        Function.comp_def]
      congr 3
      exact (List.filter_congr hDimensions).symm
    · rfl

/-- A level-of-detail block is recognized in a window exactly as in the whole row, if it ends there. -/
theorem lodAt_slice (i : Nat) :
    (lodAt? (window.slice ls) i).map (·.shift window.start) =
      (lodAt? ls (i + window.start)).filter (·.span.stop ≤ window.stop) := by
  have hLength := length_window hWindow
  apply Option.ext
  intro b
  rw [Option.map_eq_some_iff, Option.filter_eq_some_iff, decide_eq_true_iff]
  constructor
  · rintro ⟨b, hFound, rfl⟩
    obtain ⟨hOpening, hParse⟩ := parseLod_of_lodAt hFound
    obtain ⟨close, hClose, -, -⟩ := closing_of_parseLod hParse
    have hSame := parseLod_slice hWindow hOpening hClose
    rw [hParse] at hSame
    constructor
    · rw [lodAt?, if_pos ((tokenAt_slice_iff hWindow).1 hOpening).1, ← hSame]
      rfl
    · have hStop := (bounded_of_lodAt hFound).located.within
      simp only [LodBlock.shift, Span.shift]
      omega
  · rintro ⟨hFound, hStop⟩
    obtain ⟨hOpening, hParse⟩ := parseLod_of_lodAt hFound
    obtain ⟨close, hClose, -, hSpan⟩ := closing_of_parseLod hParse
    have hOrder := (matchingClose_bounds hClose).1
    obtain ⟨k, rfl⟩ := Nat.exists_eq_add_of_le' ((Nat.le_add_left _ _).trans hOrder)
    rw [hSpan] at hStop
    have hLess : k + window.start < window.stop := hStop
    have hInner := (matchingClose_slice hWindow).2 ⟨hClose, hLess⟩
    have hOpeningInner := (tokenAt_slice_iff hWindow).2 ⟨hOpening, hOrder.trans_lt hLess⟩
    have hSame := parseLod_slice hWindow hOpeningInner hInner
    rw [hParse] at hSame
    rw [lodAt?, if_pos hOpeningInner]
    exact Option.map_eq_some_iff.1 hSame

/-! ## Conditionals -/

theorem keywordAt_slice {i : Nat} {k : Keyword} :
    KeywordAt (window.slice ls) i k ↔
      KeywordAt ls (i + window.start) k ∧ i + window.start < window.stop :=
  tokenAt_slice_iff hWindow

theorem segmentAt_slice {start stop : Nat} (h : stop + window.start ≤ window.stop) :
    SegmentAt (window.slice ls) ⟨start, stop⟩ ↔
      SegmentAt ls ⟨start + window.start, stop + window.start⟩ := by
  have hLength := length_window hWindow
  have hBound := hWindow.2
  have hSlice := slice_slice (s := ⟨start, stop⟩) h ls
  constructor
  · rintro ⟨⟨hOrder, -⟩, hSegment⟩
    rw [hSlice] at hSegment
    exact ⟨⟨Nat.add_le_add_right hOrder _, h.trans hBound⟩, hSegment⟩
  · rintro ⟨⟨hOrder, -⟩, hSegment⟩
    refine ⟨⟨Nat.le_of_add_le_add_right hOrder, by simp only; omega⟩, ?_⟩
    rw [hSlice]
    exact hSegment

/-- A segment and the keyword behind it, where the keyword stands in the window. -/
theorem bounded_segment_slice {start i : Nat} {k : Keyword} :
    SegmentAt (window.slice ls) ⟨start, i⟩ ∧ KeywordAt (window.slice ls) i k ↔
      (SegmentAt ls ⟨start + window.start, i + window.start⟩ ∧ KeywordAt ls (i + window.start) k) ∧
        i + window.start < window.stop := by
  rw [keywordAt_slice hWindow]
  constructor
  · rintro ⟨hSegment, hWord, hLess⟩
    exact ⟨⟨(segmentAt_slice hWindow hLess.le).1 hSegment, hWord⟩, hLess⟩
  · rintro ⟨⟨hSegment, hWord⟩, hLess⟩
    exact ⟨(segmentAt_slice hWindow hLess.le).2 hSegment, hWord, hLess⟩

theorem ClausesAt.of_slice {form : Form} {start stop : Nat} {c : Clauses}
    (h : ClausesAt (window.slice ls) form start c stop) :
    ClausesAt ls form (start + window.start) (c.shift window.start) (stop + window.start) ∧
      stop + window.start < window.stop := by
  have hNext : ∀ i, i + 1 + window.start = i + window.start + 1 := fun i => Nat.add_right_comm i 1 _
  induction h with
  | last hCondition hThen hValue hEnd =>
    obtain ⟨⟨hCondition, hThen⟩, -⟩ := (bounded_segment_slice hWindow).1 ⟨hCondition, hThen⟩
    obtain ⟨⟨hValue, hEnd⟩, hLess⟩ := (bounded_segment_slice hWindow).1 ⟨hValue, hEnd⟩
    rw [hNext] at hValue
    refine ⟨?_, hLess⟩
    simpa only [Clauses.shift, Branch.shift, Span.shift, hNext, List.map_nil, Option.map_none] using
      ClausesAt.last hCondition hThen hValue hEnd
  | otherwise hCondition hThen hValue hElse hFallback hEnd =>
    obtain ⟨⟨hCondition, hThen⟩, -⟩ := (bounded_segment_slice hWindow).1 ⟨hCondition, hThen⟩
    obtain ⟨⟨hValue, hElse⟩, -⟩ := (bounded_segment_slice hWindow).1 ⟨hValue, hElse⟩
    obtain ⟨⟨hFallback, hEnd⟩, hLess⟩ := (bounded_segment_slice hWindow).1 ⟨hFallback, hEnd⟩
    rw [hNext] at hValue hFallback
    refine ⟨?_, hLess⟩
    simpa only [Clauses.shift, Branch.shift, Span.shift, hNext, List.map_nil, Option.map_some] using
      ClausesAt.otherwise hCondition hThen hValue hElse hFallback hEnd
  | more hCondition hThen hValue hAgain _ ih =>
    obtain ⟨⟨hCondition, hThen⟩, -⟩ := (bounded_segment_slice hWindow).1 ⟨hCondition, hThen⟩
    obtain ⟨⟨hValue, hAgain⟩, -⟩ := (bounded_segment_slice hWindow).1 ⟨hValue, hAgain⟩
    obtain ⟨hRest, hLess⟩ := ih
    rw [hNext] at hValue hRest
    refine ⟨?_, hLess⟩
    simpa only [Clauses.shift, Clauses.branches, Branch.shift, Span.shift, hNext, List.map_cons] using
      ClausesAt.more hCondition hThen hValue hAgain hRest

theorem ClausesAt.slice {form : Form} {start first stop : Nat} {c : Clauses}
    (h : ClausesAt ls form start c stop) (hStop : stop < window.stop)
    (hFirst : start = first + window.start) :
    ∃ inner last, c = inner.shift window.start ∧ stop = last + window.start ∧
      ClausesAt (window.slice ls) form first inner last := by
  have hNext : ∀ i, i + window.start + 1 = i + 1 + window.start := fun i => Nat.add_right_comm i _ 1
  -- A position behind another one of the window is one of the window, counted from its beginning.
  have hPosition : ∀ {i j : Nat}, i + window.start ≤ j → ∃ k, j = k + window.start := fun h =>
    Nat.exists_eq_add_of_le' ((Nat.le_add_left _ _).trans h)
  induction h generalizing first with
  | last hCondition hThen hValue hEnd =>
    subst hFirst
    obtain ⟨i, rfl⟩ := hPosition hCondition.within.1
    rw [hNext] at hValue
    obtain ⟨last, rfl⟩ := hPosition hValue.within.1
    have hOrder := hValue.within.1
    simp only at hOrder
    obtain ⟨hCondition, hThen⟩ := (bounded_segment_slice hWindow).2 ⟨⟨hCondition, hThen⟩, by omega⟩
    obtain ⟨hValue, hEnd⟩ := (bounded_segment_slice hWindow).2 ⟨⟨hValue, hEnd⟩, hStop⟩
    refine ⟨_, _, ?_, rfl, .last hCondition hThen hValue hEnd⟩
    simp only [Clauses.shift, Branch.shift, Span.shift, hNext, List.map_nil, Option.map_none]
  | otherwise hCondition hThen hValue hElse hFallback hEnd =>
    subst hFirst
    obtain ⟨i, rfl⟩ := hPosition hCondition.within.1
    rw [hNext] at hValue
    obtain ⟨j, rfl⟩ := hPosition hValue.within.1
    rw [hNext] at hFallback
    obtain ⟨last, rfl⟩ := hPosition hFallback.within.1
    have hOrder := hValue.within.1
    have hLater := hFallback.within.1
    simp only at hOrder hLater
    obtain ⟨hCondition, hThen⟩ := (bounded_segment_slice hWindow).2 ⟨⟨hCondition, hThen⟩, by omega⟩
    obtain ⟨hValue, hElse⟩ := (bounded_segment_slice hWindow).2 ⟨⟨hValue, hElse⟩, by omega⟩
    obtain ⟨hFallback, hEnd⟩ := (bounded_segment_slice hWindow).2 ⟨⟨hFallback, hEnd⟩, hStop⟩
    refine ⟨_, _, ?_, rfl, .otherwise hCondition hThen hValue hElse hFallback hEnd⟩
    simp only [Clauses.shift, Branch.shift, Span.shift, hNext, List.map_nil, Option.map_some]
  | more hCondition hThen hValue hAgain hRest ih =>
    subst hFirst
    obtain ⟨i, rfl⟩ := hPosition hCondition.within.1
    rw [hNext] at hValue
    obtain ⟨j, rfl⟩ := hPosition hValue.within.1
    have hOrder := hValue.within.1
    have hLater := hRest.bounds.1
    simp only at hOrder
    obtain ⟨hCondition, hThen⟩ := (bounded_segment_slice hWindow).2 ⟨⟨hCondition, hThen⟩, by omega⟩
    obtain ⟨hValue, hAgain⟩ := (bounded_segment_slice hWindow).2 ⟨⟨hValue, hAgain⟩, by omega⟩
    obtain ⟨inner, last, rfl, rfl, hInner⟩ := ih hStop (hNext j)
    refine ⟨_, _, ?_, rfl, .more hCondition hThen hValue hAgain hInner⟩
    simp only [Clauses.shift, Clauses.branches, Branch.shift, Span.shift, hNext, List.map_cons]

theorem IfAt.of_slice {i : Nat} {c : Conditional} (h : IfAt (window.slice ls) i c) :
    IfAt ls (i + window.start) (c.shift window.start) ∧
      (c.shift window.start).span.stop ≤ window.stop := by
  obtain ⟨hClauses⟩ := h
  obtain ⟨hClauses, hLess⟩ := hClauses.of_slice hWindow
  rw [Nat.add_right_comm] at hClauses
  constructor
  · simpa only [Conditional.shift, Span.shift, Nat.add_right_comm _ 1] using IfAt.intro hClauses
  · simp only [Conditional.shift, Conditional.span, Span.shift]
    omega

theorem IfAt.slice {i : Nat} {c : Conditional} (h : IfAt ls (i + window.start) c)
    (hStop : c.span.stop ≤ window.stop) :
    ∃ inner, inner.shift window.start = c ∧ IfAt (window.slice ls) i inner := by
  obtain ⟨hClauses⟩ := h
  obtain ⟨inner, last, rfl, rfl, hInner⟩ :=
    hClauses.slice hWindow hStop (Nat.add_right_comm i window.start 1)
  refine ⟨_, ?_, .intro hInner⟩
  simp only [Conditional.shift, Span.shift, Nat.add_right_comm last 1]

theorem CaseAt.of_slice {i : Nat} {c : Conditional} (h : CaseAt (window.slice ls) i c) :
    CaseAt ls (i + window.start) (c.shift window.start) ∧
      (c.shift window.start).span.stop ≤ window.stop := by
  obtain ⟨hSubject, hWhen, hClauses⟩ := h
  obtain ⟨⟨hSubject, hWhen⟩, -⟩ := (bounded_segment_slice hWindow).1 ⟨hSubject, hWhen⟩
  obtain ⟨hClauses, hLess⟩ := hClauses.of_slice hWindow
  rw [Nat.add_right_comm] at hSubject hClauses
  constructor
  · simpa only [Conditional.shift, Span.shift, Nat.add_right_comm _ 1] using
      CaseAt.intro hSubject hWhen hClauses
  · simp only [Conditional.shift, Conditional.span, Span.shift]
    omega

theorem CaseAt.slice {i : Nat} {c : Conditional} (h : CaseAt ls (i + window.start) c)
    (hStop : c.span.stop ≤ window.stop) :
    ∃ inner, inner.shift window.start = c ∧ CaseAt (window.slice ls) i inner := by
  obtain ⟨hSubject, hWhen, hClauses⟩ := h
  have hOrder := hSubject.within.1
  have hLater := hClauses.bounds.1
  rw [Nat.add_right_comm] at hSubject
  simp only [Conditional.span] at hOrder hStop
  have hBehind : window.start ≤ i + window.start + 1 := by omega
  obtain ⟨k, rfl⟩ := Nat.exists_eq_add_of_le' (hBehind.trans hOrder)
  obtain ⟨hSubject, hWhen⟩ := (bounded_segment_slice hWindow).2 ⟨⟨hSubject, hWhen⟩, by omega⟩
  obtain ⟨inner, last, rfl, rfl, hInner⟩ :=
    hClauses.slice hWindow hStop (Nat.add_right_comm k window.start 1)
  refine ⟨_, ?_, .intro hSubject hWhen hInner⟩
  simp only [Conditional.shift, Span.shift, Nat.add_right_comm _ 1]

/-- A conditional is recognized in a window exactly as in the whole row, if it ends there. -/
theorem conditionalAt_slice (i : Nat) :
    (conditionalAt? (window.slice ls) i).map (·.shift window.start) =
      (conditionalAt? ls (i + window.start)).filter (·.span.stop ≤ window.stop) := by
  apply Option.ext
  intro c
  rw [Option.map_eq_some_iff, Option.filter_eq_some_iff, decide_eq_true_iff]
  simp only [conditionalAt_eq_some_iff, tokenAt_slice_iff hWindow]
  constructor
  · rintro ⟨c, ⟨⟨hToken, -⟩, hIf⟩ | ⟨⟨hToken, -⟩, hCase⟩, rfl⟩
    · obtain ⟨hWhole, hStop⟩ := hIf.of_slice hWindow
      exact ⟨.inl ⟨hToken, hWhole⟩, hStop⟩
    · obtain ⟨hWhole, hStop⟩ := hCase.of_slice hWindow
      exact ⟨.inr ⟨hToken, hWhole⟩, hStop⟩
  · rintro ⟨⟨hToken, hIf⟩ | ⟨hToken, hCase⟩, hStop⟩
    · have hAdvances := (bounded_of_conditionalAt (conditionalAt_eq_some_iff.2 (.inl ⟨hToken, hIf⟩))).located.advances
      obtain ⟨inner, hShift, hInner⟩ := hIf.slice hWindow hStop
      exact ⟨inner, .inl ⟨⟨hToken, hAdvances.trans_le hStop⟩, hInner⟩, hShift⟩
    · have hAdvances := (bounded_of_conditionalAt (conditionalAt_eq_some_iff.2 (.inr ⟨hToken, hCase⟩))).located.advances
      obtain ⟨inner, hShift, hInner⟩ := hCase.slice hWindow hStop
      exact ⟨inner, .inr ⟨⟨hToken, hAdvances.trans_le hStop⟩, hInner⟩, hShift⟩

end

/-! ## The front of a row -/

theorem slice_front {α : Type} (a b : List α) : (Span.mk 0 a.length).slice (a ++ b) = a := by
  simp [Span.slice]

theorem within_front (a b : List Lexeme) : (Span.mk 0 a.length).Within (a ++ b).length :=
  ⟨Nat.zero_le _, by simp⟩

@[simp]
theorem LodBlock.shift_zero (b : LodBlock) : b.shift 0 = b := by
  simp [LodBlock.shift, Span.shift]

@[simp]
theorem Conditional.shift_zero (c : Conditional) : c.shift 0 = c := by
  cases c <;> simp [Conditional.shift, Clauses.shift, Branch.shift, Span.shift]

theorem lodAt_append (a b : List Lexeme) (i : Nat) :
    lodAt? a i = (lodAt? (a ++ b) i).filter (·.span.stop ≤ a.length) := by
  have hFront := lodAt_slice (within_front a b) i
  simpa [slice_front] using hFront

theorem conditionalAt_append (a b : List Lexeme) (i : Nat) :
    conditionalAt? a i = (conditionalAt? (a ++ b) i).filter (·.span.stop ≤ a.length) := by
  have hFront := conditionalAt_slice (within_front a b) i
  simpa [slice_front] using hFront

end DaxMigration.Formula
