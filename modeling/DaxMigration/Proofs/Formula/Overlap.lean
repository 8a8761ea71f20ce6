import DaxMigration.Proofs.Formula.Bounds

/-!
# Overlapping searches

The search for the end of a construct counts brackets and inner conditionals from where the construct
begins. A search that begins inside another one counts the same lexemes from nought, and its counters
are those of the outer search less what was open where it began. So neither of two searches ends
between the beginning and the end of the other, unless it began there.
-/

namespace DaxMigration.Formula

/-! ## Counters -/

abbrev Counters := Nat × Nat

/-- The counters after a run, none where the search ends or finds a keyword in it. -/
def countersAfter : Counters → List Lexeme → Option Counters
  | n, [] => some n
  | n, l :: ls => (onward n.1 n.2 (roleOf l.token)).bind (countersAfter · ls)

@[simp]
theorem countersAfter_nil (n : Counters) : countersAfter n [] = some n := rfl

theorem countersAfter_append (n : Counters) (a b : List Lexeme) :
    countersAfter n (a ++ b) = (countersAfter n a).bind (countersAfter · b) := by
  induction a generalizing n with
  | nil => rfl
  | cons l a ih =>
    rw [List.cons_append, countersAfter, countersAfter]
    cases onward n.1 n.2 (roleOf l.token) with
    | none => rfl
    | some next => exact ih next

theorem countersAfter_of_append {n last : Counters} {a b : List Lexeme}
    (h : countersAfter n (a ++ b) = some last) :
    ∃ mid, countersAfter n a = some mid ∧ countersAfter mid b = some last := by
  rw [countersAfter_append] at h
  exact Option.bind_eq_some_iff.1 h

/-- Counters from nought on, added to those of a search around them: inside a bracket of the outer
search only the brackets are counted on. -/
def atop (outer inner : Counters) : Counters :=
  if outer.1 = 0 then (inner.1, outer.2 + inner.2) else (outer.1 + inner.1, outer.2)

@[simp]
theorem atop_zero (outer : Counters) : atop outer (0, 0) = outer := by
  obtain ⟨depth, nested⟩ := outer
  by_cases hDepth : depth = 0 <;> simp [atop, hDepth]

theorem eq_zero_of_atop {outer inner : Counters} (h : atop outer inner = (0, 0)) :
    outer = (0, 0) ∧ inner = (0, 0) := by
  obtain ⟨depth, nested⟩ := outer
  obtain ⟨depth', nested'⟩ := inner
  simp only [atop] at h
  split at h
  all_goals
    simp only [Prod.mk.injEq] at h ⊢
    omega

/-- Where the inner search goes on, the outer one goes on as well and keeps its lead. -/
theorem onward_atop {inner next : Counters} {role : Role}
    (h : onward inner.1 inner.2 role = some next) (outer : Counters) :
    onward (atop outer inner).1 (atop outer inner).2 role = some (atop outer next) := by
  obtain ⟨depth, nested⟩ := outer
  obtain ⟨depth', nested'⟩ := inner
  cases role with
  | opens =>
    cases h
    by_cases hDepth : depth = 0 <;> simp [onward, atop, hDepth]
    omega
  | closes =>
    simp only [onward] at h
    split at h
    · cases h
    · cases h
      by_cases hDepth : depth = 0 <;> simp [onward, atop, hDepth]
      all_goals omega
  | begins =>
    cases h
    by_cases hDepth : depth = 0 <;> by_cases hInner : depth' = 0 <;>
      simp [onward, atop, hDepth, hInner]
    omega
  | keyword k =>
    simp only [onward] at h
    split at h
    · cases h
      rename_i hInner
      by_cases hDepth : depth = 0 <;> simp [onward, atop, hDepth]
      simp [hInner]
    split at h
    · cases h
    · cases h
      rename_i hInner hNested
      obtain rfl : depth' = 0 := not_not.1 hInner
      by_cases hDepth : depth = 0 <;> by_cases hEnd : k = .endWord <;>
        simp [onward, atop, hDepth, hEnd]
      all_goals omega
  | plain =>
    cases h
    rfl

theorem countersAfter_atop {inner last : Counters} {row : List Lexeme}
    (h : countersAfter inner row = some last) (outer : Counters) :
    countersAfter (atop outer inner) row = some (atop outer last) := by
  induction row generalizing inner with
  | nil =>
    obtain rfl := Option.some.inj h
    rfl
  | cons l row ih =>
    obtain ⟨next, hNext, hRest⟩ := Option.bind_eq_some_iff.1 h
    rw [countersAfter, onward_atop hNext outer]
    exact ih hRest

/-- Inside a bracket the search for keywords goes by the depth alone. -/
theorem countersAfter_of_level {depth stop : Nat} {row : List Lexeme}
    (h : level depth (row.map Lexeme.token) = some stop) (nested : Nat) :
    countersAfter (depth + 1, nested) row = some (stop + 1, nested) := by
  induction row generalizing depth with
  | nil =>
    obtain rfl : depth = stop := by simpa [level] using h
    rfl
  | cons l row ih =>
    rw [List.map_cons] at h
    rw [countersAfter]
    cases hRole : roleOf l.token with
    | opens =>
      rw [level_of_opens hRole] at h
      exact ih h
    | closes =>
      cases depth with
      | zero =>
        have hSuits := suits_roleOf l.token
        rw [hRole] at hSuits
        cases hSuits with
        | closes hOpens hCloses => simp [level, hOpens, hCloses] at h
      | succ depth =>
        rw [level_of_closes hRole] at h
        exact ih h
    | begins | plain =>
      rw [level_of_role (by simp [hRole]) (by simp [hRole])] at h
      exact ih h
    | keyword k =>
      rw [level_of_role (by simp [hRole]) (by simp [hRole])] at h
      exact ih h

theorem Closes.countersAfter {depth nested : Nat} {row : List Lexeme} (h : Closes depth nested row) :
    countersAfter (depth, nested) row = some (0, 0) := by
  induction row generalizing depth nested with
  | nil =>
    obtain rfl : depth = 0 := by simpa [Formula.level] using h.level
    obtain rfl : nested = 0 := by simpa [outerWords, openAfter] using h.words
    rfl
  | cons l row ih =>
    obtain ⟨depth', nested', hOnward, hRow⟩ := closes_cons_iff.1 h
    rw [Formula.countersAfter, hOnward]
    exact ih hRow

/-! ## Spans that come back to nought -/

theorem slice_append_slice {α : Type} {start mid stop : Nat} (hFirst : start ≤ mid)
    (hLast : mid ≤ stop) (as : List α) :
    (Span.mk start mid).slice as ++ (Span.mk mid stop).slice as = (Span.mk start stop).slice as := by
  have hTake : as.take mid = (as.take stop).take mid := by rw [List.take_take, min_eq_left hLast]
  rw [Span.slice, Span.slice, Span.slice, hTake]
  exact slice_append_drop hFirst (as.take stop)

/-- The counters are nought again at the end of the span, and nowhere between. -/
structure Excursion (ls : List Lexeme) (s : Span) : Prop where
  advances : s.start < s.stop
  returns : countersAfter (0, 0) (s.slice ls) = some (0, 0)
  away : ∀ k, s.start < k → k < s.stop →
    countersAfter (0, 0) ((Span.mk s.start k).slice ls) ≠ some (0, 0)

/-- A run that comes back to nought holds the whole of an excursion that begins in it. -/
theorem Excursion.stop_le {ls : List Lexeme} {start stop : Nat} {t : Span} (ht : Excursion ls t)
    (h : countersAfter (0, 0) ((Span.mk start stop).slice ls) = some (0, 0)) (hStart : start ≤ t.start)
    (hInside : t.start < stop) : t.stop ≤ stop := by
  by_contra hBeyond
  have hStop : stop < t.stop := not_le.1 hBeyond
  -- The counters where the inner search begins, and its own where the outer one ends.
  obtain ⟨outer, hOuter, hOverlap⟩ : ∃ outer,
      countersAfter (0, 0) ((Span.mk start t.start).slice ls) = some outer ∧
        countersAfter outer ((Span.mk t.start stop).slice ls) = some (0, 0) := by
    rw [← slice_append_slice hStart hInside.le] at h
    exact countersAfter_of_append h
  obtain ⟨inner, hInner, -⟩ : ∃ inner,
      countersAfter (0, 0) ((Span.mk t.start stop).slice ls) = some inner ∧
        countersAfter inner ((Span.mk stop t.stop).slice ls) = some (0, 0) := by
    have hReturns : countersAfter (0, 0) ((Span.mk t.start t.stop).slice ls) = some (0, 0) := ht.returns
    rw [← slice_append_slice hInside.le hStop.le] at hReturns
    exact countersAfter_of_append hReturns
  have hBoth := countersAfter_atop hInner outer
  rw [atop_zero, hOverlap] at hBoth
  obtain ⟨-, rfl⟩ := eq_zero_of_atop (Option.some.inj hBoth).symm
  exact ht.away stop hInside hStop hInner

/-! ## Level of detail -/

theorem take_of_drop {α : Type} {ls a b : List α} {i k : Nat} (h : ls.drop i = a ++ b)
    (hLength : k ≤ a.length) : (Span.mk i (i + k)).slice ls = a.take k := by
  rw [Span.slice, Nat.add_comm, List.drop_take, h, Nat.add_sub_cancel,
    List.take_append_of_le_length hLength]

theorem excursion_of_lodAt {ls : List Lexeme} {i : Nat} {b : LodBlock} (h : lodAt? ls i = some b) :
    Excursion ls b.span := by
  obtain ⟨hOpening, hParse⟩ := parseLod_of_lodAt h
  obtain ⟨r, rest, hAt, hBlock, hSpan, -, -⟩ := run_of_parseLod hOpening hParse
  obtain ⟨opening, head, inner, closing⟩ := r
  have hBody : Balanced (head ++ inner) := hBlock.balanced_head.append hBlock.balanced
  obtain ⟨hFirst, hLast⟩ : opening.token = .lbrace ∧ closing.token = .rbrace :=
    ⟨hBlock.opening, hBlock.closing⟩
  simp only [BlockRun.lexemes] at hAt hSpan
  rw [hSpan]
  refine ⟨by simp, ?_, ?_⟩
  · rw [slice_of_drop hAt, countersAfter, hFirst]
    change countersAfter (1, 0) (head ++ inner ++ [closing]) = some (0, 0)
    rw [countersAfter_append, countersAfter_of_level hBody 0, Option.bind_some, countersAfter, hLast]
    rfl
  · intro k hLow hHigh
    -- In front of its own partner the bracket stays open.
    obtain ⟨n, rfl⟩ : ∃ n, k = i + (n + 1) := ⟨k - i - 1, by simp only at hLow; omega⟩
    have hWithin : n ≤ (head ++ inner).length := by simp at hHigh ⊢; omega
    have hLevel := hBody
    rw [Balanced, ← List.take_append_drop n (head ++ inner), List.map_append, level_append] at hLevel
    obtain ⟨depth, hDepth, -⟩ := Option.bind_eq_some_iff.1 hLevel
    rw [take_of_drop hAt (by simp at hWithin ⊢; omega), List.take_succ_cons,
      List.take_append_of_le_length hWithin, countersAfter, hFirst]
    change countersAfter (1, 0) ((head ++ inner).take n) ≠ some (0, 0)
    rw [countersAfter_of_level hDepth 0]
    simp

/-! ## Conditionals -/

structure Inside (ls : List Lexeme) (start stop : Nat) : Prop where
  order : start ≤ stop
  returns : countersAfter (0, 1) ((Span.mk start stop).slice ls) = some (0, 1)
  away : ∀ k, start ≤ k → k ≤ stop →
    countersAfter (0, 1) ((Span.mk start k).slice ls) ≠ some (0, 0)

namespace Inside

variable {ls : List Lexeme} {start mid stop : Nat}

theorem trans (h : Inside ls start mid) (h' : Inside ls mid stop) : Inside ls start stop := by
  refine ⟨h.order.trans h'.order, ?_, ?_⟩
  · rw [← slice_append_slice h.order h'.order, countersAfter_append, h.returns]
    exact h'.returns
  · intro k hStart hStop
    rcases le_total k mid with hMid | hMid
    · exact h.away k hStart hMid
    · rw [← slice_append_slice h.order hMid, countersAfter_append, h.returns]
      exact h'.away k hMid hStop

theorem of_segment (h : SegmentAt ls ⟨start, stop⟩) : Inside ls start stop := by
  have hCloses := (closes_zero_iff.2 ⟨h.segment.balanced, h.segment.paired⟩).countersAfter
  refine ⟨h.within.1, countersAfter_atop hCloses (0, 1), ?_⟩
  intro k hStart hStop hZero
  rw [← slice_append_slice hStart hStop] at hCloses
  obtain ⟨inner, hInner, -⟩ := countersAfter_of_append hCloses
  have hBoth := countersAfter_atop hInner (0, 1)
  rw [atop_zero, hZero] at hBoth
  -- The conditional around the segment is still open in it.
  cases (eq_zero_of_atop (Option.some.inj hBoth).symm).1

theorem of_keyword {i : Nat} {k : Keyword} (h : KeywordAt ls i k) (hWord : k ≠ .endWord) :
    Inside ls i (i + 1) := by
  obtain ⟨l, hToken, hSlice⟩ := slice_of_tokenAt h le_rfl (Nat.lt_succ_self i)
  rw [slice_self, slice_self, List.nil_append] at hSlice
  have hRole : roleOf l.token = .keyword k := by rw [hToken]; cases k <;> decide
  have hOne : countersAfter (0, 1) ((Span.mk i (i + 1)).slice ls) = some (0, 1) := by
    rw [hSlice, countersAfter, hRole]
    simp [onward, hWord]
  refine ⟨Nat.le_succ i, hOne, ?_⟩
  intro j hLow hHigh
  rcases hLow.eq_or_lt with rfl | hLow
  · rw [slice_self]
    simp
  · obtain rfl : j = i + 1 := by omega
    rw [hOne]
    simp

end Inside

theorem ClausesAt.inside {ls : List Lexeme} {form : Form} {start stop : Nat} {c : Clauses}
    (h : ClausesAt ls form start c stop) : Inside ls start stop := by
  induction h with
  | last hCondition hThen hValue hEnd =>
    apply (Inside.of_segment hCondition).trans
    apply (Inside.of_keyword hThen (by decide)).trans
    exact .of_segment hValue
  | otherwise hCondition hThen hValue hElse hFallback hEnd =>
    apply (Inside.of_segment hCondition).trans
    apply (Inside.of_keyword hThen (by decide)).trans
    apply (Inside.of_segment hValue).trans
    apply (Inside.of_keyword hElse (by decide)).trans
    exact .of_segment hFallback
  | more hCondition hThen hValue hAgain _ ih =>
    apply (Inside.of_segment hCondition).trans
    apply (Inside.of_keyword hThen (by decide)).trans
    apply (Inside.of_segment hValue).trans
    exact (Inside.of_keyword hAgain (by cases form <;> decide)).trans ih

/-- The first word of a conditional opens it and `END` closes it. -/
theorem Inside.excursion {ls : List Lexeme} {i stop : Nat} {t : Token} (h : Inside ls (i + 1) stop)
    (hWord : tokenAt ls i = some t) (hBegins : roleOf t = .begins) (hEnd : KeywordAt ls stop .endWord) :
    Excursion ls ⟨i, stop + 1⟩ := by
  have hOrder := h.order
  -- After its first word the counters are those inside of it.
  have hOpen : ∀ k, i + 1 ≤ k → countersAfter (0, 0) ((Span.mk i k).slice ls) =
      countersAfter (0, 1) ((Span.mk (i + 1) k).slice ls) := by
    intro k hk
    obtain ⟨l, rfl, hSlice⟩ := slice_of_tokenAt hWord le_rfl hk
    rw [slice_self, List.nil_append] at hSlice
    rw [hSlice, countersAfter, hBegins]
    rfl
  refine ⟨by simp; omega, ?_, ?_⟩
  · obtain ⟨l, hToken, hSlice⟩ := slice_of_tokenAt hEnd h.order (Nat.lt_succ_self stop)
    rw [slice_self] at hSlice
    have hRole : roleOf l.token = .keyword .endWord := by rw [hToken]; decide
    rw [hOpen (stop + 1) (by omega), hSlice, countersAfter_append, h.returns, Option.bind_some,
      countersAfter, hRole]
    rfl
  · intro k hLow hHigh
    rw [hOpen k hLow]
    exact h.away k hLow (Nat.le_of_lt_succ hHigh)

theorem excursion_of_conditionalAt {ls : List Lexeme} {i : Nat} {c : Conditional}
    (h : conditionalAt? ls i = some c) : Excursion ls c.span := by
  obtain ⟨t, hToken, ⟨hWord, hIf⟩ | ⟨hWord, hCase⟩⟩ := parse_of_conditionalAt h
  · obtain ⟨hClauses⟩ := parseIf_eq_ok_iff.1 hIf
    obtain rfl := Token.isWord_iff.1 hWord
    exact hClauses.inside.excursion hToken (by decide) hClauses.endWord
  · obtain ⟨hSubject, hWhen, hClauses⟩ := parseCase_eq_ok_iff.1 hCase
    obtain rfl := Token.isWord_iff.1 hWord
    have hInside := (Inside.of_segment hSubject).trans
      ((Inside.of_keyword hWhen (by decide)).trans hClauses.inside)
    exact hInside.excursion hToken (by decide) hClauses.endWord

end DaxMigration.Formula
