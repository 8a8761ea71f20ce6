import DaxMigration.Proofs.Formula.Reading
import DaxMigration.Formula.Recognize

/-!
# Nesting of rows

The depth that a run of tokens leads to, and what the searches by depth do with a run that ends
where it began: the search for a partner and the search for a keyword pass over it, and no separator
inside its brackets is found.
-/

namespace DaxMigration.Formula

/-- The depth after some tokens, none if a bracket closes that none of them or before opened. -/
def level : Nat → List Token → Option Nat
  | depth, [] => some depth
  | depth, t :: ts =>
    if t.opens then level (depth + 1) ts
    else if t.closes then if depth = 0 then none else level (depth - 1) ts
    else level depth ts

def separators (p : Token → Bool) : Nat → List Token → Nat
  | _, [] => 0
  | depth, t :: ts =>
    if t.opens then separators p (depth + 1) ts
    else if t.closes then separators p (depth - 1) ts
    else if depth = 0 && p t then separators p depth ts + 1
    else separators p depth ts

def Balanced (ls : List Lexeme) : Prop :=
  level 0 (ls.map Lexeme.token) = some 0

instance (ls : List Lexeme) : Decidable (Balanced ls) :=
  inferInstanceAs (Decidable (_ = _))

/-- What one token does to the depth. -/
theorem level_cons {depth stop : Nat} {t : Token} {ts : List Token}
    (h : level depth (t :: ts) = some stop) :
    t.opens = true ∧ level (depth + 1) ts = some stop ∨
      (t.opens = false ∧ t.closes = true ∧
        ∃ outer, depth = outer + 1 ∧ level outer ts = some stop) ∨
      (t.opens = false ∧ t.closes = false ∧ level depth ts = some stop) := by
  rw [level] at h
  cases hOpens : t.opens with
  | true => exact .inl ⟨rfl, by simpa [hOpens] using h⟩
  | false =>
    cases hCloses : t.closes with
    | false => exact .inr (.inr ⟨rfl, rfl, by simpa [hOpens, hCloses] using h⟩)
    | true =>
      cases depth with
      | zero => simp [hOpens, hCloses] at h
      | succ outer => exact .inr (.inl ⟨rfl, rfl, outer, rfl, by simpa [hOpens, hCloses] using h⟩)

theorem level_append (depth : Nat) (a b : List Token) :
    level depth (a ++ b) = (level depth a).bind (level · b) := by
  fun_induction level depth a <;> simp_all [level]

theorem level_add {depth stop : Nat} {ts : List Token} (h : level depth ts = some stop) (k : Nat) :
    level (depth + k) ts = some (stop + k) := by
  fun_induction level depth ts with
  | case1 => simp_all [level]
  | case2 depth t ts hOpens ih =>
    rw [level, if_pos hOpens, Nat.add_right_comm, ih h]
  | case3 => cases h
  | case4 depth t ts hOpens hCloses hDepth ih =>
    have hShift : depth + k - 1 = depth - 1 + k := by omega
    rw [level, if_neg hOpens, if_pos hCloses, if_neg (by omega), hShift, ih h]
  | case5 depth t ts hOpens hCloses ih =>
    rw [level, if_neg hOpens, if_neg hCloses, ih h]

theorem Balanced.level_eq {ls : List Lexeme} (h : Balanced ls) (depth : Nat) :
    level depth (ls.map Lexeme.token) = some depth := by
  have hDepth := level_add h depth
  rwa [Nat.zero_add] at hDepth

theorem Balanced.append {a b : List Lexeme} (ha : Balanced a) (hb : Balanced b) :
    Balanced (a ++ b) := by
  rw [Balanced, List.map_append, level_append, ha]
  exact hb

theorem isDelimiter_of_opens {t : Token} (h : t.opens = true) : t.isDelimiter = true := by
  cases t <;> first | rfl | cases h

theorem isDelimiter_of_closes {t : Token} (h : t.closes = true) : t.isDelimiter = true := by
  cases t <;> first | rfl | cases h

/-- Only delimiters count. -/
theorem level_filter (depth : Nat) (ts : List Token) :
    level depth (ts.filter Token.isDelimiter) = level depth ts := by
  fun_induction level depth ts with
  | case1 => rfl
  | case2 depth t ts hOpens ih =>
    rw [List.filter_cons_of_pos (isDelimiter_of_opens hOpens), level, if_pos hOpens, ih]
  | case3 t ts hOpens hCloses =>
    rw [List.filter_cons_of_pos (isDelimiter_of_closes hCloses), level, if_neg hOpens,
      if_pos hCloses, if_pos rfl]
  | case4 depth t ts hOpens hCloses hDepth ih =>
    rw [List.filter_cons_of_pos (isDelimiter_of_closes hCloses), level, if_neg hOpens,
      if_pos hCloses, if_neg hDepth, ih]
  | case5 depth t ts hOpens hCloses ih =>
    rw [List.filter_cons]
    split
    · rw [level, if_neg hOpens, if_neg hCloses, ih]
    · exact ih

/-- Tokens that are no brackets and no separators do not count. -/
theorem separators_filter_of {keep p : Token → Bool} (hOpens : ∀ t, t.opens = true → keep t = true)
    (hCloses : ∀ t, t.closes = true → keep t = true) (hp : ∀ t, p t = true → keep t = true)
    (depth : Nat) (ts : List Token) :
    separators p depth (ts.filter keep) = separators p depth ts := by
  fun_induction separators p depth ts with
  | case1 => rfl
  | case2 depth t ts hOpening ih =>
    rw [List.filter_cons_of_pos (hOpens t hOpening), separators, if_pos hOpening, ih]
  | case3 depth t ts hOpening hClosing ih =>
    rw [List.filter_cons_of_pos (hCloses t hClosing), separators, if_neg hOpening,
      if_pos hClosing, ih]
  | case4 depth t ts hOpening hClosing hFound ih =>
    have ht : p t = true := by simp_all
    rw [List.filter_cons_of_pos (hp t ht), separators, if_neg hOpening, if_neg hClosing,
      if_pos hFound, ih]
  | case5 depth t ts hOpening hClosing hOther ih =>
    rw [List.filter_cons]
    split
    · rw [separators, if_neg hOpening, if_neg hClosing, if_neg hOther, ih]
    · exact ih

theorem separators_filter {p : Token → Bool} (hp : ∀ t, p t = true → t.isDelimiter = true)
    (depth : Nat) (ts : List Token) :
    separators p depth (ts.filter Token.isDelimiter) = separators p depth ts :=
  separators_filter_of (fun _ => isDelimiter_of_opens) (fun _ => isDelimiter_of_closes) hp depth ts

theorem separators_append {p : Token → Bool} {depth stop : Nat} {a : List Token}
    (h : level depth a = some stop) (b : List Token) :
    separators p depth (a ++ b) = separators p depth a + separators p stop b := by
  induction a generalizing depth with
  | nil => simp_all [level, separators]
  | cons t a ih =>
    rw [List.cons_append, separators, separators]
    rcases level_cons h with ⟨hOpens, hRest⟩ | ⟨hOpens, hCloses, outer, rfl, hRest⟩ |
        ⟨hOpens, hCloses, hRest⟩
    · simp only [hOpens, if_true, ih hRest]
    · simp [hOpens, hCloses, ih hRest]
    · simp only [hOpens, hCloses, ih hRest]
      grind

/-- No separator counts where everything stands inside a bracket opened before. -/
theorem separators_deep {p : Token → Bool} {depth stop : Nat} {ts : List Token}
    (h : level depth ts = some stop) : separators p (depth + 1) ts = 0 := by
  induction ts generalizing depth with
  | nil => rfl
  | cons t ts ih =>
    rw [separators]
    rcases level_cons h with ⟨hOpens, hRest⟩ | ⟨hOpens, hCloses, outer, rfl, hRest⟩ |
        ⟨hOpens, hCloses, hRest⟩
    · simp only [hOpens, if_true, ih hRest]
    · simp [hOpens, hCloses, ih hRest]
    · simp [hOpens, hCloses, ih hRest]

theorem length_topLevelFrom (p : Token → Bool) (depth i : Nat) (ls : List Lexeme) :
    (topLevelFrom p depth i ls).length = separators p depth (ls.map Lexeme.token) := by
  fun_induction topLevelFrom p depth i ls <;> simp_all [separators]

theorem topLevelFrom_append {p : Token → Bool} {depth stop : Nat} {a : List Lexeme}
    (h : level depth (a.map Lexeme.token) = some stop) (i : Nat) (b : List Lexeme) :
    topLevelFrom p depth i (a ++ b) =
      topLevelFrom p depth i a ++ topLevelFrom p stop (i + a.length) b := by
  induction a generalizing depth i with
  | nil =>
    obtain rfl : depth = stop := by simpa [level] using h
    rfl
  | cons l a ih =>
    have hShift : i + (l :: a).length = i + 1 + a.length := by simp; omega
    rw [hShift, List.cons_append, topLevelFrom, topLevelFrom]
    rcases level_cons h with ⟨hOpens, hRest⟩ | ⟨hOpens, hCloses, outer, rfl, hRest⟩ |
        ⟨hOpens, hCloses, hRest⟩
    · simp only [hOpens, if_true, ih hRest]
    · simp [hOpens, hCloses, ih hRest]
    · simp only [hOpens, hCloses, ih hRest]
      grind

theorem closeFrom_append {depth stop : Nat} {a : List Lexeme}
    (h : level depth (a.map Lexeme.token) = some stop) (i : Nat) (b : List Lexeme) :
    closeFrom (depth + 1) i (a ++ b) = closeFrom (stop + 1) (i + a.length) b := by
  induction a generalizing depth i with
  | nil =>
    obtain rfl : depth = stop := by simpa [level] using h
    rfl
  | cons l a ih =>
    have hShift : i + (l :: a).length = i + 1 + a.length := by simp; omega
    rw [hShift, List.cons_append, closeFrom.eq_def]
    rcases level_cons h with ⟨hOpens, hRest⟩ | ⟨hOpens, hCloses, outer, rfl, hRest⟩ |
        ⟨hOpens, hCloses, hRest⟩
    · simp only [hOpens, if_true, ih hRest]
    · simp [hOpens, hCloses, ih hRest]
    · simp [hOpens, hCloses, ih hRest]

theorem closeFrom_shift (depth i n : Nat) (ls : List Lexeme) :
    closeFrom depth (i + n) ls = (closeFrom depth i ls).map (· + n) := by
  fun_induction closeFrom depth i ls <;> simp_all [closeFrom, Nat.add_right_comm]

theorem topLevelFrom_shift (p : Token → Bool) (depth i n : Nat) (ls : List Lexeme) :
    topLevelFrom p depth (i + n) ls = (topLevelFrom p depth i ls).map (· + n) := by
  fun_induction topLevelFrom p depth i ls <;> simp_all [topLevelFrom, Nat.add_right_comm]

/-- A bracket that is closed where the run around it ends has its partner inside the run. -/
theorem closeFrom_of_append {depth inner stop i j : Nat} {a b : List Lexeme}
    (h : level (depth + inner + 1) (a.map Lexeme.token) = some stop) (hStop : stop ≤ depth)
    (hClose : closeFrom (inner + 1) i (a ++ b) = some j) : closeFrom (inner + 1) i a = some j := by
  induction a generalizing inner i with
  | nil =>
    simp [level] at h
    omega
  | cons l a ih =>
    rw [List.cons_append, closeFrom.eq_def] at hClose
    rw [closeFrom.eq_def]
    rcases level_cons h with ⟨hOpens, hRest⟩ | ⟨hOpens, hCloses, outer, hOuter, hRest⟩ |
        ⟨hOpens, hCloses, hRest⟩
    · simp only [hOpens, if_true] at hClose ⊢
      exact ih hRest hClose
    · obtain rfl : depth + inner = outer := by omega
      simp only [hOpens, hCloses, if_true] at hClose ⊢
      cases inner with
      | zero => exact hClose
      | succ inner => exact ih hRest hClose
    · simp only [hOpens, hCloses] at hClose ⊢
      exact ih hRest hClose

/-! ## Slices -/

theorem slice_append_left {α : Type} {s : Span} {a : List α} (h : s.stop ≤ a.length) (b : List α) :
    s.slice (a ++ b) = s.slice a := by
  rw [Span.slice, Span.slice, List.take_append_of_le_length h]

theorem slice_append_right {α : Type} (s : Span) (a b : List α) :
    (s.shift a.length).slice (a ++ b) = s.slice b := by
  simp only [Span.slice, Span.shift]
  rw [Nat.add_comm s.stop, Nat.add_comm s.start, List.take_length_add_append,
    List.drop_length_add_append]

theorem slice_of_drop {α : Type} {ls a b : List α} {i : Nat} (h : ls.drop i = a ++ b) :
    (Span.mk i (i + a.length)).slice ls = a := by
  rw [Span.slice, Nat.add_comm, List.drop_take, h]
  simp

theorem drop_of_drop {α : Type} {ls a b : List α} {i : Nat} (h : ls.drop i = a ++ b) :
    ls.drop (i + a.length) = b := by
  rw [← List.drop_drop, h, List.drop_left]

theorem slice_append_drop {α : Type} {start stop : Nat} (h : start ≤ stop) (as : List α) :
    (Span.mk start stop).slice as ++ as.drop stop = as.drop start := by
  have hRest : as.drop stop = (as.drop start).drop (stop - start) := by
    rw [List.drop_drop, Nat.add_sub_of_le h]
  rw [Span.slice, List.drop_take, hRest, List.take_append_drop]

theorem topLevel_append_right (p : Token → Bool) (a b : List Lexeme) (s : Span) :
    topLevel p (a ++ b) (s.shift a.length) = (topLevel p b s).map (· + a.length) := by
  rw [topLevel, slice_append_right]
  exact topLevelFrom_shift p 0 s.start a.length _

/-! ## Outermost constructs -/

theorem outermostFrom_eq_nil {β : Type} {found? : Nat → Option β} {stop : β → Nat}
    {count position : Nat} :
    outermostFrom found? stop count position 0 = [] ↔
      ∀ i, position ≤ i → i < position + count → found? i = none := by
  induction count generalizing position with
  | zero =>
    simp only [outermostFrom, true_iff]
    omega
  | succ count ih =>
    rw [outermostFrom, if_neg (Nat.not_lt_zero position)]
    constructor
    · intro h i hLow hHigh
      cases hFound : found? position with
      | some b => simp [hFound] at h
      | none =>
        simp only [hFound] at h
        rcases hLow.eq_or_lt with rfl | hLow
        · exact hFound
        · exact ih.1 h i hLow (by omega)
    · intro h
      simp only [h position le_rfl (by omega)]
      exact ih.2 fun i hLow hHigh => h i (by omega) (by omega)

/-- No conditional begins where neither of its first words stands. -/
theorem conditionals_eq_nil {ls : List Lexeme}
    (h : ∀ l ∈ ls, l.token.isWord "IF" = false ∧ l.token.isWord "CASE" = false) :
    conditionals ls = [] := by
  refine outermostFrom_eq_nil.2 fun i _ _ => ?_
  rw [conditionalAt?]
  cases hToken : tokenAt ls i with
  | none => rfl
  | some t =>
    obtain ⟨l, hl, rfl⟩ := Option.map_eq_some_iff.1 hToken
    obtain ⟨hIf, hCase⟩ := h l (List.mem_of_getElem? hl)
    simp [hIf, hCase]

def Ordered (length : Nat) : Nat → List Span → Prop
  | _, [] => True
  | cursor, s :: rest =>
    cursor ≤ s.start ∧ s.start < s.stop ∧ s.stop ≤ length ∧ Ordered length s.stop rest

theorem ordered_outermostFrom {β : Type} {found? : Nat → Option β} {span : β → Span} {length : Nat}
    (hFound : ∀ i b, found? i = some b →
      (span b).start = i ∧ i < (span b).stop ∧ (span b).stop ≤ length)
    {count position free cursor : Nat} (hCursor : cursor ≤ position ∨ cursor ≤ free) :
    Ordered length cursor
      ((outermostFrom found? (fun b => (span b).stop) count position free).map span) := by
  fun_induction outermostFrom found? (fun b => (span b).stop) count position free
    generalizing cursor with
  | case1 => trivial
  | case2 count position free hSkip ih => exact ih (by omega)
  | case3 count position free hFree b hb ih =>
    obtain ⟨hStart, hStop, hLength⟩ := hFound _ _ hb
    exact ⟨by omega, by omega, hLength, ih (.inr le_rfl)⟩
  | case4 count position free hFree hNone ih => exact ih (by omega)

theorem ordered_outermost {β : Type} {found? : Nat → Option β} {span : β → Span} {length : Nat}
    (hFound : ∀ i b, found? i = some b →
      (span b).start = i ∧ i < (span b).stop ∧ (span b).stop ≤ length) (count : Nat) :
    Ordered length 0 ((outermost found? (fun b => (span b).stop) count).map span) :=
  ordered_outermostFrom hFound (.inl le_rfl)

/-- A construct that spans everything is the only outermost one. -/
theorem outermost_of_whole {β : Type} {found? : Nat → Option β} {stop : β → Nat} {length : Nat}
    {b : β} (hFound : found? 0 = some b) (hStop : stop b = length) (hLength : 0 < length) :
    outermost found? stop length = [b] := by
  have hSkip : ∀ count position, position + count = length →
      outermostFrom found? stop count position length = [] := by
    intro count
    induction count with
    | zero => intros; rfl
    | succ count ih =>
      intro position hEnd
      rw [outermostFrom, if_pos (by omega)]
      exact ih (position + 1) (by omega)
  obtain ⟨count, rfl⟩ := Nat.exists_eq_succ_of_ne_zero hLength.ne'
  rw [outermost, outermostFrom, if_neg (Nat.not_lt_zero 0), hFound]
  simp only [hStop]
  rw [hSkip count (0 + 1) (by omega)]

/-! ## What a search finds -/

theorem eq_ok_of_toOption {ε α : Type} {x : Except ε α} {a : α} (h : x.toOption = some a) :
    x = .ok a := by
  cases x with
  | error => cases h
  | ok b => rw [Option.some.inj h]

theorem parseLod_of_lodAt {ls : List Lexeme} {i : Nat} {b : LodBlock} (h : lodAt? ls i = some b) :
    tokenAt ls i = some .lbrace ∧ parseLod ls i = .ok b := by
  rw [lodAt?] at h
  split at h
  case isFalse => cases h
  exact ⟨‹_›, eq_ok_of_toOption h⟩

theorem parse_of_conditionalAt {ls : List Lexeme} {i : Nat} {c : Conditional}
    (h : conditionalAt? ls i = some c) :
    ∃ t, tokenAt ls i = some t ∧
      (t.isWord "IF" = true ∧ parseIf ls i = .ok c ∨ t.isWord "CASE" = true ∧ parseCase ls i = .ok c) := by
  rw [conditionalAt?] at h
  split at h
  case h_2 => cases h
  rename_i t hToken
  refine ⟨t, hToken, ?_⟩
  split at h
  · exact .inl ⟨‹_›, eq_ok_of_toOption h⟩
  split at h
  · exact .inr ⟨‹_›, eq_ok_of_toOption h⟩
  · cases h

theorem parseCall_of_callAt {wanted : List Char → Bool} {ls : List Lexeme} {i : Nat} {c : Call}
    (h : callAt? wanted ls i = some c) :
    ∃ name, tokenAt ls i = some (.identifier name) ∧ wanted name = true ∧ parseCall ls i = .ok c := by
  rw [callAt?] at h
  split at h
  case h_2 => cases h
  rename_i name hToken
  split at h
  case isFalse => cases h
  exact ⟨name, hToken, ‹_›, eq_ok_of_toOption h⟩

theorem isCallAt_of_parseCall {ls : List Lexeme} {i : Nat} {c : Call} (h : parseCall ls i = .ok c) :
    tokenAt ls i = some (.identifier c.name) ∧ isCallAt ls i = true := by
  unfold parseCall at h
  split at h
  case h_2 => cases h
  rename_i name hName
  split at h
  case isFalse => cases h
  rename_i hCall
  simp only at h
  split at h
  case h_2 => cases h
  split at h
  · cases h
    exact ⟨hName, hCall⟩
  · cases h

/-! ## Level of detail -/

def NoLod (ls : List Lexeme) : Prop :=
  ∀ i, lodAt? ls i = none

/-- Where a block begins: its bracket has a partner of its kind, and something stands after the
colon, or between the brackets if there is none. -/
structure IsLodAt (ls : List Lexeme) (i close : Nat) : Prop where
  opening : tokenAt ls i = some .lbrace
  partner : matchingClose ls i = some close
  closing : tokenAt ls close = some .rbrace
  filled : isFilled ls
    ⟨((topLevel (· == .colon) ls ⟨i + 1, close⟩).head?.elim i id) + 1, close⟩ = true

theorem isLodAt_of_lodAt {ls : List Lexeme} {i : Nat} {b : LodBlock} (h : lodAt? ls i = some b) :
    ∃ close, IsLodAt ls i close := by
  obtain ⟨hOpening, h⟩ := parseLod_of_lodAt h
  unfold parseLod at h
  split at h
  · cases h
  rename_i close hPartner
  split at h
  · cases h
  rename_i hClosing
  refine ⟨close, hOpening, hPartner, not_not.1 hClosing, ?_⟩
  simp only at h
  split at h
  all_goals
    rename_i hColon
    rw [hColon]
    split at h
    · assumption
    · cases h

theorem lodAt_of_isLodAt {ls : List Lexeme} {i close : Nat} (h : IsLodAt ls i close) :
    lodAt? ls i ≠ none := by
  have hFilled := h.filled
  rw [lodAt?, if_pos h.opening, parseLod, h.partner]
  simp only [h.closing, ne_eq, not_true_eq_false, if_false]
  split
  all_goals
    rename_i hColon
    rw [hColon] at hFilled
    simp only [List.head?_nil, List.head?_cons, Option.elim_none, Option.elim_some, id_eq] at hFilled
    simp [hFilled, Except.toOption]

theorem noLod_iff_lodBlocks {ls : List Lexeme} : NoLod ls ↔ lodBlocks ls = [] := by
  rw [lodBlocks, outermost, outermostFrom_eq_nil]
  constructor
  · exact fun h i _ _ => h i
  · intro h i
    by_cases hi : i < ls.length
    · exact h i (Nat.zero_le i) (by omega)
    · have hNone : tokenAt ls i = none := by
        rw [tokenAt, List.getElem?_eq_none (not_lt.1 hi)]
        rfl
      rw [lodAt?, hNone, if_neg (by simp)]

/-- No block begins where no curly bracket stands. -/
theorem lodBlocks_eq_nil {ls : List Lexeme} (h : ∀ l ∈ ls, l.token ≠ .lbrace) : lodBlocks ls = [] := by
  refine noLod_iff_lodBlocks.1 fun i => ?_
  rw [lodAt?, if_neg]
  intro hToken
  obtain ⟨l, hl, hSame⟩ := Option.map_eq_some_iff.1 hToken
  exact h l (List.mem_of_getElem? hl) hSame

theorem noLod_iff {ls : List Lexeme} : NoLod ls ↔ ∀ i close, ¬ IsLodAt ls i close := by
  constructor
  · intro h i close hLod
    exact lodAt_of_isLodAt hLod (h i)
  · intro h i
    cases hLod : lodAt? ls i with
    | none => rfl
    | some b =>
      obtain ⟨close, hClose⟩ := isLodAt_of_lodAt hLod
      exact absurd hClose (h i close)

theorem tokenAt_append_left {a : List Lexeme} {i : Nat} (h : i < a.length) (b : List Lexeme) :
    tokenAt (a ++ b) i = tokenAt a i := by
  rw [tokenAt, tokenAt, List.getElem?_append_left h]

theorem tokenAt_append_right (a b : List Lexeme) (i : Nat) :
    tokenAt (a ++ b) (i + a.length) = tokenAt b i := by
  rw [tokenAt, tokenAt, List.getElem?_append_right (by omega), Nat.add_sub_cancel]

/-- A block that begins in a run that ends at its own depth ends in it. -/
theorem isLodAt_of_append_left {a b : List Lexeme} {i close : Nat} (hBalanced : Balanced a)
    (hi : i < a.length) (h : IsLodAt (a ++ b) i close) : IsLodAt a i close := by
  have hPartner : matchingClose a i = some close := by
    have hDrop : (a ++ b).drop i = a.drop i ++ b := List.drop_append_of_le_length hi.le
    have hCons : a.drop i = a[i] :: a.drop (i + 1) := List.drop_eq_getElem_cons hi
    have hToken : (a[i]).token = .lbrace := by
      have hOpening := h.opening
      rw [tokenAt_append_left hi, tokenAt, List.getElem?_eq_getElem hi] at hOpening
      exact Option.some.inj hOpening
    have hFound := h.partner
    rw [matchingClose, hDrop, hCons, List.cons_append, closeFrom.eq_def] at hFound
    rw [matchingClose, hCons, closeFrom.eq_def]
    simp only [hToken, Token.opens, if_true] at hFound ⊢
    have hLevel := hBalanced
    rw [Balanced, ← List.take_append_drop i a, List.map_append, level_append] at hLevel
    obtain ⟨depth, _, hLevel⟩ := Option.bind_eq_some_iff.1 hLevel
    rw [hCons, List.map_cons, hToken, level, if_pos (show Token.lbrace.opens = true from rfl)] at hLevel
    exact @closeFrom_of_append _ 0 _ _ _ _ _ hLevel (Nat.zero_le _) hFound
  have hClose := (matchingClose_bounds hPartner).2
  refine ⟨?_, hPartner, ?_, ?_⟩
  · rw [← h.opening, tokenAt_append_left hi]
  · rw [← h.closing, tokenAt_append_left hClose]
  · have hFilled := h.filled
    rw [isFilled, slice_append_left (by exact hClose.le), topLevel,
      slice_append_left (by exact hClose.le)] at hFilled
    exact hFilled

theorem isLodAt_of_append_right {a b : List Lexeme} {i close : Nat}
    (h : IsLodAt (a ++ b) (i + a.length) (close + a.length)) : IsLodAt b i close := by
  refine ⟨?_, ?_, ?_, ?_⟩
  · rw [← h.opening, tokenAt_append_right]
  · have hPartner := h.partner
    rw [matchingClose, Nat.add_comm i, List.drop_length_add_append, Nat.add_comm _ i,
      closeFrom_shift] at hPartner
    obtain ⟨j, hj, hEq⟩ := Option.map_eq_some_iff.1 hPartner
    rw [matchingClose, hj, Nat.add_right_cancel hEq]
  · rw [← h.closing, tokenAt_append_right]
  · have hFilled := h.filled
    have hBody : Span.mk (i + a.length + 1) (close + a.length) =
        (Span.mk (i + 1) close).shift a.length := by simp [Span.shift]; omega
    rw [hBody, topLevel_append_right] at hFilled
    cases hColons : topLevel (· == .colon) b ⟨i + 1, close⟩ with
    | nil =>
      rw [hColons] at hFilled
      simp only [List.map_nil, List.head?_nil, Option.elim_none, hBody] at hFilled
      rwa [isFilled, slice_append_right] at hFilled
    | cons colon others =>
      rw [hColons] at hFilled
      have hInner : Span.mk (colon + a.length + 1) (close + a.length) =
          (Span.mk (colon + 1) close).shift a.length := by simp [Span.shift]; omega
      simp only [List.map_cons, List.head?_cons, Option.elim_some, id_eq, hInner] at hFilled
      rwa [isFilled, slice_append_right] at hFilled

/-- Blocks do not arise where runs that end at their own depth are put together. -/
theorem NoLod.append {a b : List Lexeme} (ha : NoLod a) (hBalanced : Balanced a) (hb : NoLod b) :
    NoLod (a ++ b) := by
  rw [noLod_iff] at ha hb ⊢
  intro i close hLod
  by_cases hi : i < a.length
  · exact ha i close (isLodAt_of_append_left hBalanced hi hLod)
  · obtain ⟨k, rfl⟩ := Nat.exists_eq_add_of_le' (not_lt.1 hi)
    have hLow := (matchingClose_bounds hLod.partner).1
    obtain ⟨m, rfl⟩ := Nat.exists_eq_add_of_le' ((not_lt.1 hi).trans hLow)
    exact hb k m (isLodAt_of_append_right hLod)

end DaxMigration.Formula
