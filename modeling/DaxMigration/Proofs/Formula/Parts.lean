import DaxMigration.Proofs.Formula.Nesting

/-!
# Parts of constructs

What was recognized at a position, told as a run of lexemes: the brackets around a call or a block
with a balanced run between them, and the rows that the commas of such a run part. The converse is
what generated calls are read back by.
-/

namespace DaxMigration.Formula

/-! ## Brackets -/

theorem closeFrom_eq_some {depth i j : Nat} {ls : List Lexeme}
    (h : closeFrom (depth + 1) i ls = some j) :
    ∃ inner closing rest, ls = inner ++ closing :: rest ∧
      level depth (inner.map Lexeme.token) = some 0 ∧ closing.token.closes = true ∧
      j = i + inner.length := by
  induction ls generalizing depth i with
  | nil => cases h
  | cons l ls ih =>
    rw [closeFrom.eq_def] at h
    cases hOpens : l.token.opens with
    | true =>
      simp only [hOpens, if_true] at h
      obtain ⟨inner, closing, rest, rfl, hLevel, hCloses, rfl⟩ := ih h
      exact ⟨l :: inner, closing, rest, rfl, by simp [level, hOpens, hLevel], hCloses, by simp; omega⟩
    | false =>
      cases hCloses : l.token.closes with
      | false =>
        simp only [hOpens, hCloses, Bool.false_eq_true, if_false] at h
        obtain ⟨inner, closing, rest, rfl, hLevel, hLast, rfl⟩ := ih h
        exact ⟨l :: inner, closing, rest, rfl, by simp [level, hOpens, hCloses, hLevel], hLast,
          by simp; omega⟩
      | true =>
        simp only [hOpens, hCloses, Bool.false_eq_true, if_false, if_true] at h
        cases depth with
        | zero =>
          obtain rfl : i = j := by simpa using h
          exact ⟨[], l, ls, rfl, rfl, hCloses, rfl⟩
        | succ depth =>
          obtain ⟨inner, closing, rest, rfl, hLevel, hLast, rfl⟩ := ih h
          exact ⟨l :: inner, closing, rest, rfl, by simp [level, hOpens, hCloses, hLevel], hLast,
            by simp; omega⟩

theorem drop_eq_cons_of_tokenAt {ls : List Lexeme} {i : Nat} {t : Token} (h : tokenAt ls i = some t) :
    ∃ l, l.token = t ∧ ls.drop i = l :: ls.drop (i + 1) := by
  obtain ⟨l, hl, rfl⟩ := Option.map_eq_some_iff.1 h
  obtain ⟨hLength, rfl⟩ := List.getElem?_eq_some_iff.1 hl
  exact ⟨ls[i], rfl, List.drop_eq_getElem_cons hLength⟩

theorem tokenAt_of_drop {ls rest : List Lexeme} {i : Nat} {l : Lexeme} (h : ls.drop i = l :: rest) :
    tokenAt ls i = some l.token := by
  rw [tokenAt, ← List.head?_drop, h]
  rfl

theorem slice_self {α : Type} (i : Nat) (as : List α) : (Span.mk i i).slice as = [] :=
  List.drop_eq_nil_of_le (List.length_take_le i as)

theorem slice_of_tokenAt {ls : List Lexeme} {start i stop : Nat} {token : Token}
    (h : tokenAt ls i = some token) (hOrder : start ≤ i) (hStop : i < stop) :
    ∃ l, l.token = token ∧ (Span.mk start stop).slice ls =
      (Span.mk start i).slice ls ++ l :: (Span.mk (i + 1) stop).slice ls := by
  have hTaken : tokenAt (ls.take stop) i = some token := by
    rwa [tokenAt, List.getElem?_take_of_lt hStop]
  obtain ⟨l, hToken, hAt⟩ := drop_eq_cons_of_tokenAt hTaken
  refine ⟨l, hToken, ?_⟩
  rw [Span.slice, ← slice_append_drop hOrder, hAt, Span.slice, Span.slice, Span.slice, List.take_take,
    min_eq_left hStop.le]

/-- A bracket with its partner. -/
theorem drop_eq_of_matchingClose {ls : List Lexeme} {i close : Nat} {opening : Token}
    (hOpening : tokenAt ls i = some opening) (hOpens : opening.opens = true)
    (h : matchingClose ls i = some close) :
    ∃ first inner last rest, ls.drop i = first :: (inner ++ last :: rest) ∧ first.token = opening ∧
      Balanced inner ∧ tokenAt ls close = some last.token ∧ close = i + 1 + inner.length := by
  obtain ⟨first, rfl, hDrop⟩ := drop_eq_cons_of_tokenAt hOpening
  rw [matchingClose, hDrop, closeFrom.eq_def] at h
  simp only [hOpens, if_true] at h
  obtain ⟨inner, last, rest, hRest, hLevel, -, rfl⟩ := closeFrom_eq_some h
  refine ⟨first, inner, last, rest, by rw [hDrop, hRest], rfl, hLevel, ?_, rfl⟩
  exact tokenAt_of_drop (drop_of_drop hRest)

/-! ## Rows between commas -/

inductive Listed : List (List Lexeme) → List Lexeme → Prop
  | single (row : List Lexeme) : Listed [row] row
  | more (row : List Lexeme) {comma : Lexeme} {rows : List (List Lexeme)} {ls : List Lexeme}
      (hComma : comma.token = .comma) (h : Listed rows ls) :
      Listed (row :: rows) (row ++ comma :: ls)

structure IsSlot (ls : List Lexeme) : Prop where
  balanced : Balanced ls
  unparted : separators (· == .comma) 0 (ls.map Lexeme.token) = 0

instance (ls : List Lexeme) : Decidable (IsSlot ls) :=
  decidable_of_iff (_ ∧ _) ⟨fun h => ⟨h.1, h.2⟩, fun h => ⟨h.balanced, h.unparted⟩⟩

theorem topLevelFrom_of_none {p : Token → Bool} {ls : List Lexeme}
    (h : separators p 0 (ls.map Lexeme.token) = 0) (i : Nat) : topLevelFrom p 0 i ls = [] := by
  rw [← List.length_eq_zero_iff, length_topLevelFrom]
  exact h

theorem isSlot_nil : IsSlot [] := ⟨rfl, rfl⟩

/-- Brackets around a balanced run make one that no comma parts. -/
theorem isSlot_bracketed {opening closing : Lexeme} (hOpens : opening.token.opens = true)
    (hCloses : closing.token.closes = true) {inner : List Lexeme} (h : Balanced inner) :
    IsSlot (opening :: (inner ++ [closing])) := by
  have hNot : closing.token.opens = false := by cases hToken : closing.token <;> simp_all [Token.closes, Token.opens]
  have hLevel := h.level_eq 1
  refine ⟨?_, ?_⟩
  · simp [Balanced, level, level_append, hOpens, hCloses, hNot, hLevel]
  · simp [separators, separators_append hLevel, separators_deep (show level 0 _ = some 0 from h),
      hOpens, hCloses, hNot]

namespace Listed

variable {rows : List (List Lexeme)} {body : List Lexeme}

theorem ne_nil (h : Listed rows body) : rows ≠ [] := by
  cases h <;> simp

theorem mem (h : Listed rows body) {row : List Lexeme} (hRow : row ∈ rows) {l : Lexeme}
    (hl : l ∈ row) : l ∈ body := by
  induction h with
  | single => simpa [List.mem_singleton.1 hRow] using hl
  | more first _ _ ih =>
    rcases List.mem_cons.1 hRow with rfl | hRow
    · exact List.mem_append_left _ hl
    · exact List.mem_append_right _ (List.mem_cons_of_mem _ (ih hRow))

theorem mem_or_comma (h : Listed rows body) {l : Lexeme} (hl : l ∈ body) :
    (∃ row ∈ rows, l ∈ row) ∨ l.token = .comma := by
  induction h with
  | single row => exact .inl ⟨row, List.mem_singleton_self row, hl⟩
  | more row hComma _ ih =>
    rcases List.mem_append.1 hl with hl | hl
    · exact .inl ⟨row, List.mem_cons_self, hl⟩
    rcases List.mem_cons.1 hl with rfl | hl
    · exact .inr hComma
    rcases ih hl with ⟨other, hOther, hMem⟩ | hToken
    · exact .inl ⟨other, List.mem_cons_of_mem _ hOther, hMem⟩
    · exact .inr hToken

theorem balanced (h : Listed rows body) (hSlots : ∀ r ∈ rows, IsSlot r) : Balanced body := by
  induction h with
  | single row => exact (hSlots row List.mem_cons_self).balanced
  | more row hComma _ ih =>
    obtain ⟨hRow, hRest⟩ := List.forall_mem_cons.1 hSlots
    refine hRow.balanced.append ?_
    simp [Balanced, level, hComma, Token.opens, Token.closes, show level 0 _ = some 0 from ih hRest]

/-- The pieces between the commas are the rows. -/
theorem pieces (h : Listed rows body) (hSlots : ∀ r ∈ rows, IsSlot r) {ls tail : List Lexeme}
    {start : Nat} (hAt : ls.drop start = body ++ tail) :
    (Formula.pieces start (start + body.length)
      (topLevelFrom (· == .comma) 0 start body)).map (·.slice ls) = rows := by
  induction h generalizing start with
  | single row =>
    rw [topLevelFrom_of_none (hSlots row List.mem_cons_self).unparted, Formula.pieces, List.map_singleton,
      slice_of_drop hAt]
  | @more row comma rows body hComma _ ih =>
    obtain ⟨hRow, hRest⟩ := List.forall_mem_cons.1 hSlots
    rw [List.append_assoc, List.cons_append] at hAt
    have hNext : ls.drop (start + row.length + 1) = body ++ tail :=
      drop_of_drop (a := [comma]) (drop_of_drop hAt)
    have hStop : start + (row ++ comma :: body).length = start + row.length + 1 + body.length := by
      simp; omega
    have hTop : topLevelFrom (· == .comma) 0 (start + row.length) (comma :: body) =
        (start + row.length) :: topLevelFrom (· == .comma) 0 (start + row.length + 1) body := by
      simp [topLevelFrom, hComma, Token.opens, Token.closes]
    rw [hStop, topLevelFrom_append hRow.balanced, topLevelFrom_of_none hRow.unparted, List.nil_append, hTop,
      Formula.pieces, List.map_cons, slice_of_drop hAt, ih hRest hNext]

/-- The arguments of a run with something besides comments are its rows. -/
theorem splitTopLevel (h : Listed rows body) (hSlots : ∀ r ∈ rows, IsSlot r)
    (hFilled : ∃ l ∈ body, l.isComment = false) {ls tail : List Lexeme} {start : Nat}
    (hAt : ls.drop start = body ++ tail) :
    (Formula.splitTopLevel ls ⟨start, start + body.length⟩).map (·.slice ls) = rows := by
  have hSpan := slice_of_drop hAt
  rw [Formula.splitTopLevel, if_pos, topLevel, hSpan]
  · exact h.pieces hSlots hAt
  · rw [isFilled_iff, hSpan]
    exact hFilled

/-- Every balanced run is parted by its commas. -/
theorem exists_of_balanced {body : List Lexeme} (h : Balanced body) :
    ∃ rows, Listed rows body ∧ ∀ r ∈ rows, IsSlot r := by
  -- `row` is what was read of the first row, up to a place inside `depth` brackets.
  suffices hAll : ∀ (body row : List Lexeme) (depth : Nat),
      level 0 (row.map Lexeme.token) = some depth →
      separators (· == .comma) 0 (row.map Lexeme.token) = 0 →
      level depth (body.map Lexeme.token) = some 0 →
      ∃ rows, Listed rows (row ++ body) ∧ ∀ r ∈ rows, IsSlot r from hAll body [] 0 rfl rfl h
  intro body
  induction body with
  | nil =>
    intro row depth hRow hCommas hBody
    obtain rfl : depth = 0 := by simpa [level] using hBody
    refine ⟨[row], by simpa using Listed.single row, ?_⟩
    simpa using IsSlot.mk hRow hCommas
  | cons l body ih =>
    intro row depth hRow hCommas hBody
    have hSnoc : ∀ (next : Nat), level depth [l.token] = some next →
        separators (· == .comma) depth [l.token] = 0 →
        level next (body.map Lexeme.token) = some 0 →
        ∃ rows, Listed rows (row ++ l :: body) ∧ ∀ r ∈ rows, IsSlot r := by
      intro next hLevel hNone hRest
      have hThis := ih (row ++ [l]) next (by simp [level_append, hRow, hLevel])
        (by simp [separators_append hRow, hCommas, hNone]) hRest
      simpa using hThis
    rcases level_cons hBody with ⟨hOpens, hRest⟩ | ⟨hOpens, hCloses, outer, rfl, hRest⟩ |
        ⟨hOpens, hCloses, hRest⟩
    · exact hSnoc (depth + 1) (by simp [level, hOpens]) (by simp [separators, hOpens]) hRest
    · exact hSnoc outer (by simp [level, hOpens, hCloses]) (by simp [separators, hOpens, hCloses]) hRest
    · by_cases hComma : depth = 0 ∧ l.token = .comma
      · obtain ⟨rfl, hToken⟩ := hComma
        obtain ⟨rows, hListed, hSlots⟩ := ih [] 0 rfl rfl hRest
        exact ⟨row :: rows, .more row hToken hListed,
          List.forall_mem_cons.2 ⟨⟨hRow, hCommas⟩, hSlots⟩⟩
      · refine hSnoc depth (by simp [level, hOpens, hCloses]) ?_ hRest
        simpa [separators, hOpens, hCloses] using hComma

end Listed

/-! ## Calls -/

structure CallRun where
  first : Lexeme
  opening : Lexeme
  inner : List Lexeme
  closing : Lexeme

namespace CallRun

def lexemes (r : CallRun) : List Lexeme :=
  r.first :: r.opening :: (r.inner ++ [r.closing])

structure IsCall (r : CallRun) (name : List Char) : Prop where
  first : r.first.token = .identifier name
  opening : r.opening.token = .lparen
  balanced : Balanced r.inner
  closing : r.closing.token = .rparen

@[simp]
theorem length_lexemes (r : CallRun) : r.lexemes.length = r.inner.length + 3 := by
  simp [lexemes]

theorem IsCall.isSlot {r : CallRun} {name : List Char} (h : r.IsCall name) : IsSlot r.lexemes := by
  have hBracketed := @isSlot_bracketed r.opening r.closing
    (by rw [h.opening]; rfl) (by rw [h.closing]; rfl) _ h.balanced
  constructor
  · have hLevel := hBracketed.balanced
    simpa [lexemes, Balanced, level, h.first, Token.opens, Token.closes] using hLevel
  · have hNone := hBracketed.unparted
    simpa [lexemes, separators, h.first, Token.opens, Token.closes] using hNone

end CallRun

theorem nextSignificant_of_drop {ls rest : List Lexeme} {i : Nat} {l : Lexeme}
    (h : ls.drop i = l :: rest) (hComment : l.isComment = false) : nextSignificant ls i = some i := by
  have hLength : i < ls.length := by
    by_contra hEnd
    rw [List.drop_eq_nil_of_le (by omega)] at h
    cases h
  simp [nextSignificant, h, hComment, hLength]

/-- A call found in a run without comments. -/
theorem run_of_parseCall {ls : List Lexeme} {i : Nat} {c : Call}
    (hComment : ∀ l ∈ ls, l.isComment = false) (h : parseCall ls i = .ok c) :
    ∃ (r : CallRun) (rest : List Lexeme), ls.drop i = r.lexemes ++ rest ∧ r.IsCall c.name ∧
      c = ⟨⟨i, i + r.lexemes.length⟩, c.name, splitTopLevel ls ⟨i + 2, i + 2 + r.inner.length⟩⟩ := by
  unfold parseCall at h
  split at h
  case h_2 => cases h
  rename_i name hName
  obtain ⟨first, hFirst, hDrop⟩ := drop_eq_cons_of_tokenAt hName
  split at h
  case isFalse => cases h
  rename_i hCall
  obtain ⟨opening, hSecond, hOpening⟩ : ∃ opening, ls.drop (i + 1) = opening :: ls.drop (i + 2) ∧
      opening.token = .lparen := by
    rw [isCallAt, hDrop] at hCall
    simp only [followedByParen, Bool.and_eq_true, beq_iff_eq] at hCall
    cases hCons : ls.drop (i + 1) with
    | nil => simp [hCons] at hCall
    | cons opening rest =>
      have hMem : opening ∈ ls := List.mem_of_mem_drop (by rw [hCons]; exact List.mem_cons_self)
      have hRest : rest = ls.drop (i + 2) := (drop_of_drop (a := [opening]) hCons).symm
      refine ⟨opening, by rw [hRest], ?_⟩
      simpa [hCons, hComment opening hMem] using hCall.2
  have hMem : opening ∈ ls := List.mem_of_mem_drop (by rw [hSecond]; exact List.mem_cons_self)
  rw [nextSignificant_of_drop hSecond (hComment opening hMem)] at h
  simp only [Option.getD_some] at h
  split at h
  case h_2 => cases h
  rename_i close hMatch
  split at h
  case isFalse => cases h
  rename_i hClosing
  have hParen : tokenAt ls (i + 1) = some .lparen := by rw [tokenAt_of_drop hSecond, hOpening]
  obtain ⟨opening', inner, closing, rest, hRun, hToken, hBalanced, hClose, rfl⟩ :=
    drop_eq_of_matchingClose hParen rfl hMatch
  refine ⟨⟨first, opening', inner, closing⟩, rest, ?_, ⟨?_, hToken, hBalanced, ?_⟩, ?_⟩
  · rw [hDrop, hRun]
    simp [CallRun.lexemes]
  · cases h
    exact hFirst
  · rw [hClosing] at hClose
    exact (Option.some.inj hClose).symm
  · cases h
    simp; omega

theorem run_of_callAt {wanted : List Char → Bool} {ls : List Lexeme} {i : Nat} {c : Call}
    (hComment : ∀ l ∈ ls, l.isComment = false) (h : callAt? wanted ls i = some c) :
    wanted c.name = true ∧
      ∃ (r : CallRun) (rest : List Lexeme), ls.drop i = r.lexemes ++ rest ∧ r.IsCall c.name ∧
        c = ⟨⟨i, i + r.lexemes.length⟩, c.name, splitTopLevel ls ⟨i + 2, i + 2 + r.inner.length⟩⟩ := by
  obtain ⟨name, hName, hWanted, hParse⟩ := parseCall_of_callAt h
  obtain ⟨r, rest, hAt, hCall, hEq⟩ := run_of_parseCall hComment hParse
  refine ⟨?_, r, rest, hAt, hCall, hEq⟩
  rw [tokenAt_of_drop hAt, hCall.first] at hName
  cases hName
  exact hWanted

/-- A name and brackets around a balanced run are a call, wherever they stand. -/
theorem parseCall_of_isCall {ls rest : List Lexeme} {i : Nat} {r : CallRun} {name : List Char}
    (h : r.IsCall name) (hAt : ls.drop i = r.lexemes ++ rest) :
    parseCall ls i =
      .ok ⟨⟨i, i + r.lexemes.length⟩, name, splitTopLevel ls ⟨i + 2, i + 2 + r.inner.length⟩⟩ := by
  have hFirst : ls.drop i = r.first :: r.opening :: (r.inner ++ r.closing :: rest) := by
    simpa [CallRun.lexemes] using hAt
  have hOpening : ls.drop (i + 1) = r.opening :: (r.inner ++ r.closing :: rest) :=
    drop_of_drop (a := [r.first]) hFirst
  have hInner : ls.drop (i + 2) = r.inner ++ r.closing :: rest :=
    drop_of_drop (a := [r.first, r.opening]) hFirst
  have hComment : r.opening.isComment = false := by rw [Lexeme.isComment, h.opening]; rfl
  have hHead : tokenAt ls i = some (.identifier name) := by rw [tokenAt_of_drop hFirst, h.first]
  have hCall : isCallAt ls i = true := by
    rw [isCallAt, hFirst]
    simp [h.first, Token.isIdentifier, followedByParen, hComment, h.opening]
  have hNext : nextSignificant ls (i + 1) = some (i + 1) := nextSignificant_of_drop hOpening hComment
  have hMatch : matchingClose ls (i + 1) = some (i + 2 + r.inner.length) := by
    rw [matchingClose, hOpening, closeFrom.eq_def]
    simp only [h.opening, Token.opens, if_true]
    rw [closeFrom_append h.balanced, closeFrom.eq_def]
    simp [h.closing, Token.opens, Token.closes]
  have hToken : tokenAt ls (i + 2 + r.inner.length) = some .rparen := by
    rw [tokenAt_of_drop (drop_of_drop hInner), h.closing]
  have hLength : i + 2 + r.inner.length + 1 = i + r.lexemes.length := by rw [r.length_lexemes]; omega
  simp only [parseCall, hHead, hCall, if_true, hNext, Option.getD_some, hMatch, hToken, hLength]

/-- The arguments of such a call are the rows between its commas. -/
theorem parseCall_of_run {ls rest : List Lexeme} {i : Nat} {r : CallRun} {name : List Char}
    (h : r.IsCall name) {rows : List (List Lexeme)} (hListed : Listed rows r.inner)
    (hSlots : ∀ row ∈ rows, IsSlot row) (hFilled : ∃ l ∈ r.inner, l.isComment = false)
    (hAt : ls.drop i = r.lexemes ++ rest) :
    ∃ args, parseCall ls i = .ok ⟨⟨i, i + r.lexemes.length⟩, name, args⟩ ∧
      args.map (·.slice ls) = rows := by
  have hInner : ls.drop (i + 2) = r.inner ++ r.closing :: rest := by
    refine drop_of_drop (a := [r.first, r.opening]) ?_
    simpa [CallRun.lexemes] using hAt
  exact ⟨_, parseCall_of_isCall h hAt, hListed.splitTopLevel hSlots hFilled hInner⟩

/-! ## Blocks -/

/-- The lexemes of a level-of-detail block: what stands in front of its expression, up to a colon if
there is one, and the expression. -/
structure BlockRun where
  opening : Lexeme
  head : List Lexeme
  inner : List Lexeme
  closing : Lexeme

namespace BlockRun

def lexemes (r : BlockRun) : List Lexeme :=
  r.opening :: (r.head ++ r.inner ++ [r.closing])

structure IsBlock (r : BlockRun) : Prop where
  opening : r.opening.token = .lbrace
  head : (r.head = [] ∧ separators (· == .colon) 0 (r.inner.map Lexeme.token) = 0) ∨
    ∃ before colon, r.head = before ++ [colon] ∧ Balanced before ∧
      separators (· == .colon) 0 (before.map Lexeme.token) = 0 ∧ colon.token = .colon
  balanced : Balanced r.inner
  closing : r.closing.token = .rbrace

@[simp]
theorem length_lexemes (r : BlockRun) : r.lexemes.length = r.head.length + r.inner.length + 2 := by
  simp [lexemes, Nat.add_assoc]

theorem IsBlock.balanced_head {r : BlockRun} (h : r.IsBlock) : Balanced r.head := by
  rcases h.head with ⟨hNone, -⟩ | ⟨before, colon, hHead, hBefore, -, hColon⟩
  · rw [hNone]
    rfl
  · rw [hHead]
    refine hBefore.append ?_
    simp [Balanced, level, hColon, Token.opens, Token.closes]

theorem IsBlock.isSlot {r : BlockRun} (h : r.IsBlock) : IsSlot r.lexemes :=
  isSlot_bracketed (by rw [h.opening]; rfl) (by rw [h.closing]; rfl)
    (h.balanced_head.append h.balanced)

end BlockRun

/-- The first position found outside all brackets, in a balanced run. -/
theorem topLevelFrom_eq_cons {p : Token → Bool} {depth stop i k : Nat} {ls : List Lexeme}
    {others : List Nat} (hLevel : level depth (ls.map Lexeme.token) = some stop)
    (h : topLevelFrom p depth i ls = k :: others) :
    ∃ before l rest, ls = before ++ l :: rest ∧ k = i + before.length ∧
      level depth (before.map Lexeme.token) = some 0 ∧
      separators p depth (before.map Lexeme.token) = 0 ∧ p l.token = true ∧
      l.token.opens = false ∧ l.token.closes = false := by
  induction ls generalizing depth i with
  | nil => cases h
  | cons l ls ih =>
    rw [topLevelFrom] at h
    rcases level_cons hLevel with ⟨hOpens, hRest⟩ | ⟨hOpens, hCloses, outer, rfl, hRest⟩ |
        ⟨hOpens, hCloses, hRest⟩
    · simp only [hOpens, if_true] at h
      obtain ⟨before, m, rest, rfl, rfl, hBefore, hNone, hm⟩ := ih hRest h
      exact ⟨l :: before, m, rest, rfl, by simp; omega, by simp [level, hOpens, hBefore],
        by simp [separators, hOpens, hNone], hm⟩
    · simp only [hOpens, hCloses, Bool.false_eq_true, if_false, if_true] at h
      obtain ⟨before, m, rest, rfl, rfl, hBefore, hNone, hm⟩ := ih hRest h
      exact ⟨l :: before, m, rest, rfl, by simp; omega, by simp [level, hOpens, hCloses, hBefore],
        by simpa [separators, hOpens, hCloses] using hNone, hm⟩
    · simp only [hOpens, hCloses, Bool.false_eq_true, if_false] at h
      split at h
      · rename_i hFound
        obtain ⟨rfl, hp⟩ : depth = 0 ∧ p l.token = true := by simpa using hFound
        obtain ⟨rfl, -⟩ := List.cons.inj h
        exact ⟨[], l, ls, rfl, rfl, rfl, rfl, hp, hOpens, hCloses⟩
      · rename_i hOther
        obtain ⟨before, m, rest, rfl, rfl, hBefore, hNone, hm⟩ := ih hRest h
        refine ⟨l :: before, m, rest, rfl, by simp; omega,
          by simp [level, hOpens, hCloses, hBefore], ?_, hm⟩
        simpa [separators, hOpens, hCloses, hNone] using hOther

theorem Balanced.of_append {a b : List Lexeme} (h : Balanced (a ++ b)) (ha : Balanced a) :
    Balanced b := by
  rw [Balanced, List.map_append, level_append, ha] at h
  exact h

/-- A block found at a curly bracket. -/
theorem run_of_parseLod {ls : List Lexeme} {i : Nat} {b : LodBlock}
    (hOpening : tokenAt ls i = some .lbrace) (h : parseLod ls i = .ok b) :
    ∃ (r : BlockRun) (rest : List Lexeme), ls.drop i = r.lexemes ++ rest ∧ r.IsBlock ∧
      b.span = ⟨i, i + r.lexemes.length⟩ ∧
      b.inner = ⟨i + 1 + r.head.length, i + 1 + r.head.length + r.inner.length⟩ ∧
      ∃ l ∈ r.inner, l.isComment = false := by
  unfold parseLod at h
  split at h
  · cases h
  rename_i close hPartner
  obtain ⟨first, body, last, rest, hRun, hFirst, hBody, hLast, rfl⟩ :=
    drop_eq_of_matchingClose hOpening rfl hPartner
  split at h
  · cases h
  rename_i hBrace
  have hClosing : last.token = .rbrace := by
    rw [hLast] at hBrace
    exact Option.some.inj (not_not.1 hBrace)
  have hAt : ls.drop (i + 1) = body ++ last :: rest := drop_of_drop (a := [first]) hRun
  have hSlice : (Span.mk (i + 1) (i + 1 + body.length)).slice ls = body := slice_of_drop hAt
  simp only at h
  split at h
  · rename_i hColon
    split at h
    case isFalse => cases h
    rename_i hFilled
    rw [topLevel, hSlice, ← List.length_eq_zero_iff, length_topLevelFrom] at hColon
    rw [isFilled_iff, hSlice] at hFilled
    refine ⟨⟨first, [], body, last⟩, rest, by simp [hRun, BlockRun.lexemes],
      ⟨hFirst, .inl ⟨rfl, hColon⟩, hBody, hClosing⟩, ?_, ?_, hFilled⟩
    · cases h
      simp; omega
    · cases h
      simp
  · rename_i colon others hColon
    rw [topLevel, hSlice] at hColon
    obtain ⟨before, l, inner, rfl, rfl, hBefore, hNone, hToken, hOpens, hCloses⟩ :=
      topLevelFrom_eq_cons hBody hColon
    have hHead : Balanced (before ++ [l]) := by
      refine Balanced.append hBefore ?_
      simp [Balanced, level, hOpens, hCloses]
    have hInner : Balanced inner := by
      rw [show before ++ l :: inner = before ++ [l] ++ inner by simp] at hBody
      exact hBody.of_append hHead
    have hAtInner : ls.drop (i + 1 + (before ++ [l]).length) = inner ++ last :: rest := by
      refine drop_of_drop (a := before ++ [l]) ?_
      simpa using hAt
    have hInnerSlice := slice_of_drop hAtInner
    have hStop : i + 1 + (before ++ l :: inner).length =
        i + 1 + (before ++ [l]).length + inner.length := by simp; omega
    have hStart : i + 1 + before.length + 1 = i + 1 + (before ++ [l]).length := by simp; omega
    split at h
    case isFalse => cases h
    rename_i hFilled
    rw [isFilled_iff, hStop, hStart, hInnerSlice] at hFilled
    refine ⟨⟨first, before ++ [l], inner, last⟩, rest, by simp [hRun, BlockRun.lexemes],
      ⟨hFirst, .inr ⟨before, l, rfl, hBefore, hNone, by simpa using hToken⟩, hInner, hClosing⟩,
      ?_, ?_, hFilled⟩
    · cases h
      simp; omega
    · cases h
      simp; omega

end DaxMigration.Formula
