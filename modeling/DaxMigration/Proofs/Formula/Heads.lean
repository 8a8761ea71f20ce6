import DaxMigration.Formula.Kind
import DaxMigration.Proofs.Formula.Parts

/-!
# Blocks and what their heads say

A run that is a block is found wherever it stands, with the keyword, the dimensions and the
expression that the run has.
-/

namespace DaxMigration.Formula

inductive HeadSays : List Lexeme → LodKeyword → List (List Char) → Prop
  | absent : HeadSays [] .fixed []
  | colon {colon : Lexeme} (hColon : colon.token = .colon) : HeadSays [colon] .fixed []
  | keyword {word colon : Lexeme} {name : List Char} (hWord : word.token = .identifier name)
      (hColon : colon.token = .colon) : HeadSays [word, colon] (.ofName name) []
  | dimensions {word colon : Lexeme} {name : List Char} {fields run : List Lexeme}
      {names : List (List Char)} (hWord : word.token = .identifier name)
      (hListed : Listed (fields.map fun l => [l]) run)
      (hNames : fields.map Lexeme.token = names.map .field) (hColon : colon.token = .colon) :
      HeadSays (word :: (run ++ [colon])) (.ofName name) names

variable {ls rest : List Lexeme} {i : Nat}

/-- The dimensions of a head that lists single fields. -/
theorem map_dimensionName {spans : List Span} {fields : List Lexeme} {names : List (List Char)}
    (hSlices : spans.map (·.slice ls) = fields.map fun l => [l])
    (hNames : fields.map Lexeme.token = names.map .field) :
    spans.map (dimensionName ls) = names ∧ ∀ s ∈ spans, isFilled ls s = true := by
  induction spans generalizing fields names with
  | nil =>
    obtain rfl : fields = [] := by simpa using hSlices.symm
    obtain rfl : names = [] := by simpa using hNames.symm
    exact ⟨rfl, by simp⟩
  | cons s spans ih =>
    obtain ⟨⟨token, text, leading⟩, fields, rfl⟩ : ∃ l rest, fields = l :: rest := by
      cases fields with
      | nil => cases hSlices
      | cons l rest => exact ⟨l, rest, rfl⟩
    obtain ⟨name, names, rfl⟩ : ∃ n rest, names = n :: rest := by
      cases names with
      | nil => cases hNames
      | cons n rest => exact ⟨n, rest, rfl⟩
    obtain ⟨hSlice, hSlicesRest⟩ := List.cons.inj hSlices
    obtain ⟨hToken, hNamesRest⟩ := List.cons.inj hNames
    obtain ⟨hOthers, hFilled⟩ := ih hSlicesRest hNamesRest
    obtain rfl : token = .field name := hToken
    replace hSlice : s.slice ls = [⟨.field name, text, leading⟩] := hSlice
    have hComment : Lexeme.isComment ⟨.field name, text, leading⟩ = false := rfl
    refine ⟨?_, List.forall_mem_cons.2 ⟨?_, hFilled⟩⟩
    · rw [List.map_cons, hOthers, dimensionName, hSlice]
      simp [hComment]
    · rw [isFilled_iff, hSlice]
      exact ⟨_, List.mem_singleton_self _, hComment⟩

theorem isSlot_single {l : Lexeme} (hOpens : l.token.opens = false) (hCloses : l.token.closes = false)
    (hComma : l.token ≠ .comma) : IsSlot [l] := by
  constructor
  · simp [Balanced, level, hOpens, hCloses]
  · simp [separators, hOpens, hCloses, hComma]

/-- What is read of a head between the bracket and the colon. -/
theorem lodHead_of_says {before : List Lexeme} {colon : Lexeme} {keyword : LodKeyword}
    {names : List (List Char)} (hSays : HeadSays (before ++ [colon]) keyword names)
    (hColon : colon.token = .colon) (hAt : ls.drop i = before ++ colon :: rest) :
    (lodHead ls ⟨i, i + before.length⟩).1 = keyword ∧
      ((lodHead ls ⟨i, i + before.length⟩).2.filter (isFilled ls)).map (dimensionName ls) = names := by
  generalize hHead : before ++ [colon] = head at hSays
  cases hSays with
  | absent => simp at hHead
  | colon =>
    obtain rfl : before = [] := (List.append_inj' (show before ++ [colon] = [] ++ [_] from hHead) rfl).1
    have hNext := nextSignificant_of_drop hAt (by rw [Lexeme.isComment, hColon]; rfl)
    simp [lodHead, hNext]
  | @keyword word colon' name hWord =>
    obtain rfl : before = [word] :=
      (List.append_inj' (show before ++ [colon] = [word] ++ [_] from hHead) rfl).1
    have hNext := nextSignificant_of_drop hAt (by rw [Lexeme.isComment, hWord]; rfl)
    have hSplit : splitTopLevel ls ⟨i + 1, i + 1⟩ = [] := by
      simp [splitTopLevel, isFilled, Span.slice]
    have hNot : ¬i + 1 ≤ i := by omega
    simp [lodHead, hNext, tokenAt_of_drop hAt, hWord, hSplit, hNot]
  | @dimensions word colon' name fields run names hWord hListed hNames =>
    obtain rfl : before = word :: run :=
      (List.append_inj' (show before ++ [colon] = word :: run ++ [_] from hHead) rfl).1
    have hNext := nextSignificant_of_drop hAt (by rw [Lexeme.isComment, hWord]; rfl)
    have hRun : ls.drop (i + 1) = run ++ colon :: rest := drop_of_drop (a := [word]) hAt
    have hField : ∀ l ∈ fields, ∃ name, l.token = .field name := by
      intro l hl
      have hMem := List.mem_map_of_mem (f := Lexeme.token) hl
      rw [hNames] at hMem
      obtain ⟨name, -, hToken⟩ := List.mem_map.1 hMem
      exact ⟨name, hToken.symm⟩
    have hSlots : ∀ row ∈ fields.map fun l => [l], IsSlot row := by
      intro row hRow
      obtain ⟨l, hl, rfl⟩ := List.mem_map.1 hRow
      obtain ⟨name, hToken⟩ := hField l hl
      exact isSlot_single (by rw [hToken]; rfl) (by rw [hToken]; rfl) (by rw [hToken]; simp)
    have hFilled : ∃ l ∈ run, l.isComment = false := by
      obtain ⟨row, hRow⟩ := List.exists_mem_of_ne_nil _ hListed.ne_nil
      obtain ⟨l, hl, rfl⟩ := List.mem_map.1 hRow
      obtain ⟨name, hToken⟩ := hField l hl
      exact ⟨l, hListed.mem hRow (List.mem_singleton_self l), by rw [Lexeme.isComment, hToken]; rfl⟩
    have hSlices := hListed.splitTopLevel hSlots hFilled hRun
    obtain ⟨hMap, hAll⟩ := map_dimensionName hSlices hNames
    have hLength : i + (word :: run).length = i + 1 + run.length := by simp; omega
    have hHeadSpans : lodHead ls ⟨i, i + (word :: run).length⟩ =
        (.ofName name, splitTopLevel ls ⟨i + 1, i + 1 + run.length⟩) := by
      rw [hLength]
      simp [lodHead, hNext, tokenAt_of_drop hAt, hWord]
      omega
    rw [hHeadSpans]
    refine ⟨rfl, ?_⟩
    rw [List.filter_eq_self.2 hAll, hMap]

/-- A run that is a block is found where it stands, and says what its head says. -/
theorem lodAt_of_run {r : BlockRun} (h : r.IsBlock) (hFilled : ∃ l ∈ r.inner, l.isComment = false)
    (hAt : ls.drop i = r.lexemes ++ rest) :
    ∃ b, lodAt? ls i = some b ∧ b.span.slice ls = r.lexemes ∧ b.inner.slice ls = r.inner ∧
      ∀ keyword names, HeadSays r.head keyword names →
        b.keyword = keyword ∧ b.dimensions.map (dimensionName ls) = names := by
  have hWhole : (Span.mk i (i + r.lexemes.length)).slice ls = r.lexemes := slice_of_drop hAt
  have hOpen : ls.drop i = r.opening :: (r.head ++ r.inner ++ r.closing :: rest) := by
    simpa [BlockRun.lexemes] using hAt
  have hBody : ls.drop (i + 1) = r.head ++ r.inner ++ r.closing :: rest :=
    drop_of_drop (a := [r.opening]) hOpen
  have hHeadAt : ls.drop (i + 1) = r.head ++ (r.inner ++ r.closing :: rest) := by
    rw [hBody, List.append_assoc]
  have hInner : ls.drop (i + 1 + r.head.length) = r.inner ++ r.closing :: rest := drop_of_drop hHeadAt
  have hClose : ls.drop (i + 1 + (r.head ++ r.inner).length) = r.closing :: rest := drop_of_drop hBody
  have hOpening : tokenAt ls i = some .lbrace := by rw [tokenAt_of_drop hOpen, h.opening]
  have hPartner : matchingClose ls i = some (i + 1 + (r.head ++ r.inner).length) := by
    rw [matchingClose, hOpen, closeFrom.eq_def]
    simp only [h.opening, Token.opens, if_true]
    rw [closeFrom_append (h.balanced_head.append h.balanced), closeFrom.eq_def]
    simp [h.closing, Token.opens, Token.closes]
  have hBrace : tokenAt ls (i + 1 + (r.head ++ r.inner).length) = some .rbrace := by
    rw [tokenAt_of_drop hClose, h.closing]
  have hLength : i + 1 + (r.head ++ r.inner).length + 1 = i + r.lexemes.length := by
    simp; omega
  have hInnerSlice := slice_of_drop hInner
  have hStop : i + 1 + r.head.length + r.inner.length = i + 1 + (r.head ++ r.inner).length := by
    simp [Nat.add_assoc]
  have hAll : isFilled ls ⟨i + 1 + r.head.length, i + 1 + (r.head ++ r.inner).length⟩ = true := by
    rw [← hStop, isFilled_iff, hInnerSlice]
    exact hFilled
  rw [hStop] at hInnerSlice
  rw [lodAt?, if_pos hOpening, parseLod, hPartner]
  simp only [hBrace, ne_eq, not_true_eq_false, if_false, topLevel, slice_of_drop hBody, hLength]
  rcases h.head with ⟨hHead, hNone⟩ | ⟨before, colon, hHead, hBefore, hNone, hColon⟩
  · have hTop : topLevelFrom (· == .colon) 0 (i + 1) (r.head ++ r.inner) = [] := by
      rw [hHead]
      exact topLevelFrom_of_none hNone _
    rw [hHead, List.length_nil, Nat.add_zero, ← hHead] at hInnerSlice hAll
    rw [hTop]
    simp only [hAll, if_true]
    refine ⟨_, rfl, hWhole, hInnerSlice, fun keyword names hSays => ?_⟩
    rw [hHead] at hSays
    cases hSays
    exact ⟨rfl, rfl⟩
  · have hTop : topLevelFrom (· == .colon) 0 (i + 1) (r.head ++ r.inner) =
        (i + 1 + before.length) ::
          topLevelFrom (· == .colon) 0 (i + 1 + before.length + 1) r.inner := by
      rw [hHead, List.append_assoc, topLevelFrom_append hBefore, topLevelFrom_of_none hNone]
      simp [topLevelFrom, hColon, Token.opens, Token.closes]
    have hStart : i + 1 + before.length + 1 = i + 1 + r.head.length := by rw [hHead]; simp; omega
    have hColonAt : ls.drop (i + 1) = before ++ colon :: (r.inner ++ r.closing :: rest) := by
      rw [hHeadAt, hHead, List.append_assoc, List.singleton_append]
    rw [hTop]
    simp only [hStart, hAll, if_true]
    refine ⟨_, rfl, hWhole, hInnerSlice, fun keyword names hSays => ?_⟩
    rw [hHead] at hSays
    exact lodHead_of_says hSays hColon hColonAt

end DaxMigration.Formula
