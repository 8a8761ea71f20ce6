import DaxMigration.Formula.Kind
import DaxMigration.Proofs.Formula.Windows

/-!
# A literal at the end

Every construct ends with a bracket or a keyword. So a literal that stands last is part of none, and
what is recognized in a row is the same with and without it.
-/

namespace DaxMigration.Formula

open Text

def Token.isLiteral : Token → Bool
  | .string _ | .singleQuoted _ | .field _ => true
  | _ => false

namespace Token

variable {t : Token} (h : t.isLiteral = true)

include h

theorem opens_of_isLiteral : t.opens = false := by
  cases t <;> first | rfl | cases h

theorem closes_of_isLiteral : t.closes = false := by
  cases t <;> first | rfl | cases h

theorem isComment_of_isLiteral : t.isComment = false := by
  cases t <;> first | rfl | cases h

theorem ne_of_isLiteral {s : Token} (hs : s.isLiteral = false) : t ≠ s := by
  rintro rfl
  rw [h] at hs
  cases hs

end Token

variable {ls : List Lexeme} {l : Lexeme}

/-! ## One lexeme more -/

theorem tokenAt_of_le {i : Nat} (h : ls.length ≤ i) : tokenAt ls i = none := by
  rw [tokenAt, List.getElem?_eq_none h]
  rfl

theorem tokenAt_concat_length : tokenAt (ls ++ [l]) ls.length = some l.token := by
  simp [tokenAt]

theorem tokenAt_of_lt {i : Nat} (h : ls.length < i) : tokenAt (ls ++ [l]) i = none :=
  tokenAt_of_le (by simpa using Nat.succ_le_of_lt h)

theorem isFilled_concat {s : Span} (h : s.stop ≤ ls.length) :
    isFilled (ls ++ [l]) s = isFilled ls s := by
  rw [isFilled, isFilled, slice_append_left h]

theorem splitTopLevel_concat {s : Span} (h : s.stop ≤ ls.length) :
    splitTopLevel (ls ++ [l]) s = splitTopLevel ls s := by
  rw [splitTopLevel, splitTopLevel, isFilled_concat h, topLevel, topLevel, slice_append_left h]

theorem dimensionName_concat {s : Span} (h : s.stop ≤ ls.length) :
    dimensionName (ls ++ [l]) s = dimensionName ls s := by
  rw [dimensionName, dimensionName, slice_append_left h]

theorem nextSignificant_concat {i j : Nat} (h : nextSignificant ls i = some j) :
    nextSignificant (ls ++ [l]) i = some j := by
  have hBounds := nextSignificant_bounds h
  have hWithin : i ≤ ls.length := hBounds.1.trans hBounds.2.le
  simp only [nextSignificant] at h ⊢
  split at h
  case isFalse => cases h
  rename_i hStop
  have hTaken : ((ls.drop i).takeWhile Lexeme.isComment).length ≠ (ls.drop i).length := by
    rw [List.length_drop]
    omega
  rw [List.drop_append_of_le_length hWithin, List.takeWhile_append, if_neg hTaken]
  rw [if_pos (by simpa using Nat.lt_succ_of_lt hStop), h]

theorem outermostFrom_succ {β : Type} {found? : Nat → Option β} {stop : β → Nat}
    {count position free : Nat} (h : found? (position + count) = none) :
    outermostFrom found? stop (count + 1) position free =
      outermostFrom found? stop count position free := by
  induction count generalizing position free with
  | zero =>
    rw [Nat.add_zero] at h
    simp [outermostFrom, h]
  | succ count ih =>
    have hRest : ∀ free, outermostFrom found? stop (count + 1) (position + 1) free =
        outermostFrom found? stop count (position + 1) free := fun free =>
      ih (by rwa [Nat.add_assoc, Nat.add_comm 1])
    rw [outermostFrom]
    conv_rhs => rw [outermostFrom]
    simp only [hRest]

theorem outermost_concat {β : Type} {found? found?' : Nat → Option β} {stop : β → Nat}
    (hSame : ∀ i, found?' i = found? i) (hNone : found? ls.length = none) :
    outermost found?' stop (ls ++ [l]).length = outermost found? stop ls.length := by
  rw [funext hSame, List.length_append]
  exact outermostFrom_succ (by rwa [Nat.zero_add])

/-! ## Positions -/

variable (hLiteral : l.token.isLiteral = true)

include hLiteral

theorem tokenAt_concat {t : Token} (ht : t.isLiteral = false) {i : Nat} :
    tokenAt (ls ++ [l]) i = some t ↔ tokenAt ls i = some t := by
  rcases lt_trichotomy i ls.length with hBefore | rfl | hBeyond
  · rw [tokenAt_append_left hBefore]
  · simp [tokenAt_concat_length, tokenAt_of_le, Token.ne_of_isLiteral hLiteral ht]
  · simp [tokenAt_of_lt hBeyond, tokenAt_of_le hBeyond.le]

theorem closeFrom_concat (depth i : Nat) : closeFrom depth i (ls ++ [l]) = closeFrom depth i ls := by
  fun_induction closeFrom depth i ls with
  | case1 =>
    simp [closeFrom, Token.opens_of_isLiteral hLiteral, Token.closes_of_isLiteral hLiteral]
  | case2 depth i m rest hOpens ih => simp [closeFrom, hOpens, ih]
  | case3 i m rest hOpens hCloses => simp [closeFrom, hOpens, hCloses]
  | case4 i m rest hOpens hCloses => simp [closeFrom, hOpens, hCloses]
  | case5 i m rest hOpens hCloses depth ih => simp [closeFrom, hOpens, hCloses, ih]
  | case6 depth i m rest hOpens hCloses ih => simp [closeFrom, hOpens, hCloses, ih]

theorem matchingClose_concat (i : Nat) : matchingClose (ls ++ [l]) i = matchingClose ls i := by
  rw [matchingClose, matchingClose]
  rcases Nat.lt_or_ge ls.length i with hBeyond | hWithin
  · rw [List.drop_eq_nil_of_le (by simpa using Nat.succ_le_of_lt hBeyond),
      List.drop_eq_nil_of_le hBeyond.le]
  · rw [List.drop_append_of_le_length hWithin, closeFrom_concat hLiteral]

theorem followedByParen_concat (rest : List Lexeme) :
    followedByParen (rest ++ [l]) = followedByParen rest := by
  have hNe := Token.ne_of_isLiteral (s := .lparen) hLiteral rfl
  have hComment : l.isComment = false := Token.isComment_of_isLiteral hLiteral
  rw [followedByParen, followedByParen, List.dropWhile_append]
  split
  · rename_i hEmpty
    rw [List.isEmpty_iff.1 hEmpty]
    simp [hComment, hNe]
  · rename_i hFilled
    obtain ⟨m, others, hCons⟩ := List.exists_cons_of_ne_nil (mt List.isEmpty_iff.2 hFilled)
    rw [hCons]
    rfl

theorem calledNames_concat : calledNames (ls ++ [l]) = calledNames ls := by
  induction ls with
  | nil =>
    obtain ⟨token, text, leading⟩ := l
    cases token <;> rfl
  | cons m ls ih => simp only [List.cons_append, calledNames, followedByParen_concat hLiteral, ih]

/-! ## Blocks -/

/-- No construct ends with the literal. -/
theorem stop_le_of_concat {j : Nat} {t : Token} (h : tokenAt (ls ++ [l]) j = some t)
    (ht : t.isLiteral = false) : j + 1 ≤ ls.length :=
  lt_length_of_tokenAt ((tokenAt_concat hLiteral ht).1 h)

theorem lodAt_concat (i : Nat) : lodAt? (ls ++ [l]) i = lodAt? ls i := by
  rw [lodAt_append ls [l]]
  cases hFound : lodAt? (ls ++ [l]) i with
  | none => rfl
  | some b =>
    obtain ⟨close, -, hClosing, hSpan⟩ := closing_of_parseLod (parseLod_of_lodAt hFound).2
    have hStop : b.span.stop ≤ ls.length := by
      rw [hSpan]
      exact stop_le_of_concat hLiteral hClosing rfl
    rw [Option.filter_some, if_pos (by simpa using hStop)]

theorem conditionalAt_concat (i : Nat) : conditionalAt? (ls ++ [l]) i = conditionalAt? ls i := by
  rw [conditionalAt_append ls [l]]
  cases hFound : conditionalAt? (ls ++ [l]) i with
  | none => rfl
  | some c =>
    obtain ⟨stop, hEnd, hSpan⟩ := endWord_of_conditionalAt hFound
    have hStop : c.span.stop ≤ ls.length := by
      rw [hSpan]
      exact stop_le_of_concat hLiteral hEnd rfl
    rw [Option.filter_some, if_pos (by simpa using hStop)]

/-! ## Calls -/

theorem parseCall_concat (i : Nat) (hName : ∃ name, tokenAt ls i = some (.identifier name)) :
    (parseCall (ls ++ [l]) i).toOption = (parseCall ls i).toOption := by
  obtain ⟨name, hName⟩ := hName
  have hLess := lt_length_of_tokenAt hName
  obtain ⟨m, hToken, hAt⟩ := drop_eq_cons_of_tokenAt hName
  have hCallAt : isCallAt (ls ++ [l]) i = isCallAt ls i := by
    rw [isCallAt, isCallAt, List.drop_append_of_le_length hLess.le, hAt, List.cons_append]
    simp only [followedByParen_concat hLiteral]
  rw [parseCall, parseCall, tokenAt_append_left hLess, hName]
  simp only [hCallAt]
  split
  case isFalse => rfl
  rename_i hCall
  obtain ⟨opening, hNext, hParen⟩ := paren_of_isCallAt hCall
  simp only [hNext, nextSignificant_concat hNext, Option.getD_some,
    matchingClose_concat hLiteral]
  cases hClose : matchingClose ls opening with
  | none => rfl
  | some close =>
    obtain ⟨-, hLength⟩ := enclosed_bounds hParen rfl hClose
    simp only [tokenAt_append_left hLength,
      splitTopLevel_concat (s := ⟨opening + 1, close⟩) hLength.le]

theorem callAt_concat (wanted : List Char → Bool) (i : Nat) :
    callAt? wanted (ls ++ [l]) i = callAt? wanted ls i := by
  rcases lt_trichotomy i ls.length with hBefore | rfl | hBeyond
  · rw [callAt?, callAt?, tokenAt_append_left hBefore]
    split
    · rename_i name hName
      rw [parseCall_concat hLiteral i ⟨name, hName⟩]
    · rfl
  · have hName : ∀ name, l.token ≠ .identifier name := fun name =>
      Token.ne_of_isLiteral hLiteral rfl
    rw [callAt?, callAt?, tokenAt_concat_length, tokenAt_of_le le_rfl]
    split
    · rename_i name hToken
      exact absurd (Option.some.inj hToken) (hName name)
    · rfl
  · rw [callAt?, callAt?, tokenAt_of_lt hBeyond, tokenAt_of_le hBeyond.le]

/-! ## Outermost constructs -/

theorem lodBlocks_concat : lodBlocks (ls ++ [l]) = lodBlocks ls :=
  outermost_concat (lodAt_concat hLiteral) (by simp [lodAt?, tokenAt_of_le])

theorem conditionals_concat : conditionals (ls ++ [l]) = conditionals ls :=
  outermost_concat (conditionalAt_concat hLiteral) (by simp [conditionalAt?, tokenAt_of_le])

theorem calls_concat (wanted : List Char → Bool) : calls wanted (ls ++ [l]) = calls wanted ls :=
  outermost_concat (callAt_concat hLiteral wanted) (by simp [callAt?, tokenAt_of_le])

/-- The kind of a formula does not depend on a literal at its end. -/
theorem classify_concat : classify (ls ++ [l]) = classify ls := by
  rw [classify, classify, lodBlocks_concat hLiteral, conditionals_concat hLiteral,
    calledNames_concat hLiteral]
  cases hFirst : (lodBlocks ls).head? with
  | none => rfl
  | some b =>
    obtain ⟨i, -, hFound⟩ := found_of_mem_outermost (List.mem_of_mem_head? hFirst)
    have hBounded := bounded_of_lodAt hFound
    have hNames : b.dimensions.map (dimensionName (ls ++ [l])) =
        b.dimensions.map (dimensionName ls) :=
      List.map_congr_left fun d hd => dimensionName_concat (hBounded.dimensions d hd).2
    simp only [hNames, slice_append_left hBounded.inner.within.2]

end DaxMigration.Formula
