import DaxMigration.Proofs.Formula.Decision
import DaxMigration.Proofs.Formula.Flanks

/-!
# Conditionals that are found

The converse of writing a decision: a conditional found at a position is a run from its first word
to its `END`, and each of its parts is a balanced run between two of its keywords.
-/

namespace DaxMigration.Formula

/-! ## Marks -/

/-- Between the marks of a list, which starts at position `i` inside `depth` brackets, stand runs
that leave all brackets they are in. -/
inductive Marked : (depth i : Nat) → List Lexeme → List Mark → Prop
  | nil (depth i : Nat) (ls : List Lexeme) : Marked depth i ls []
  | cons {depth i : Nat} {row rest : List Lexeme} {word : Lexeme} {k : Keyword} {marks : List Mark}
      (hRow : level depth (row.map Lexeme.token) = some 0) (hWord : word.is k.spelling)
      (hRest : Marked 0 (i + row.length + 1) rest marks) :
      Marked depth i (row ++ word :: rest) (⟨k, i + row.length⟩ :: marks)

theorem Marked.skip {depth inner i : Nat} {l : Lexeme} {ls : List Lexeme} {marks : List Mark}
    (h : Marked inner (i + 1) ls marks)
    (hLevel : ∀ ts, level depth (l.token :: ts) = level inner ts) : Marked depth i (l :: ls) marks := by
  cases h with
  | nil => exact .nil depth i _
  | @cons _ _ row rest word k marks hRow hWord hRest =>
    have hPosition : i + 1 + row.length = i + (l :: row).length := by simp; omega
    rw [hPosition] at hRest ⊢
    have hWhole : level depth ((l :: row).map Lexeme.token) = some 0 := by
      rw [List.map_cons, hLevel, hRow]
    exact .cons hWhole hWord hRest

inductive Role.Suits (t : Token) : Role → Prop
  | opens (h : t.opens = true) : Role.Suits t .opens
  | closes (hOpens : t.opens = false) (h : t.closes = true) : Role.Suits t .closes
  | begins (hOpens : t.opens = false) (hCloses : t.closes = false) : Role.Suits t .begins
  | keyword {k : Keyword} (h : t = .identifier k.spelling.toList) : Role.Suits t (.keyword k)
  | plain (hOpens : t.opens = false) (hCloses : t.closes = false) : Role.Suits t .plain

theorem suits_roleOf (t : Token) : Role.Suits t (roleOf t) := by
  cases t with
  | lparen | lbrace => exact .opens rfl
  | rparen | rbrace => exact .closes rfl rfl
  | identifier name =>
    simp only [roleOf, Token.opens, Token.closes, Bool.false_eq_true, if_false]
    split
    · exact .begins rfl rfl
    split
    · rename_i k hFound
      have hName := @List.find?_some _ (fun k : Keyword => k.spelling.toList == name) _ _ hFound
      exact .keyword (by rw [eq_of_beq hName])
    · exact .plain rfl rfl
  | _ => exact .plain rfl rfl

theorem level_of_opens {t : Token} (h : roleOf t = .opens) (depth : Nat) (ts : List Token) :
    level depth (t :: ts) = level (depth + 1) ts := by
  have hSuits := suits_roleOf t
  rw [h] at hSuits
  cases hSuits with
  | opens hOpens => rw [level, if_pos hOpens]

theorem level_of_closes {t : Token} (h : roleOf t = .closes) (depth : Nat) (ts : List Token) :
    level (depth + 1) (t :: ts) = level depth ts := by
  have hSuits := suits_roleOf t
  rw [h] at hSuits
  cases hSuits with
  | closes hOpens hCloses => simp [level, hOpens, hCloses]

/-- A token that is no bracket leaves the depth as it is. -/
theorem level_of_role {t : Token} (hOpens : roleOf t ≠ .opens) (hCloses : roleOf t ≠ .closes)
    (depth : Nat) (ts : List Token) : level depth (t :: ts) = level depth ts := by
  have hSuits := suits_roleOf t
  generalize roleOf t = role at hSuits hOpens hCloses
  cases hSuits with
  | opens => exact absurd rfl hOpens
  | closes => exact absurd rfl hCloses
  | keyword h => rw [h, level]; rfl
  | begins hNot hNeither | plain hNot hNeither => simp [level, hNot, hNeither]

theorem is_of_keyword {l : Lexeme} {k : Keyword} (h : roleOf l.token = .keyword k) :
    l.is k.spelling := by
  have hSuits := suits_roleOf l.token
  rw [h] at hSuits
  cases hSuits with
  | keyword hToken => exact hToken

/-- The keywords that are found are the marks of the list. -/
theorem marked_outlineFrom (depth nested i : Nat) (ls : List Lexeme) :
    Marked depth i ls (outlineFrom depth nested i ls).marks := by
  fun_induction outlineFrom depth nested i ls with
  | case1 depth nested i => exact .nil depth i []
  | case2 depth nested i l rest hRole ih => exact ih.skip (level_of_opens hRole depth)
  | case3 nested i l rest hRole => exact .nil 0 i _
  | case4 nested i l rest hRole depth ih => exact ih.skip (level_of_closes hRole depth)
  | case7 i l rest k hRole ih => exact @Marked.cons 0 i [] rest l k _ rfl (is_of_keyword hRole) ih
  | case5 nested i l rest hRole ih
  | case6 depth nested i l rest hRole _ ih
  | case8 nested i l rest _ hRole ih
  | case9 nested i l rest k hRole _ _ ih
  | case10 depth nested i l rest k hRole _ ih
  | case11 depth nested i l rest hRole ih =>
    exact ih.skip (level_of_role (by simp [hRole]) (by simp [hRole]) _)

/-! ## Parts -/

def Clauses.spans (c : Clauses) : List Span :=
  c.branches.flatMap (fun b => [b.condition, b.value]) ++ c.otherwise.toList

def Conditional.parts : Conditional → List Span
  | ifBlock _ clauses => clauses.spans
  | caseBlock _ subject clauses => subject :: clauses.spans

def partWords : List String :=
  ["IF", "CASE", "THEN", "ELSEIF", "ELSE", "WHEN"]

structure IsPart (run row : List Lexeme) : Prop where
  balanced : Balanced row
  filled : ∃ l ∈ row, l.isComment = false
  between : ∃ first last : Lexeme, (∃ word ∈ partWords, first.is word) ∧
    (∃ k : Keyword, last.is k.spelling) ∧ (first :: (row ++ [last])) <:+: run

theorem IsPart.within {run run' row : List Lexeme} (h : IsPart run row) (hRun : run <:+: run') :
    IsPart run' row := by
  obtain ⟨first, last, hFirst, hLast, hWithin⟩ := h.between
  exact ⟨h.balanced, h.filled, first, last, hFirst, hLast, hWithin.trans hRun⟩

theorem IsPart.flanked {signs : Bool} {run row : List Lexeme} (h : IsPart run row)
    (hChain : run.IsChain (Meets signs)) : Flanked signs row := by
  obtain ⟨first, last, ⟨word, hWord, hFirst⟩, ⟨k, hLast⟩, hWithin⟩ := h.between
  refine flanked_of_enclosed (isChain_within hChain hWithin) ?_ ?_
  · have hAll : ∀ word ∈ partWords, ∀ signs,
        (Token.identifier word.toList).endsFactor signs = false := by decide
    rw [show first.token = .identifier word.toList from hFirst]
    exact hAll word hWord signs
  · rw [show last.token = .identifier k.spelling.toList from hLast]
    cases k <;> cases signs <;> decide

theorem isPart_of_split (before after : List Lexeme) {row : List Lexeme} {first last : Lexeme}
    {k : Keyword} (hBalanced : Balanced row) (hFilled : ∃ l ∈ row, l.isComment = false)
    (hFirst : ∃ word ∈ partWords, first.is word) (hLast : last.is k.spelling) :
    IsPart (before ++ first :: (row ++ last :: after)) row :=
  ⟨hBalanced, hFilled, first, last, hFirst, ⟨k, hLast⟩, before, after, by simp⟩

/-- The branches that are read off the marks from `start` on, and the position of `END`. -/
inductive ClausesRead (ls : List Lexeme) (form : Form) :
    (start : Nat) → List Mark → Clauses → (stop : Nat) → Prop
  | last {start i j : Nat} {marks : List Mark} (hCondition : isFilled ls ⟨start, i⟩ = true)
      (hValue : isFilled ls ⟨i + 1, j⟩ = true) :
      ClausesRead ls form start (⟨.thenWord, i⟩ :: ⟨.endWord, j⟩ :: marks)
        ⟨⟨⟨start, i⟩, ⟨i + 1, j⟩⟩, [], none⟩ j
  | otherwise {start i j stop : Nat} {marks : List Mark}
      (hCondition : isFilled ls ⟨start, i⟩ = true) (hValue : isFilled ls ⟨i + 1, j⟩ = true)
      (hFallback : isFilled ls ⟨j + 1, stop⟩ = true) :
      ClausesRead ls form start
        (⟨.thenWord, i⟩ :: ⟨.elseWord, j⟩ :: ⟨.endWord, stop⟩ :: marks)
        ⟨⟨⟨start, i⟩, ⟨i + 1, j⟩⟩, [], some ⟨j + 1, stop⟩⟩ stop
  | more {start i j stop : Nat} {marks : List Mark} {c : Clauses}
      (hCondition : isFilled ls ⟨start, i⟩ = true) (hValue : isFilled ls ⟨i + 1, j⟩ = true)
      (hRest : ClausesRead ls form (j + 1) marks c stop) :
      ClausesRead ls form start (⟨.thenWord, i⟩ :: ⟨form.again, j⟩ :: marks)
        ⟨⟨⟨start, i⟩, ⟨i + 1, j⟩⟩, c.branches, c.otherwise⟩ stop

theorem isFilled_of_require {ls : List Lexeme} {part : Part} {s : Span} {u : Unit}
    (h : require ls part s = .ok u) : isFilled ls s = true := by
  rw [require] at h
  split at h
  · assumption
  · cases h

theorem ok_of_bind {ε β γ : Type} {x : Except ε β} {f : β → Except ε γ} {c : γ}
    (h : x >>= f = .ok c) : ∃ b, x = .ok b ∧ f b = .ok c := by
  cases x with
  | error e => cases h
  | ok b => exact ⟨b, rfl, h⟩

theorem fallback_of_readFallback {ls : List Lexeme} {form : Form} {failure : BlockError}
    {start stop : Nat} {marks : List Mark} {s : Span}
    (h : readFallback ls form failure start marks = .ok (s, stop)) :
    s = ⟨start, stop⟩ ∧ isFilled ls s = true ∧ ∃ rest, marks = ⟨.endWord, stop⟩ :: rest := by
  cases marks with
  | nil => cases h
  | cons m marks =>
    obtain ⟨k, i⟩ := m
    rw [readFallback] at h
    split at h
    case isFalse => cases h
    rename_i hEnd
    obtain rfl : k = .endWord := hEnd
    obtain ⟨_, hFilled, h⟩ := ok_of_bind h
    cases h
    exact ⟨rfl, isFilled_of_require hFilled, marks, rfl⟩

theorem clausesRead_of_readClauses {ls : List Lexeme} {form : Form} {failure : BlockError} :
    ∀ {marks : List Mark} {start : Nat} {c : Clauses} {stop : Nat},
      readClauses ls form failure start marks = .ok (c, stop) → ClausesRead ls form start marks c stop
  | [], _, _, _, h => by cases h
  | ⟨k, i⟩ :: rest, start, c, stop, h => by
    rw [readClauses.eq_def] at h
    simp only at h
    split at h
    · cases h
    rename_i hThen
    obtain rfl : k = .thenWord := not_not.1 hThen
    obtain ⟨_, hCondition, h⟩ := ok_of_bind h
    have hCondition := isFilled_of_require hCondition
    match rest, h with
    | [], h => cases h
    | ⟨k, j⟩ :: marks, h =>
      simp only at h
      split at h
      · rename_i hAgain
        obtain ⟨_, hValue, h⟩ := ok_of_bind h
        obtain ⟨⟨after, last⟩, hRest, h⟩ := ok_of_bind h
        cases h
        rw [hAgain]
        exact .more hCondition (isFilled_of_require hValue) (clausesRead_of_readClauses hRest)
      split at h
      · rename_i hElse
        obtain ⟨_, hValue, h⟩ := ok_of_bind h
        obtain ⟨⟨s, last⟩, hRest, hResult⟩ := ok_of_bind h
        obtain ⟨rfl, hFallback, others, rfl⟩ := fallback_of_readFallback hRest
        cases hResult
        rw [hElse]
        exact .otherwise hCondition (isFilled_of_require hValue) hFallback
      split at h
      · rename_i hEnd
        obtain ⟨_, hValue, h⟩ := ok_of_bind h
        cases h
        rw [hEnd]
        exact .last hCondition (isFilled_of_require hValue)
      · cases h

theorem Marked.split {ls : List Lexeme} {start i : Nat} {k : Keyword} {marks : List Mark}
    (h : Marked 0 start (ls.drop start) (⟨k, i⟩ :: marks)) :
    ∃ row word, ls.drop start = row ++ word :: ls.drop (i + 1) ∧ i = start + row.length ∧
      (Span.mk start i).slice ls = row ∧ Balanced row ∧ word.is k.spelling ∧
      Marked 0 (i + 1) (ls.drop (i + 1)) marks := by
  generalize hAt : ls.drop start = tail at h
  cases h with
  | @cons _ _ row rest word _ _ hRow hWord hRest =>
    have hSplit : ls.drop start = row ++ ([word] ++ rest) := hAt
    have hDrop : ls.drop (start + row.length + 1) = rest := drop_of_drop (drop_of_drop hSplit)
    rw [hDrop]
    exact ⟨row, word, rfl, rfl, slice_of_drop hAt, hRow, hWord, hRest⟩

theorem balanced_words {row rest : List Lexeme} {word : Lexeme} {k : Keyword} (hRow : Balanced row)
    (hWord : word.is k.spelling) (hRest : Balanced rest) : Balanced (row ++ word :: rest) :=
  hRow.append ((balanced_word hWord).append hRest)

structure ClausesRun (ls : List Lexeme) (start : Nat) (c : Clauses) (stop : Nat)
    (inner : List Lexeme) (closing : Lexeme) : Prop where
  position : stop = start + inner.length
  split : ls.drop start = inner ++ closing :: ls.drop (stop + 1)
  balanced : Balanced inner
  ends : closing.is "END"
  parts : ∀ word : Lexeme, (∃ w ∈ partWords, word.is w) →
    ∀ s ∈ c.spans, IsPart (word :: (inner ++ [closing])) (s.slice ls)

/-- The branches stand one after the other up to `END`. -/
theorem ClausesRead.run {ls : List Lexeme} {form : Form} {start stop : Nat} {marks : List Mark}
    {c : Clauses} (h : ClausesRead ls form start marks c stop)
    (hMarked : Marked 0 start (ls.drop start) marks) :
    ∃ inner closing, ClausesRun ls start c stop inner closing := by
  have hThen : ∀ word : Lexeme, word.is "THEN" → ∃ w ∈ partWords, word.is w :=
    fun word hWord => ⟨"THEN", by decide, hWord⟩
  induction h with
  | @last start i j marks hCondition hValue =>
    obtain ⟨test, word, hTestAt, hi, hTest, hTestBalanced, hWord, hMarked⟩ := hMarked.split
    obtain ⟨result, closing, hResultAt, hj, hResult, hResultBalanced, hEnd, -⟩ := hMarked.split
    rw [isFilled_iff, hTest] at hCondition
    rw [isFilled_iff, hResult] at hValue
    refine ⟨test ++ word :: result, closing, by simp; omega, by rw [hTestAt, hResultAt]; simp,
      balanced_words hTestBalanced hWord hResultBalanced, hEnd, ?_⟩
    intro first hFirst s hs
    simp only [Clauses.spans, Clauses.branches, List.flatMap_cons, List.flatMap_nil,
      Option.toList_none, List.append_nil, List.mem_cons, List.not_mem_nil, or_false] at hs
    rcases hs with rfl | rfl
    · rw [hTest]
      simpa using isPart_of_split [] (result ++ [closing]) hTestBalanced hCondition hFirst hWord
    · rw [hResult]
      simpa using isPart_of_split (first :: test) [] hResultBalanced hValue (hThen word hWord) hEnd
  | @otherwise start i j stop marks hCondition hValue hFallback =>
    obtain ⟨test, word, hTestAt, hi, hTest, hTestBalanced, hWord, hMarked⟩ := hMarked.split
    obtain ⟨result, other, hResultAt, hj, hResult, hResultBalanced, hElse, hMarked⟩ := hMarked.split
    obtain ⟨last, closing, hLastAt, hStop, hLast, hLastBalanced, hEnd, -⟩ := hMarked.split
    rw [isFilled_iff, hTest] at hCondition
    rw [isFilled_iff, hResult] at hValue
    rw [isFilled_iff, hLast] at hFallback
    refine ⟨test ++ word :: (result ++ other :: last), closing, by simp; omega,
      by rw [hTestAt, hResultAt, hLastAt]; simp,
      balanced_words hTestBalanced hWord (balanced_words hResultBalanced hElse hLastBalanced),
      hEnd, ?_⟩
    intro first hFirst s hs
    simp only [Clauses.spans, Clauses.branches, List.flatMap_cons, List.flatMap_nil,
      Option.toList_some, List.cons_append, List.nil_append, List.append_nil, List.mem_cons,
      List.not_mem_nil, or_false] at hs
    rcases hs with rfl | rfl | rfl
    · rw [hTest]
      simpa using isPart_of_split [] (result ++ other :: (last ++ [closing])) hTestBalanced
        hCondition hFirst hWord
    · rw [hResult]
      simpa using isPart_of_split (first :: test) (last ++ [closing]) hResultBalanced hValue
        (hThen word hWord) hElse
    · rw [hLast]
      simpa using isPart_of_split (first :: (test ++ word :: result)) [] hLastBalanced hFallback
        ⟨"ELSE", by decide, hElse⟩ hEnd
  | @more start i j stop marks c hCondition hValue hRest ih =>
    obtain ⟨test, word, hTestAt, hi, hTest, hTestBalanced, hWord, hMarked⟩ := hMarked.split
    obtain ⟨result, again, hResultAt, hj, hResult, hResultBalanced, hAgain, hMarked⟩ := hMarked.split
    obtain ⟨inner, closing, hRun⟩ := ih hMarked
    rw [isFilled_iff, hTest] at hCondition
    rw [isFilled_iff, hResult] at hValue
    have hPosition := hRun.position
    refine ⟨test ++ word :: (result ++ again :: inner), closing, by simp; omega,
      by rw [hTestAt, hResultAt, hRun.split]; simp,
      balanced_words hTestBalanced hWord (balanced_words hResultBalanced hAgain hRun.balanced),
      hRun.ends, ?_⟩
    intro first hFirst s hs
    have hSpans : s = ⟨start, i⟩ ∨ s = ⟨i + 1, j⟩ ∨ s ∈ c.spans := by
      simpa [Clauses.spans, Clauses.branches, or_assoc] using hs
    rcases hSpans with rfl | rfl | hs
    · rw [hTest]
      simpa using isPart_of_split [] (result ++ again :: (inner ++ [closing])) hTestBalanced
        hCondition hFirst hWord
    · rw [hResult]
      simpa using isPart_of_split (first :: test) (inner ++ [closing]) hResultBalanced hValue
        (hThen word hWord) hAgain
    · have hWords : ∃ w ∈ partWords, again.is w :=
        ⟨form.again.spelling, by cases form <;> decide, hAgain⟩
      refine (hRun.parts again hWords s hs).within ⟨first :: (test ++ word :: result), [], ?_⟩
      simp

/-! ## Whole conditionals -/

structure ConditionalRun (ls : List Lexeme) (i : Nat) (c : Conditional) (word : Lexeme)
    (body : List Lexeme) : Prop where
  split : ∃ rest, ls.drop i = word :: body ++ rest
  balanced : Balanced (word :: body)
  span : c.span = ⟨i, i + (word :: body).length⟩
  parts : ∀ s ∈ c.parts, IsPart (word :: body) (s.slice ls)

theorem run_of_parseIf {ls : List Lexeme} {i : Nat} {c : Conditional} {word : Lexeme}
    (hWord : word.is "IF") (hAt : ls.drop i = word :: ls.drop (i + 1)) (h : parseIf ls i = .ok c) :
    ∃ body, ConditionalRun ls i c word body := by
  obtain ⟨⟨clauses, stop⟩, hClauses, h⟩ := ok_of_bind h
  cases h
  obtain ⟨inner, closing, hRun⟩ :=
    (clausesRead_of_readClauses hClauses).run (marked_outlineFrom 0 0 (i + 1) (ls.drop (i + 1)))
  have hPosition := hRun.position
  have hInner : Balanced (inner ++ [closing]) :=
    hRun.balanced.append (balanced_word hRun.ends)
  refine ⟨inner ++ [closing], ⟨ls.drop (stop + 1), by rw [hAt, hRun.split]; simp⟩,
    (balanced_word hWord).append hInner, ?_, hRun.parts word ⟨"IF", by decide, hWord⟩⟩
  simp [Conditional.span]
  omega

theorem run_of_parseCase {ls : List Lexeme} {i : Nat} {c : Conditional} {word : Lexeme}
    (hWord : word.is "CASE") (hAt : ls.drop i = word :: ls.drop (i + 1))
    (h : parseCase ls i = .ok c) : ∃ body, ConditionalRun ls i c word body := by
  rw [parseCase] at h
  have hMarked := marked_outlineFrom 0 0 (i + 1) (ls.drop (i + 1))
  simp only [outline] at h
  split at h
  · cases h
  rename_i m marks hMarks
  obtain ⟨k, j⟩ := m
  rw [hMarks] at hMarked
  obtain ⟨head, first, hHeadAt, hj, hHead, hHeadBalanced, hFirst, hOthers⟩ := hMarked.split
  simp only at h
  split at h
  case isFalse => cases h
  rename_i hWhen
  obtain rfl : k = .whenWord := hWhen
  obtain ⟨_, hSubject, h⟩ := ok_of_bind h
  obtain ⟨⟨clauses, stop⟩, hClauses, h⟩ := ok_of_bind h
  cases h
  obtain ⟨inner, closing, hRun⟩ := (clausesRead_of_readClauses hClauses).run hOthers
  have hPosition := hRun.position
  have hSubject := isFilled_of_require hSubject
  rw [isFilled_iff, hHead] at hSubject
  have hInner : Balanced (inner ++ [closing]) :=
    hRun.balanced.append (balanced_word hRun.ends)
  refine ⟨head ++ first :: (inner ++ [closing]),
    ⟨ls.drop (stop + 1), by rw [hAt, hHeadAt, hRun.split]; simp⟩,
    (balanced_word hWord).append (balanced_words hHeadBalanced hFirst hInner), ?_, ?_⟩
  · simp [Conditional.span]
    omega
  · intro s hs
    rcases List.mem_cons.1 hs with rfl | hs
    · rw [hHead]
      simpa using isPart_of_split [] (inner ++ [closing]) hHeadBalanced hSubject
        ⟨"CASE", by decide, hWord⟩ hFirst
    · refine (hRun.parts first ⟨"WHEN", by decide, hFirst⟩ s hs).within ⟨word :: head, [], ?_⟩
      simp

theorem run_of_conditionalAt {ls : List Lexeme} {i : Nat} {c : Conditional}
    (h : conditionalAt? ls i = some c) : ∃ word body, ConditionalRun ls i c word body := by
  obtain ⟨t, hToken, hParsed⟩ := parse_of_conditionalAt h
  obtain ⟨word, rfl, hAt⟩ := drop_eq_cons_of_tokenAt hToken
  rcases hParsed with ⟨hWord, hParse⟩ | ⟨hWord, hParse⟩
  · exact ⟨word, run_of_parseIf (Token.isWord_iff.1 hWord) hAt hParse⟩
  · exact ⟨word, run_of_parseCase (Token.isWord_iff.1 hWord) hAt hParse⟩

end DaxMigration.Formula
