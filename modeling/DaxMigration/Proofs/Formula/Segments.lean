import DaxMigration.Proofs.Formula.Conditionals

/-!
# The form of a conditional

A grammar of conditionals over the lexemes themselves, told without the counters of the search: parts
are segments, which keep their brackets and their inner conditionals to themselves, and between two
parts stands one keyword. A conditional is recognized exactly where its lexemes have this form, and
its parts are then the only ones that they have.
-/

namespace DaxMigration.Formula

/-! ## Segments -/

inductive BlockWord where
  /-- The first word of a conditional. -/
  | begins
  | keyword (k : Keyword)
deriving DecidableEq

def blockWord? (t : Token) : Option BlockWord :=
  if t.isWord "IF" || t.isWord "CASE" then some .begins
  else (Keyword.all.find? fun k => t.isWord k.spelling).map .keyword

/-- The words that build conditionals outside all brackets, in order. -/
def outerWords : (depth : Nat) → List Token → List BlockWord
  | _, [] => []
  | depth, t :: ts =>
    if t.opens then outerWords (depth + 1) ts
    else if t.closes then outerWords (depth - 1) ts
    else (if depth = 0 then (blockWord? t).toList else []) ++ outerWords depth ts

/-- First words with an `END` for each, and keywords between these only; where a pair is open around
the words, keywords but `END` stand anywhere. A first word without its `END` is paired with nothing. -/
inductive Paired : (inside : Bool) → List BlockWord → Prop
  | nil (inside : Bool) : Paired inside []
  | word {k : Keyword} {rest : List BlockWord} (hWord : k ≠ .endWord) (hRest : Paired true rest) :
      Paired true (.keyword k :: rest)
  | pair {inside : Bool} {inner rest : List BlockWord} (hInner : Paired true inner)
      (hRest : Paired inside rest) :
      Paired inside (.begins :: (inner ++ .keyword .endWord :: rest))

/-- A run that holds something besides comments, closes the brackets it opens and no others, and has
keywords outside its brackets only in conditionals that begin and end within it. -/
structure IsSegment (ls : List Lexeme) : Prop where
  filled : ∃ l ∈ ls, l.isComment = false
  balanced : Balanced ls
  paired : Paired false (outerWords 0 (ls.map Lexeme.token))

/-! ## Pairs and counting -/

/-- The conditionals that are open after some words, none if a keyword stands in none. -/
def openAfter : (nested : Nat) → List BlockWord → Option Nat
  | nested, [] => some nested
  | nested, .begins :: ws => openAfter (nested + 1) ws
  | 0, .keyword _ :: _ => none
  | nested + 1, .keyword k :: ws =>
    if k = .endWord then openAfter nested ws else openAfter (nested + 1) ws

theorem Paired.openAfter_append {inside : Bool} {ws : List BlockWord} (h : Paired inside ws)
    {nested : Nat} (hInside : inside = true → 0 < nested) (rest : List BlockWord) :
    openAfter nested (ws ++ rest) = openAfter nested rest := by
  induction h generalizing nested rest with
  | nil => rfl
  | word hWord _ ih =>
    obtain ⟨outer, rfl⟩ := Nat.exists_eq_add_one.2 (hInside rfl)
    rw [List.cons_append, openAfter, if_neg hWord, ih fun _ => by omega]
  | pair _ _ ihInner ihRest =>
    rw [List.cons_append, List.append_assoc, openAfter, ihInner fun _ => by omega, List.cons_append,
      openAfter, if_pos rfl, ihRest hInside]

/-- Words that close `nested` conditionals: paired ones around each of the words `END`. -/
def Closing : (nested : Nat) → List BlockWord → Prop
  | 0, ws => Paired false ws
  | nested + 1, ws =>
    ∃ inner rest, ws = inner ++ .keyword .endWord :: rest ∧ Paired true inner ∧ Closing nested rest

theorem closing_of_openAfter {nested : Nat} {ws : List BlockWord} (h : openAfter nested ws = some 0) :
    Closing nested ws := by
  fun_induction openAfter nested ws with
  | case1 nested =>
    obtain rfl : nested = 0 := by simpa using h
    exact .nil false
  | case2 nested ws ih =>
    obtain ⟨inner, rest, rfl, hInner, hRest⟩ := ih h
    cases nested with
    | zero => exact .pair hInner hRest
    | succ nested =>
      obtain ⟨front, last, rfl, hFront, hLast⟩ := hRest
      exact ⟨.begins :: (inner ++ .keyword .endWord :: front), last, by simp, .pair hInner hFront, hLast⟩
  | case3 => cases h
  | case4 nested ws ih => exact ⟨[], ws, rfl, .nil true, ih h⟩
  | case5 nested k ws hWord ih =>
    obtain ⟨inner, rest, rfl, hInner, hRest⟩ := ih h
    exact ⟨.keyword k :: inner, rest, rfl, .word hWord hInner, hRest⟩

theorem paired_iff_openAfter {ws : List BlockWord} : Paired false ws ↔ openAfter 0 ws = some 0 := by
  refine ⟨fun h => ?_, closing_of_openAfter⟩
  have hOpen : openAfter 0 (ws ++ []) = openAfter 0 [] := h.openAfter_append (by simp) []
  rwa [List.append_nil] at hOpen

/-! ## Segments and the search -/

def Role.words : Role → List BlockWord
  | .begins => [.begins]
  | .keyword k => [.keyword k]
  | _ => []

theorem toList_blockWord (t : Token) : (blockWord? t).toList = (roleOf t).words := by
  cases t with
  | identifier name =>
    have hSame : ∀ word : String,
        (Token.identifier name).isWord word = (word.toList == name) := by
      intro word
      rw [Bool.eq_iff_iff, Token.isWord_iff, beq_iff_eq, Token.identifier.injEq, eq_comm]
    have hBegins : ∀ word : String, (word.toList == name) = decide (name = word.toList) := by
      intro word
      rw [Bool.eq_iff_iff, beq_iff_eq, decide_eq_true_iff, eq_comm]
    simp only [blockWord?, hSame, roleOf, Token.opens, Token.closes, Bool.false_eq_true, if_false,
      Keyword.ofName?, hBegins "IF", hBegins "CASE"]
    split
    · rfl
    · cases Keyword.all.find? (fun k => k.spelling.toList == name) <;> rfl
  | _ => rfl

theorem outerWords_of_opens {t : Token} (h : roleOf t = .opens) (depth : Nat) (ts : List Token) :
    outerWords depth (t :: ts) = outerWords (depth + 1) ts := by
  have hSuits := suits_roleOf t
  rw [h] at hSuits
  cases hSuits with
  | opens hOpens => rw [outerWords, if_pos hOpens]

theorem outerWords_of_closes {t : Token} (h : roleOf t = .closes) (depth : Nat) (ts : List Token) :
    outerWords (depth + 1) (t :: ts) = outerWords depth ts := by
  have hSuits := suits_roleOf t
  rw [h] at hSuits
  cases hSuits with
  | closes hOpens hCloses => simp [outerWords, hOpens, hCloses]

theorem outerWords_of_role {t : Token} (hOpens : roleOf t ≠ .opens) (hCloses : roleOf t ≠ .closes)
    (depth : Nat) (ts : List Token) :
    outerWords depth (t :: ts) =
      (if depth = 0 then (roleOf t).words else []) ++ outerWords depth ts := by
  rw [← toList_blockWord]
  have hSuits := suits_roleOf t
  generalize roleOf t = role at hSuits hOpens hCloses
  cases hSuits with
  | opens => exact absurd rfl hOpens
  | closes => exact absurd rfl hCloses
  | keyword h => rw [h, outerWords]; rfl
  | begins hNot hNeither | plain hNot hNeither => simp [outerWords, hNot, hNeither]

structure Closes (depth nested : Nat) (row : List Lexeme) : Prop where
  level : level depth (row.map Lexeme.token) = some 0
  words : openAfter nested (outerWords depth (row.map Lexeme.token)) = some 0

theorem closes_zero_iff {row : List Lexeme} :
    Closes 0 0 row ↔ Balanced row ∧ Paired false (outerWords 0 (row.map Lexeme.token)) :=
  ⟨fun h => ⟨h.level, paired_iff_openAfter.2 h.words⟩,
    fun h => ⟨h.1, paired_iff_openAfter.1 h.2⟩⟩

def onward (depth nested : Nat) : Role → Option (Nat × Nat)
  | .opens => some (depth + 1, nested)
  | .closes => if depth = 0 then none else some (depth - 1, nested)
  | .begins => some (depth, if depth = 0 then nested + 1 else nested)
  | .keyword k =>
    if depth ≠ 0 then some (depth, nested)
    else if nested = 0 then none
    else some (0, if k = .endWord then nested - 1 else nested)
  | .plain => some (depth, nested)

theorem outlineFrom_cons (depth nested i : Nat) (l : Lexeme) (rest : List Lexeme) :
    outlineFrom depth nested i (l :: rest) =
      match onward depth nested (roleOf l.token) with
      | some (depth', nested') => outlineFrom depth' nested' (i + 1) rest
      | none =>
        match roleOf l.token with
        | .keyword k => (outlineFrom 0 0 (i + 1) rest).push ⟨k, i⟩
        | _ => ⟨[], .unbalanced⟩ := by
  rw [outlineFrom.eq_def]
  cases hRole : roleOf l.token with
  | opens | plain => simp [onward, hRole]
  | closes => cases depth <;> simp [onward, hRole]
  | begins => by_cases hDepth : depth = 0 <;> simp [onward, hRole, hDepth]
  | keyword k =>
    by_cases hDepth : depth = 0
    · by_cases hNested : nested = 0
      · simp [onward, hRole, hDepth, hNested]
      · by_cases hEnd : k = .endWord <;> simp [onward, hRole, hDepth, hNested, hEnd]
    · simp [onward, hRole, hDepth]

theorem closes_cons_iff {depth nested : Nat} {l : Lexeme} {row : List Lexeme} :
    Closes depth nested (l :: row) ↔
      ∃ depth' nested', onward depth nested (roleOf l.token) = some (depth', nested') ∧
        Closes depth' nested' row := by
  have hSplit : ∀ {depth nested row}, Closes depth nested row ↔
      level depth (row.map Lexeme.token) = some 0 ∧
        openAfter nested (outerWords depth (row.map Lexeme.token)) = some 0 :=
    ⟨fun h => ⟨h.level, h.words⟩, fun h => ⟨h.1, h.2⟩⟩
  simp only [hSplit, List.map_cons]
  cases hRole : roleOf l.token with
  | opens => simp [onward, level_of_opens hRole, outerWords_of_opens hRole]
  | closes =>
    cases depth with
    | zero =>
      have hSuits := suits_roleOf l.token
      rw [hRole] at hSuits
      cases hSuits with
      | closes hOpens hCloses => simp [onward, level, hOpens, hCloses]
    | succ depth => simp [onward, level_of_closes hRole, outerWords_of_closes hRole]
  | begins =>
    rw [level_of_role (by simp [hRole]) (by simp [hRole]),
      outerWords_of_role (by simp [hRole]) (by simp [hRole]), hRole]
    by_cases hDepth : depth = 0 <;> simp [onward, hDepth, Role.words, openAfter]
  | keyword k =>
    rw [level_of_role (by simp [hRole]) (by simp [hRole]),
      outerWords_of_role (by simp [hRole]) (by simp [hRole]), hRole]
    by_cases hDepth : depth = 0
    · cases nested with
      | zero => simp [onward, hDepth, Role.words, openAfter]
      | succ nested =>
        by_cases hEnd : k = .endWord <;> simp [onward, hDepth, Role.words, openAfter, hEnd]
    · simp [onward, hDepth]
  | plain =>
    rw [level_of_role (by simp [hRole]) (by simp [hRole]),
      outerWords_of_role (by simp [hRole]) (by simp [hRole]), hRole]
    simp [onward, Role.words]

/-- The search for keywords passes over such a run, -/
theorem Closes.outlineFrom_append {depth nested : Nat} {row : List Lexeme} (h : Closes depth nested row)
    (i : Nat) (rest : List Lexeme) :
    outlineFrom depth nested i (row ++ rest) = outlineFrom 0 0 (i + row.length) rest := by
  induction row generalizing depth nested i with
  | nil =>
    obtain rfl : depth = 0 := by simpa [Formula.level] using h.level
    obtain rfl : nested = 0 := by simpa [outerWords, openAfter] using h.words
    rfl
  | cons l row ih =>
    obtain ⟨depth', nested', hOnward, hRow⟩ := closes_cons_iff.1 h
    have hShift : i + (l :: row).length = i + 1 + row.length := by simp; omega
    rw [List.cons_append, outlineFrom_cons, hOnward, hShift]
    exact ih hRow (i + 1)

/-- and what stands in front of the first keyword that it finds is such a run. -/
theorem closes_of_outlineFrom {depth nested i : Nat} {ls : List Lexeme} {m : Mark} {marks : List Mark}
    (h : (outlineFrom depth nested i ls).marks = m :: marks) :
    ∃ row word rest, ls = row ++ word :: rest ∧ Closes depth nested row ∧
      word.is m.keyword.spelling ∧ m.position = i + row.length ∧
      marks = (outlineFrom 0 0 (i + row.length + 1) rest).marks := by
  -- The run grows at its front: a lexeme that the search passes over stands in front of a run for the
  -- counters behind it.
  induction ls generalizing depth nested i with
  | nil => cases h
  | cons l ls ih =>
    rw [outlineFrom_cons] at h
    cases hOnward : onward depth nested (roleOf l.token) with
    | some state =>
      rw [hOnward] at h
      obtain ⟨row, word, rest, rfl, hRow, hWord, hPosition, hMarks⟩ := ih h
      have hShift : i + (l :: row).length = i + 1 + row.length := by simp; omega
      refine ⟨l :: row, word, rest, rfl, closes_cons_iff.2 ⟨_, _, hOnward, hRow⟩, hWord, ?_, ?_⟩
      · rw [hShift, hPosition]
      · rw [hShift, hMarks]
    | none =>
      rw [hOnward] at h
      cases hRole : roleOf l.token with
      | keyword k =>
        rw [hRole] at h hOnward
        obtain ⟨rfl, rfl⟩ := List.cons.inj h
        -- A keyword ends the run only outside all brackets and inner conditionals.
        obtain ⟨rfl, rfl⟩ : depth = 0 ∧ nested = 0 := by
          by_contra hSome
          revert hOnward
          simp only [onward]
          split
          · simp
          split <;> simp_all
        exact ⟨[], l, ls, rfl, ⟨rfl, rfl⟩, is_of_keyword hRole, rfl, rfl⟩
      | opens | closes | begins | plain => rw [hRole] at h; cases h

/-! ## Forms -/

def KeywordAt (ls : List Lexeme) (i : Nat) (k : Keyword) : Prop :=
  tokenAt ls i = some (.identifier k.spelling.toList)

instance (ls : List Lexeme) (i : Nat) (k : Keyword) : Decidable (KeywordAt ls i k) :=
  inferInstanceAs (Decidable (_ = _))

structure SegmentAt (ls : List Lexeme) (s : Span) : Prop where
  within : s.Within ls.length
  segment : IsSegment (s.slice ls)

/-- From `start` on stand branches, of which each is a condition, `THEN` and a value, parted by the
keyword of the form; then, or not, `ELSE` and a fallback; then `END`, at `stop`. -/
inductive ClausesAt (ls : List Lexeme) (form : Form) : (start : Nat) → Clauses → (stop : Nat) → Prop
  | last {start i stop : Nat} (hCondition : SegmentAt ls ⟨start, i⟩) (hThen : KeywordAt ls i .thenWord)
      (hValue : SegmentAt ls ⟨i + 1, stop⟩) (hEnd : KeywordAt ls stop .endWord) :
      ClausesAt ls form start ⟨⟨⟨start, i⟩, ⟨i + 1, stop⟩⟩, [], none⟩ stop
  | otherwise {start i j stop : Nat} (hCondition : SegmentAt ls ⟨start, i⟩)
      (hThen : KeywordAt ls i .thenWord) (hValue : SegmentAt ls ⟨i + 1, j⟩)
      (hElse : KeywordAt ls j .elseWord) (hFallback : SegmentAt ls ⟨j + 1, stop⟩)
      (hEnd : KeywordAt ls stop .endWord) :
      ClausesAt ls form start ⟨⟨⟨start, i⟩, ⟨i + 1, j⟩⟩, [], some ⟨j + 1, stop⟩⟩ stop
  | more {start i j stop : Nat} {c : Clauses} (hCondition : SegmentAt ls ⟨start, i⟩)
      (hThen : KeywordAt ls i .thenWord) (hValue : SegmentAt ls ⟨i + 1, j⟩)
      (hAgain : KeywordAt ls j form.again) (hRest : ClausesAt ls form (j + 1) c stop) :
      ClausesAt ls form start ⟨⟨⟨start, i⟩, ⟨i + 1, j⟩⟩, c.branches, c.otherwise⟩ stop

/-- The lexemes after `start` are `C THEN V`, any number of `ELSEIF C THEN V`, then `ELSE O` or
nothing, and `END`. -/
inductive IfAt (ls : List Lexeme) (start : Nat) : Conditional → Prop
  | intro {clauses : Clauses} {stop : Nat} (hClauses : ClausesAt ls .ifForm (start + 1) clauses stop) :
      IfAt ls start (.ifBlock ⟨start, stop + 1⟩ clauses)

/-- The lexemes after `start` are a subject, one or more `WHEN W THEN T`, then `ELSE O` or nothing,
and `END`. -/
inductive CaseAt (ls : List Lexeme) (start : Nat) : Conditional → Prop
  | intro {i stop : Nat} {clauses : Clauses} (hSubject : SegmentAt ls ⟨start + 1, i⟩)
      (hWhen : KeywordAt ls i .whenWord) (hClauses : ClausesAt ls .caseForm (i + 1) clauses stop) :
      CaseAt ls start (.caseBlock ⟨start, stop + 1⟩ ⟨start + 1, i⟩ clauses)

/-! ## The search and the form -/

def marksFrom (ls : List Lexeme) (start : Nat) : List Mark :=
  (outline ls start).marks

theorem SegmentAt.marksFrom_eq {ls : List Lexeme} {start i : Nat} {k : Keyword}
    (h : SegmentAt ls ⟨start, i⟩) (hWord : KeywordAt ls i k) :
    marksFrom ls start = ⟨k, i⟩ :: marksFrom ls (i + 1) := by
  obtain ⟨⟨hOrder, hLength⟩, -, hBalanced, hPaired⟩ := h
  obtain ⟨word, hToken, hAt⟩ := drop_eq_cons_of_tokenAt hWord
  have hCloses := closes_zero_iff.2 ⟨hBalanced, hPaired⟩
  have hSlice : start + ((Span.mk start i).slice ls).length = i := by
    rw [Span.length_slice ⟨hOrder, hLength⟩]
    exact Nat.add_sub_of_le hOrder
  rw [marksFrom, outline, ← slice_append_drop hOrder, hCloses.outlineFrom_append, hSlice, hAt,
    outlineFrom_mark hToken]
  rfl

theorem segmentAt_of_marksFrom {ls : List Lexeme} {start i : Nat} {k : Keyword} {marks : List Mark}
    (h : marksFrom ls start = ⟨k, i⟩ :: marks) (hFilled : isFilled ls ⟨start, i⟩ = true) :
    SegmentAt ls ⟨start, i⟩ ∧ KeywordAt ls i k ∧ marks = marksFrom ls (i + 1) := by
  obtain ⟨row, word, rest, hAt, hCloses, hWord, rfl, rfl⟩ := closes_of_outlineFrom h
  obtain ⟨hBalanced, hPaired⟩ := closes_zero_iff.1 hCloses
  have hSlice := slice_of_drop hAt
  have hNext : ls.drop (start + row.length) = word :: rest := drop_of_drop hAt
  have hRest : ls.drop (start + row.length + 1) = rest := drop_of_drop (a := [word]) hNext
  have hLength : start + row.length ≤ ls.length := by
    by_contra hBeyond
    rw [List.drop_eq_nil_of_le (by omega)] at hNext
    cases hNext
  rw [isFilled_iff, hSlice] at hFilled
  refine ⟨⟨⟨by simp, hLength⟩, ?_⟩, ?_, by rw [marksFrom, outline, hRest]⟩
  · rw [hSlice]
    exact ⟨hFilled, hBalanced, hPaired⟩
  · rw [KeywordAt, tokenAt_of_drop hNext]
    exact congrArg some hWord

/-- Branches that are read off the keywords have the form, -/
theorem ClausesRead.clausesAt {ls : List Lexeme} {form : Form} {start stop : Nat} {marks : List Mark}
    {c : Clauses} (h : ClausesRead ls form start marks c stop) (hMarks : marks = marksFrom ls start) :
    ClausesAt ls form start c stop := by
  induction h with
  | last hCondition hValue =>
    obtain ⟨hCondition, hThen, hMarks⟩ := segmentAt_of_marksFrom hMarks.symm hCondition
    obtain ⟨hValue, hEnd, -⟩ := segmentAt_of_marksFrom hMarks.symm hValue
    exact .last hCondition hThen hValue hEnd
  | otherwise hCondition hValue hFallback =>
    obtain ⟨hCondition, hThen, hMarks⟩ := segmentAt_of_marksFrom hMarks.symm hCondition
    obtain ⟨hValue, hElse, hMarks⟩ := segmentAt_of_marksFrom hMarks.symm hValue
    obtain ⟨hFallback, hEnd, -⟩ := segmentAt_of_marksFrom hMarks.symm hFallback
    exact .otherwise hCondition hThen hValue hElse hFallback hEnd
  | more hCondition hValue _ ih =>
    obtain ⟨hCondition, hThen, hMarks⟩ := segmentAt_of_marksFrom hMarks.symm hCondition
    obtain ⟨hValue, hAgain, hMarks⟩ := segmentAt_of_marksFrom hMarks.symm hValue
    exact .more hCondition hThen hValue hAgain (ih hMarks)

theorem SegmentAt.require {ls : List Lexeme} {s : Span} (h : SegmentAt ls s) (part : Part) :
    require ls part s = .ok () := by
  rw [Formula.require, if_pos (isFilled_iff.2 h.segment.filled)]

/-- and branches of the form are read off the keywords. -/
theorem ClausesAt.readClauses {ls : List Lexeme} {form : Form} {start stop : Nat} {c : Clauses}
    (h : ClausesAt ls form start c stop) (failure : BlockError) :
    readClauses ls form failure start (marksFrom ls start) = .ok (c, stop) := by
  induction h with
  | last hCondition hThen hValue hEnd =>
    rw [hCondition.marksFrom_eq hThen, hValue.marksFrom_eq hEnd]
    exact readClauses_end (hCondition.require _) (hValue.require _)
  | otherwise hCondition hThen hValue hElse hFallback hEnd =>
    rw [hCondition.marksFrom_eq hThen, hValue.marksFrom_eq hElse, hFallback.marksFrom_eq hEnd]
    exact readClauses_else (hCondition.require _) (hValue.require _) (hFallback.require _)
  | more hCondition hThen hValue hAgain _ ih =>
    rw [hCondition.marksFrom_eq hThen, hValue.marksFrom_eq hAgain]
    exact readClauses_again (hCondition.require _) (hValue.require _) ih

/-- A conditional is recognized after `IF` exactly as the lexemes have the form. -/
theorem parseIf_eq_ok_iff {ls : List Lexeme} {start : Nat} {c : Conditional} :
    parseIf ls start = .ok c ↔ IfAt ls start c := by
  constructor
  · intro h
    obtain ⟨⟨clauses, stop⟩, hClauses, h⟩ := ok_of_bind h
    cases h
    exact .intro ((clausesRead_of_readClauses hClauses).clausesAt rfl)
  · rintro ⟨hClauses⟩
    have hRead := hClauses.readClauses (outline ls (start + 1)).failure
    rw [marksFrom] at hRead
    rw [parseIf, hRead]
    rfl

/-- A conditional is recognized after `CASE` exactly as the lexemes have the form. -/
theorem parseCase_eq_ok_iff {ls : List Lexeme} {start : Nat} {c : Conditional} :
    parseCase ls start = .ok c ↔ CaseAt ls start c := by
  constructor
  · intro h
    rw [parseCase] at h
    simp only at h
    split at h
    · cases h
    rename_i m marks hMarks
    obtain ⟨k, i⟩ := m
    split at h
    case isFalse => cases h
    rename_i hWhen
    obtain rfl : k = .whenWord := hWhen
    obtain ⟨_, hSubject, h⟩ := ok_of_bind h
    obtain ⟨⟨clauses, stop⟩, hClauses, h⟩ := ok_of_bind h
    cases h
    obtain ⟨hSubject, hWhen, hMarks⟩ := segmentAt_of_marksFrom hMarks (isFilled_of_require hSubject)
    exact .intro hSubject hWhen ((clausesRead_of_readClauses hClauses).clausesAt hMarks)
  · rintro ⟨hSubject, hWhen, hClauses⟩
    have hRead := hClauses.readClauses (outline ls (start + 1)).failure
    have hMarks := hSubject.marksFrom_eq hWhen
    rw [marksFrom] at hMarks
    rw [parseCase]
    simp only [hMarks, if_true, hSubject.require, hRead]
    rfl

end DaxMigration.Formula
