import DaxMigration.Proofs.Formula.Nesting

/-!
# Decisions

Conditionals in one another as a tree over leaves, the lexemes such a tree is written with, and the
leaf it selects. A tree that is written as a run of lexemes is found again by the search for
keywords: the marks of a conditional are those of its own branches, and the spans between them hold
what the branches are written with.
-/

namespace DaxMigration.Formula

mutual

inductive Decision (α : Type) where
  | leaf (a : α)
  | ifBlock (branches : Branches α)
  | caseBlock (subject : Decision α) (arms : Branches α)

inductive Branches (α : Type) where
  | last (condition value : Decision α)
  | otherwise (condition value fallback : Decision α)
  | more (condition value : Decision α) (rest : Branches α)

end

variable {α : Type}

mutual

/-- The leaf that a decision selects, if any: a condition holds or not of what it selects, and the
value of an arm is the same as the subject or not. -/
def Decision.select (holds : Option α → Bool) (same : Option α → Option α → Bool) :
    Decision α → Option α
  | .leaf a => some a
  | .ifBlock branches => branches.select holds same holds
  | .caseBlock subject arms => arms.select holds same (same (subject.select holds same))

def Branches.select (holds : Option α → Bool) (same : Option α → Option α → Bool)
    (test : Option α → Bool) : Branches α → Option α
  | .last condition value =>
    if test (condition.select holds same) then value.select holds same else none
  | .otherwise condition value fallback =>
    if test (condition.select holds same) then value.select holds same
    else fallback.select holds same
  | .more condition value rest =>
    if test (condition.select holds same) then value.select holds same
    else rest.select holds same test

end

mutual

def Decision.depth : Decision α → Nat
  | .leaf _ => 0
  | .ifBlock branches => branches.depth + 1
  | .caseBlock subject arms => max subject.depth arms.depth + 1

def Branches.depth : Branches α → Nat
  | .last condition value => max condition.depth value.depth
  | .otherwise condition value fallback => max (max condition.depth value.depth) fallback.depth
  | .more condition value rest => max (max condition.depth value.depth) rest.depth

end

mutual

def Decision.leaves : Decision α → List α
  | .leaf a => [a]
  | .ifBlock branches => branches.leaves
  | .caseBlock subject arms => subject.leaves ++ arms.leaves

def Branches.leaves : Branches α → List α
  | .last condition value => condition.leaves ++ value.leaves
  | .otherwise condition value fallback => condition.leaves ++ value.leaves ++ fallback.leaves
  | .more condition value rest => condition.leaves ++ value.leaves ++ rest.leaves

end

def Decision.form? : Decision α → Option Form
  | .leaf _ => none
  | .ifBlock _ => some .ifForm
  | .caseBlock _ _ => some .caseForm

def Lexeme.is (l : Lexeme) (word : String) : Prop :=
  l.token = .identifier word.toList

section Writing

variable (row : α → List Lexeme)

mutual

/-- The lexemes are the leaves' own with the keywords between them, in any spelling and with any
white space. -/
inductive Decision.Written : Decision α → List Lexeme → Prop
  | leaf (a : α) : Decision.Written (.leaf a) (row a)
  | ifBlock {word stop : Lexeme} {branches : Branches α} {inner : List Lexeme}
      (hWord : word.is "IF") (hBranches : Branches.Written .ifForm branches inner)
      (hStop : stop.is "END") :
      Decision.Written (.ifBlock branches) (word :: (inner ++ [stop]))
  | caseBlock {word first stop : Lexeme} {subject : Decision α} {arms : Branches α}
      {head inner : List Lexeme} (hWord : word.is "CASE") (hSubject : Decision.Written subject head)
      (hFirst : first.is "WHEN") (hArms : Branches.Written .caseForm arms inner)
      (hStop : stop.is "END") :
      Decision.Written (.caseBlock subject arms)
        (word :: (head ++ first :: (inner ++ [stop])))

inductive Branches.Written : Form → Branches α → List Lexeme → Prop
  | last {form : Form} {word : Lexeme} {condition value : Decision α} {test result : List Lexeme}
      (hCondition : Decision.Written condition test) (hWord : word.is "THEN")
      (hValue : Decision.Written value result) :
      Branches.Written form (.last condition value) (test ++ word :: result)
  | otherwise {form : Form} {word last : Lexeme} {condition value fallback : Decision α}
      {test result rest : List Lexeme} (hCondition : Decision.Written condition test)
      (hWord : word.is "THEN") (hValue : Decision.Written value result) (hLast : last.is "ELSE")
      (hFallback : Decision.Written fallback rest) :
      Branches.Written form (.otherwise condition value fallback)
        (test ++ word :: (result ++ last :: rest))
  | more {form : Form} {word again : Lexeme} {condition value : Decision α} {others : Branches α}
      {test result rest : List Lexeme} (hCondition : Decision.Written condition test)
      (hWord : word.is "THEN") (hValue : Decision.Written value result)
      (hAgain : again.is form.again.spelling) (hRest : Branches.Written form others rest) :
      Branches.Written form (.more condition value others)
        (test ++ word :: (result ++ again :: rest))

end

end Writing

instance (l : Lexeme) (word : String) : Decidable (l.is word) :=
  inferInstanceAs (Decidable (_ = _))

def reservedWords : List String :=
  ["IF", "CASE", "THEN", "ELSEIF", "ELSE", "WHEN", "END"]

/-- What a leaf may be written with: anything on its own that is no part of a conditional, a list
or a level-of-detail block. -/
structure IsLeaf (ls : List Lexeme) : Prop where
  filled : ls ≠ []
  uncommented : ∀ l ∈ ls, l.isComment = false
  terminated : ∀ l ∈ ls, l.isTerminated = true
  balanced : Balanced ls
  unreserved : ∀ l ∈ ls, ∀ word ∈ reservedWords, ¬ l.is word
  unparted : topLevel (· == .comma) ls ⟨0, ls.length⟩ = []
  noLod : lodBlocks ls = []

theorem isLeaf_iff {ls : List Lexeme} :
    IsLeaf ls ↔ ls ≠ [] ∧ (∀ l ∈ ls, l.isComment = false) ∧ (∀ l ∈ ls, l.isTerminated = true) ∧
      level 0 (ls.map Lexeme.token) = some 0 ∧ (∀ l ∈ ls, ∀ word ∈ reservedWords, ¬ l.is word) ∧
      topLevel (· == .comma) ls ⟨0, ls.length⟩ = [] ∧ lodBlocks ls = [] :=
  ⟨fun h => ⟨h.filled, h.uncommented, h.terminated, h.balanced, h.unreserved, h.unparted, h.noLod⟩,
    fun ⟨h₁, h₂, h₃, h₄, h₅, h₆, h₇⟩ => ⟨h₁, h₂, h₃, h₄, h₅, h₆, h₇⟩⟩

instance (ls : List Lexeme) : Decidable (IsLeaf ls) :=
  decidable_of_iff' _ isLeaf_iff

/-! ## Passing over a run -/

theorem roleOf_begins {l : Lexeme} (h : l.is "IF" ∨ l.is "CASE") : roleOf l.token = .begins := by
  rcases h with h | h <;> rw [h] <;> rfl

theorem roleOf_keyword {l : Lexeme} {k : Keyword} (h : l.is k.spelling) :
    roleOf l.token = .keyword k := by
  rw [h]
  cases k <;> rfl

theorem roleOf_unreserved {l : Lexeme} (h : ∀ word ∈ reservedWords, ¬ l.is word) :
    roleOf l.token = if l.token.opens then .opens else if l.token.closes then .closes else .plain := by
  unfold roleOf
  split
  · rfl
  split
  · rfl
  split
  · rename_i name hToken
    have hName : ∀ word ∈ reservedWords, name ≠ word.toList := by
      rintro word hWord rfl
      exact h word hWord hToken
    have hBegins : ¬ (decide (name = "IF".toList) || decide (name = "CASE".toList)) = true := by
      rw [Bool.or_eq_true, decide_eq_true_eq, decide_eq_true_eq, not_or]
      exact ⟨hName _ (by decide), hName _ (by decide)⟩
    have hNone : Keyword.ofName? name = none := by
      refine List.find?_eq_none.2 fun k _ hEq => ?_
      exact hName k.spelling (by cases k <;> decide) (eq_of_beq hEq).symm
    rw [if_neg hBegins, hNone]
  · rfl

/-- Brackets aside, a run without keywords is not there for the search for keywords. -/
theorem outlineFrom_append {a : List Lexeme} (hPlain : ∀ l ∈ a, ∀ word ∈ reservedWords, ¬ l.is word)
    {depth stop : Nat} (h : level depth (a.map Lexeme.token) = some stop) (nested i : Nat)
    (b : List Lexeme) :
    outlineFrom depth nested i (a ++ b) = outlineFrom stop nested (i + a.length) b := by
  induction a generalizing depth i with
  | nil =>
    obtain rfl : depth = stop := by simpa [level] using h
    rfl
  | cons l a ih =>
    have hShift : i + (l :: a).length = i + 1 + a.length := by simp; omega
    have hRole := roleOf_unreserved (hPlain l List.mem_cons_self)
    have hTail := @ih fun d hd => hPlain d (List.mem_cons_of_mem _ hd)
    rw [hShift, List.cons_append, outlineFrom.eq_def]
    rcases level_cons h with ⟨hOpens, hRest⟩ | ⟨hOpens, hCloses, outer, rfl, hRest⟩ |
        ⟨hOpens, hCloses, hRest⟩
    · simp only [hRole, hOpens, if_true, hTail hRest]
    · simp [hRole, hOpens, hCloses, hTail hRest]
    · simp [hRole, hOpens, hCloses, hTail hRest]

theorem outlineFrom_begins {l : Lexeme} (h : l.is "IF" ∨ l.is "CASE") (nested i : Nat)
    (rest : List Lexeme) :
    outlineFrom 0 nested i (l :: rest) = outlineFrom 0 (nested + 1) (i + 1) rest := by
  rw [outlineFrom.eq_def]
  simp [roleOf_begins h]

theorem outlineFrom_mark {l : Lexeme} {k : Keyword} (h : l.is k.spelling) (i : Nat)
    (rest : List Lexeme) :
    outlineFrom 0 0 i (l :: rest) = (outlineFrom 0 0 (i + 1) rest).push ⟨k, i⟩ := by
  rw [outlineFrom.eq_def]
  simp [roleOf_keyword h]

theorem outlineFrom_inner {l : Lexeme} {k : Keyword} (h : l.is k.spelling) (hEnd : k ≠ .endWord)
    (nested i : Nat) (rest : List Lexeme) :
    outlineFrom 0 (nested + 1) i (l :: rest) = outlineFrom 0 (nested + 1) (i + 1) rest := by
  rw [outlineFrom.eq_def]
  simp [roleOf_keyword h, hEnd]

theorem outlineFrom_end {l : Lexeme} (h : l.is "END") (nested i : Nat) (rest : List Lexeme) :
    outlineFrom 0 (nested + 1) i (l :: rest) = outlineFrom 0 nested (i + 1) rest := by
  rw [outlineFrom.eq_def]
  simp [roleOf_keyword (k := .endWord) h]

/-! ## Written decisions as runs -/

/-- A run that brackets, keywords and blocks around it need not look into. -/
structure Sealed (nested : Nat) (ls : List Lexeme) : Prop where
  balanced : Balanced ls
  passed : ∀ i rest, outlineFrom 0 nested i (ls ++ rest) = outlineFrom 0 nested (i + ls.length) rest
  noLod : NoLod ls

theorem Sealed.append {nested : Nat} {a b : List Lexeme} (ha : Sealed nested a)
    (hb : Sealed nested b) : Sealed nested (a ++ b) where
  balanced := ha.balanced.append hb.balanced
  passed i rest := by
    rw [List.append_assoc, ha.passed, hb.passed, List.length_append, Nat.add_assoc]
  noLod := ha.noLod.append ha.balanced hb.noLod

theorem balanced_word {l : Lexeme} {word : String} (h : l.is word) : Balanced [l] := by
  have hToken : l.token = .identifier word.toList := h
  rw [Balanced, List.map_singleton, hToken]
  rfl

theorem noLod_word {l : Lexeme} {word : String} (h : l.is word) : NoLod [l] := by
  have hToken : l.token = .identifier word.toList := h
  intro i
  cases i with
  | zero => simp [lodAt?, tokenAt, hToken]
  | succ i => simp [lodAt?, tokenAt]

theorem sealed_word {l : Lexeme} {k : Keyword} (h : l.is k.spelling) (hEnd : k ≠ .endWord)
    (nested : Nat) : Sealed (nested + 1) [l] where
  balanced := balanced_word h
  passed i rest := outlineFrom_inner h hEnd nested i rest
  noLod := noLod_word h

theorem IsLeaf.sealed {ls : List Lexeme} (h : IsLeaf ls) (nested : Nat) : Sealed nested ls where
  balanced := h.balanced
  passed i rest := outlineFrom_append h.unreserved h.balanced nested i rest
  noLod := noLod_iff_lodBlocks.2 h.noLod

/-- A conditional opens one more level of keywords with its first word and closes it with its
last. -/
theorem sealed_block {word stop : Lexeme} {inner : List Lexeme} (nested : Nat)
    (hWord : word.is "IF" ∨ word.is "CASE") (hInner : Sealed (nested + 1) inner)
    (hStop : stop.is "END") : Sealed nested (word :: (inner ++ [stop])) where
  balanced := by
    have hFirst : Balanced [word] := hWord.elim balanced_word balanced_word
    exact hFirst.append (hInner.balanced.append (balanced_word hStop))
  passed i rest := by
    rw [List.cons_append, outlineFrom_begins hWord, List.append_assoc, hInner.passed,
      List.singleton_append, outlineFrom_end hStop]
    congr 1
    simp
    omega
  noLod := by
    have hFirst : Balanced [word] := hWord.elim balanced_word balanced_word
    have hFirst' : NoLod [word] := hWord.elim noLod_word noLod_word
    exact hFirst'.append hFirst (hInner.noLod.append hInner.balanced (noLod_word hStop))

variable {row : α → List Lexeme}

mutual

theorem Decision.Written.sealed {d : Decision α} {ls : List Lexeme} (h : d.Written row ls)
    (hLeaves : ∀ a ∈ d.leaves, IsLeaf (row a)) (nested : Nat) : Sealed nested ls := by
  cases h with
  | leaf a => exact (hLeaves a (by simp [Decision.leaves])).sealed nested
  | ifBlock hWord hBranches hStop =>
    exact sealed_block nested (.inl hWord) (hBranches.sealed hLeaves nested) hStop
  | caseBlock hWord hSubject hFirst hArms hStop =>
    simp only [Decision.leaves, List.mem_append] at hLeaves
    have hHead := hSubject.sealed (fun a ha => hLeaves a (.inl ha)) (nested + 1)
    have hInner := hArms.sealed (fun a ha => hLeaves a (.inr ha)) nested
    have hWhen := sealed_word (k := .whenWord) hFirst (by decide) nested
    have hBoth := sealed_block nested (.inr hWord) (hHead.append (hWhen.append hInner)) hStop
    simpa using hBoth

theorem Branches.Written.sealed {form : Form} {bs : Branches α} {ls : List Lexeme}
    (h : bs.Written row form ls) (hLeaves : ∀ a ∈ bs.leaves, IsLeaf (row a)) (nested : Nat) :
    Sealed (nested + 1) ls := by
  cases h with
  | last hCondition hWord hValue =>
    simp only [Branches.leaves, List.mem_append] at hLeaves
    have hTest := hCondition.sealed (fun a ha => hLeaves a (.inl ha)) (nested + 1)
    have hThen := sealed_word (k := .thenWord) hWord (by decide) nested
    have hResult := hValue.sealed (fun a ha => hLeaves a (.inr ha)) (nested + 1)
    exact hTest.append (hThen.append hResult)
  | otherwise hCondition hWord hValue hLast hFallback =>
    simp only [Branches.leaves, List.mem_append] at hLeaves
    have hTest := hCondition.sealed (fun a ha => hLeaves a (.inl (.inl ha))) (nested + 1)
    have hThen := sealed_word (k := .thenWord) hWord (by decide) nested
    have hResult := hValue.sealed (fun a ha => hLeaves a (.inl (.inr ha))) (nested + 1)
    have hElse := sealed_word (k := .elseWord) hLast (by decide) nested
    have hRest := hFallback.sealed (fun a ha => hLeaves a (.inr ha)) (nested + 1)
    exact hTest.append (hThen.append (hResult.append (hElse.append hRest)))
  | more hCondition hWord hValue hAgain hRest =>
    simp only [Branches.leaves, List.mem_append] at hLeaves
    have hTest := hCondition.sealed (fun a ha => hLeaves a (.inl (.inl ha))) (nested + 1)
    have hThen := sealed_word (k := .thenWord) hWord (by decide) nested
    have hResult := hValue.sealed (fun a ha => hLeaves a (.inl (.inr ha))) (nested + 1)
    have hWordAgain := sealed_word hAgain (by cases form <;> decide) nested
    have hOthers := hRest.sealed (fun a ha => hLeaves a (.inr ha)) nested
    exact hTest.append (hThen.append (hResult.append (hWordAgain.append hOthers)))

end

theorem Decision.Written.filled {d : Decision α} {ls : List Lexeme} (h : d.Written row ls)
    (hLeaves : ∀ a ∈ d.leaves, IsLeaf (row a)) : ∃ l ∈ ls, l.isComment = false := by
  cases h with
  | leaf a =>
    have hLeaf := hLeaves a (by simp [Decision.leaves])
    obtain ⟨l, ls, hCons⟩ := List.exists_cons_of_ne_nil hLeaf.filled
    exact ⟨l, by simp [hCons], hLeaf.uncommented l (by simp [hCons])⟩
  | @ifBlock word _ _ _ hWord =>
    have hToken : word.token = .identifier "IF".toList := hWord
    exact ⟨word, List.mem_cons_self, by rw [Lexeme.isComment, hToken]; rfl⟩
  | @caseBlock word _ _ _ _ _ _ hWord =>
    have hToken : word.token = .identifier "CASE".toList := hWord
    exact ⟨word, List.mem_cons_self, by rw [Lexeme.isComment, hToken]; rfl⟩

mutual

/-- The leaves of what stands in a text stand there too. -/
theorem Decision.Written.isRead {d : Decision α} {ls : List Lexeme} (h : d.Written row ls)
    (hRead : IsRead ls) : ∀ a ∈ d.leaves, IsRead (row a) := by
  cases h with
  | leaf a =>
    intro b hb
    obtain rfl : b = a := by simpa [Decision.leaves] using hb
    exact hRead
  | ifBlock _ hBranches _ => exact hBranches.isRead hRead.tail.append_left
  | caseBlock _ hSubject _ hArms _ =>
    intro a ha
    simp only [Decision.leaves, List.mem_append] at ha
    rcases ha with ha | ha
    · exact hSubject.isRead hRead.tail.append_left a ha
    · exact hArms.isRead hRead.tail.append_right.tail.append_left a ha

theorem Branches.Written.isRead {form : Form} {bs : Branches α} {ls : List Lexeme}
    (h : bs.Written row form ls) (hRead : IsRead ls) : ∀ a ∈ bs.leaves, IsRead (row a) := by
  intro a ha
  cases h with
  | last hCondition _ hValue =>
    simp only [Branches.leaves, List.mem_append] at ha
    rcases ha with ha | ha
    · exact hCondition.isRead hRead.append_left a ha
    · exact hValue.isRead hRead.append_right.tail a ha
  | otherwise hCondition _ hValue _ hFallback =>
    simp only [Branches.leaves, List.mem_append] at ha
    rcases ha with (ha | ha) | ha
    · exact hCondition.isRead hRead.append_left a ha
    · exact hValue.isRead hRead.append_right.tail.append_left a ha
    · exact hFallback.isRead hRead.append_right.tail.append_right.tail a ha
  | more hCondition _ hValue _ hRest =>
    simp only [Branches.leaves, List.mem_append] at ha
    rcases ha with (ha | ha) | ha
    · exact hCondition.isRead hRead.append_left a ha
    · exact hValue.isRead hRead.append_right.tail.append_left a ha
    · exact hRest.isRead hRead.append_right.tail.append_right.tail a ha

end

/-! ## Spans of the branches -/

def Branches.Located (row : α → List Lexeme) (ls : List Lexeme) : Branches α → Clauses → Prop
  | .last condition value, c =>
    condition.Written row (c.first.condition.slice ls) ∧ value.Written row (c.first.value.slice ls) ∧
      c.others = [] ∧ c.otherwise = none
  | .otherwise condition value fallback, c =>
    condition.Written row (c.first.condition.slice ls) ∧ value.Written row (c.first.value.slice ls) ∧
      c.others = [] ∧ ∃ s, c.otherwise = some s ∧ fallback.Written row (s.slice ls)
  | .more condition value rest, c =>
    condition.Written row (c.first.condition.slice ls) ∧ value.Written row (c.first.value.slice ls) ∧
      ∃ after, c.others = after.branches ∧ c.otherwise = after.otherwise ∧ rest.Located row ls after

theorem require_of_written {d : Decision α} {ls : List Lexeme} {s : Span}
    (h : d.Written row (s.slice ls)) (hLeaves : ∀ a ∈ d.leaves, IsLeaf (row a)) (part : Part) :
    require ls part s = .ok () := by
  rw [require, if_pos (isFilled_iff.2 (h.filled hLeaves))]

/-- One branch up to the keyword after it: the two marks, what the spans between them hold, and
where the search goes on. -/
theorem branch_spec {test result tail ls : List Lexeme} {word next : Lexeme} {k : Keyword}
    {start : Nat} (hTest : Sealed 0 test) (hWord : word.is "THEN") (hResult : Sealed 0 result)
    (hNext : next.is k.spelling) (hAt : ls.drop start = test ++ word :: (result ++ next :: tail)) :
    ∃ i j, outlineFrom 0 0 start (test ++ word :: (result ++ next :: tail)) =
        ((outlineFrom 0 0 (j + 1) tail).push ⟨k, j⟩).push ⟨.thenWord, i⟩ ∧
      (Span.mk start i).slice ls = test ∧ (Span.mk (i + 1) j).slice ls = result ∧
      ls.drop (j + 1) = tail ∧ j + 1 = start + (test ++ word :: (result ++ [next])).length := by
  have hTail : ls.drop (start + test.length) = [word] ++ (result ++ next :: tail) :=
    drop_of_drop hAt
  have hValue : ls.drop (start + test.length + 1) = result ++ next :: tail := drop_of_drop hTail
  have hRest : ls.drop (start + test.length + 1 + result.length) = [next] ++ tail :=
    drop_of_drop hValue
  refine ⟨start + test.length, start + test.length + 1 + result.length, ?_, slice_of_drop hAt,
    slice_of_drop hValue, drop_of_drop hRest, ?_⟩
  · rw [hTest.passed, outlineFrom_mark (k := .thenWord) hWord, hResult.passed,
      outlineFrom_mark hNext]
  · simp
    omega

section Clauses

variable {ls : List Lexeme} {form : Form} {failure : BlockError} {start i j : Nat}
  {marks : List Mark}

theorem readClauses_end (hCondition : require ls (.condition form) ⟨start, i⟩ = .ok ())
    (hValue : require ls (.value form) ⟨i + 1, j⟩ = .ok ()) :
    readClauses ls form failure start (⟨.thenWord, i⟩ :: ⟨.endWord, j⟩ :: marks) =
      .ok (⟨⟨⟨start, i⟩, ⟨i + 1, j⟩⟩, [], none⟩, j) := by
  simp only [readClauses, hCondition, hValue]
  cases form <;> rfl

theorem readClauses_else (hCondition : require ls (.condition form) ⟨start, i⟩ = .ok ())
    (hValue : require ls (.value form) ⟨i + 1, j⟩ = .ok ()) {stop : Nat}
    (hFallback : require ls .fallback ⟨j + 1, stop⟩ = .ok ()) :
    readClauses ls form failure start
        (⟨.thenWord, i⟩ :: ⟨.elseWord, j⟩ :: ⟨.endWord, stop⟩ :: marks) =
      .ok (⟨⟨⟨start, i⟩, ⟨i + 1, j⟩⟩, [], some ⟨j + 1, stop⟩⟩, stop) := by
  simp only [readClauses, readFallback, hCondition, hValue, hFallback]
  cases form <;> rfl

theorem readClauses_again (hCondition : require ls (.condition form) ⟨start, i⟩ = .ok ())
    (hValue : require ls (.value form) ⟨i + 1, j⟩ = .ok ()) {c : Clauses} {stop : Nat}
    (hRest : readClauses ls form failure (j + 1) marks = .ok (c, stop)) :
    readClauses ls form failure start (⟨.thenWord, i⟩ :: ⟨form.again, j⟩ :: marks) =
      .ok (⟨⟨⟨start, i⟩, ⟨i + 1, j⟩⟩, c.branches, c.otherwise⟩, stop) := by
  simp only [readClauses, hCondition, hValue, hRest]
  cases form <;> rfl

end Clauses

/-- The branches of a conditional are read off the keywords, up to its last word. -/
theorem readClauses_of_written {form : Form} {bs : Branches α} {inner : List Lexeme}
    (h : bs.Written row form inner) (hLeaves : ∀ a ∈ bs.leaves, IsLeaf (row a))
    {ls rest : List Lexeme} {stop : Lexeme} {start : Nat} (hStop : stop.is "END")
    (hAt : ls.drop start = inner ++ stop :: rest) (failure : BlockError) :
    ∃ c, readClauses ls form failure start (outlineFrom 0 0 start (inner ++ stop :: rest)).marks =
        .ok (c, start + inner.length) ∧ bs.Located row ls c := by
  cases h with
  | @last _ word condition value test result hCondition hWord hValue =>
    simp only [Branches.leaves, List.mem_append] at hLeaves
    have hTest := hCondition.sealed (fun a ha => hLeaves a (.inl ha)) 0
    have hResult := hValue.sealed (fun a ha => hLeaves a (.inr ha)) 0
    rw [List.append_assoc, List.cons_append] at hAt ⊢
    obtain ⟨i, j, hMarks, hFirst, hSecond, _, hLength⟩ :=
      branch_spec (k := .endWord) hTest hWord hResult hStop hAt
    have hCondition' : condition.Written row ((Span.mk start i).slice ls) := hFirst ▸ hCondition
    have hValue' : value.Written row ((Span.mk (i + 1) j).slice ls) := hSecond ▸ hValue
    refine ⟨⟨⟨⟨start, i⟩, ⟨i + 1, j⟩⟩, [], none⟩, ?_, hCondition', hValue', rfl, rfl⟩
    have hEnd : start + (test ++ word :: result).length = j := by simp at hLength ⊢; omega
    rw [hMarks, hEnd]
    exact readClauses_end (require_of_written hCondition' (fun a ha => hLeaves a (.inl ha)) _)
      (require_of_written hValue' (fun a ha => hLeaves a (.inr ha)) _)
  | @otherwise _ word last condition value fallback test result other hCondition hWord hValue hLast
      hFallback =>
    simp only [Branches.leaves, List.mem_append] at hLeaves
    have hTest := hCondition.sealed (fun a ha => hLeaves a (.inl (.inl ha))) 0
    have hResult := hValue.sealed (fun a ha => hLeaves a (.inl (.inr ha))) 0
    have hOther := hFallback.sealed (fun a ha => hLeaves a (.inr ha)) 0
    simp only [List.append_assoc, List.cons_append] at hAt ⊢
    obtain ⟨i, j, hMarks, hFirst, hSecond, hTail, hLength⟩ :=
      branch_spec (k := .elseWord) hTest hWord hResult hLast hAt
    have hThird := slice_of_drop hTail
    have hCondition' : condition.Written row ((Span.mk start i).slice ls) := hFirst ▸ hCondition
    have hValue' : value.Written row ((Span.mk (i + 1) j).slice ls) := hSecond ▸ hValue
    have hFallback' : fallback.Written row ((Span.mk (j + 1) (j + 1 + other.length)).slice ls) :=
      by rwa [hThird]
    refine ⟨⟨⟨⟨start, i⟩, ⟨i + 1, j⟩⟩, [], some ⟨j + 1, j + 1 + other.length⟩⟩, ?_, hCondition',
      hValue', rfl, _, rfl, hFallback'⟩
    have hEnd : start + (test ++ word :: (result ++ last :: other)).length = j + 1 + other.length := by
      simp at hLength ⊢
      omega
    rw [hMarks, hEnd, hOther.passed, outlineFrom_mark (k := .endWord) hStop]
    exact readClauses_else
      (require_of_written hCondition' (fun a ha => hLeaves a (.inl (.inl ha))) _)
      (require_of_written hValue' (fun a ha => hLeaves a (.inl (.inr ha))) _)
      (require_of_written hFallback' (fun a ha => hLeaves a (.inr ha)) _)
  | @more _ word again condition value others test result other hCondition hWord hValue hAgain
      hRest =>
    simp only [Branches.leaves, List.mem_append] at hLeaves
    have hTest := hCondition.sealed (fun a ha => hLeaves a (.inl (.inl ha))) 0
    have hResult := hValue.sealed (fun a ha => hLeaves a (.inl (.inr ha))) 0
    simp only [List.append_assoc, List.cons_append] at hAt ⊢
    obtain ⟨i, j, hMarks, hFirst, hSecond, hTail, hLength⟩ :=
      branch_spec hTest hWord hResult hAgain hAt
    have hCondition' : condition.Written row ((Span.mk start i).slice ls) := hFirst ▸ hCondition
    have hValue' : value.Written row ((Span.mk (i + 1) j).slice ls) := hSecond ▸ hValue
    obtain ⟨c, hClauses, hLocated⟩ := readClauses_of_written hRest
      (fun a ha => hLeaves a (.inr ha)) hStop hTail failure
    refine ⟨⟨⟨⟨start, i⟩, ⟨i + 1, j⟩⟩, c.branches, c.otherwise⟩, ?_, hCondition', hValue', c, rfl,
      rfl, hLocated⟩
    have hEnd : start + (test ++ word :: (result ++ again :: other)).length = j + 1 + other.length := by
      simp at hLength ⊢
      omega
    rw [hMarks, hEnd]
    exact readClauses_again
      (require_of_written hCondition' (fun a ha => hLeaves a (.inl (.inl ha))) _)
      (require_of_written hValue' (fun a ha => hLeaves a (.inl (.inr ha))) _) hClauses
termination_by bs

/-! ## Whole conditionals -/

inductive Parsed (row : α → List Lexeme) (ls : List Lexeme) : Decision α → Conditional → Prop
  | ifBlock {branches : Branches α} {c : Clauses} (hBranches : branches.Located row ls c) :
      Parsed row ls (.ifBlock branches) (.ifBlock ⟨0, ls.length⟩ c)
  | caseBlock {subject : Decision α} {arms : Branches α} {s : Span} {c : Clauses}
      (hSubject : subject.Written row (s.slice ls)) (hArms : arms.Located row ls c) :
      Parsed row ls (.caseBlock subject arms) (.caseBlock ⟨0, ls.length⟩ s c)

theorem conditionalAt_if {ls : List Lexeme} {word : Lexeme} (hWord : word.is "IF")
    {c : Conditional} (hParse : parseIf (word :: ls) 0 = .ok c) :
    conditionalAt? (word :: ls) 0 = some c := by
  have hToken : word.token = .identifier "IF".toList := hWord
  simp [conditionalAt?, tokenAt, hToken, hParse, Except.toOption]

theorem conditionalAt_case {ls : List Lexeme} {word : Lexeme} (hWord : word.is "CASE")
    {c : Conditional} (hParse : parseCase (word :: ls) 0 = .ok c) :
    conditionalAt? (word :: ls) 0 = some c := by
  have hToken : word.token = .identifier "CASE".toList := hWord
  simp [conditionalAt?, tokenAt, hToken, hParse, Except.toOption]

/-- A written conditional is the one that is found, and spans everything. -/
theorem conditionals_of_written {d : Decision α} {ls : List Lexeme} {form : Form}
    (h : d.Written row ls) (hForm : d.form? = some form)
    (hLeaves : ∀ a ∈ d.leaves, IsLeaf (row a)) :
    ∃ c, conditionals ls = [c] ∧ c.form = form ∧ Parsed row ls d c := by
  cases h with
  | leaf => cases hForm
  | @ifBlock word stop branches inner hWord hBranches hStop =>
    obtain rfl : Form.ifForm = form := Option.some.inj hForm
    have hAt : (word :: (inner ++ [stop])).drop 1 = inner ++ stop :: [] := rfl
    obtain ⟨c, hClauses, hLocated⟩ := readClauses_of_written hBranches hLeaves hStop hAt
      (outlineFrom 0 0 1 (inner ++ [stop])).failure
    refine ⟨.ifBlock ⟨0, (word :: (inner ++ [stop])).length⟩ c, ?_, rfl, .ifBlock hLocated⟩
    refine outermost_of_whole (conditionalAt_if hWord ?_) rfl (by simp)
    have hStopAt : 1 + inner.length + 1 = (word :: (inner ++ [stop])).length := by simp; omega
    simp only [parseIf, outline, Nat.zero_add, List.drop_succ_cons, List.drop_zero, hClauses]
    rw [← hStopAt]
    rfl
  | @caseBlock word first stop subject arms head inner hWord hSubject hFirst hArms hStop =>
    obtain rfl : Form.caseForm = form := Option.some.inj hForm
    simp only [Decision.leaves, List.mem_append] at hLeaves
    have hHead := hSubject.sealed (fun a ha => hLeaves a (.inl ha)) 0
    have hMarks : outlineFrom 0 0 1 (head ++ first :: (inner ++ [stop])) =
        (outlineFrom 0 0 (1 + head.length + 1) (inner ++ [stop])).push
          ⟨.whenWord, 1 + head.length⟩ := by
      rw [hHead.passed, outlineFrom_mark (k := .whenWord) hFirst]
    have hAt : (word :: (head ++ first :: (inner ++ [stop]))).drop 1 =
        head ++ ([first] ++ (inner ++ [stop])) := rfl
    have hArmsAt := drop_of_drop (drop_of_drop hAt)
    obtain ⟨c, hClauses, hLocated⟩ := readClauses_of_written hArms
      (fun a ha => hLeaves a (.inr ha)) hStop hArmsAt
      (outlineFrom 0 0 (1 + head.length + 1) (inner ++ [stop])).failure
    have hSubject' : subject.Written row ((Span.mk 1 (1 + head.length)).slice
        (word :: (head ++ first :: (inner ++ [stop])))) := by rwa [slice_of_drop hAt]
    have hRequire := require_of_written hSubject' (fun a ha => hLeaves a (.inl ha)) .subject
    refine ⟨.caseBlock ⟨0, (word :: (head ++ first :: (inner ++ [stop]))).length⟩
      ⟨1, 1 + head.length⟩ c, ?_, rfl, .caseBlock hSubject' hLocated⟩
    refine outermost_of_whole (conditionalAt_case hWord ?_) rfl (by simp)
    have hStopAt : 1 + head.length + 1 + inner.length + 1 =
        (word :: (head ++ first :: (inner ++ [stop]))).length := by simp; omega
    simp only [List.length_singleton] at hClauses
    simp only [parseCase, outline, Nat.zero_add, List.drop_succ_cons, List.drop_zero, hMarks,
      Outline.push, if_true, hRequire, hClauses]
    rw [← hStopAt]
    rfl

/-- No conditional begins in a leaf. -/
theorem IsLeaf.conditionals {ls : List Lexeme} (h : IsLeaf ls) : conditionals ls = [] := by
  refine conditionals_eq_nil fun l hl => ?_
  have hUnreserved := h.unreserved l hl
  constructor
  · exact Bool.eq_false_iff.2 fun hWord => hUnreserved "IF" (by decide) (Token.isWord_iff.1 hWord)
  · exact Bool.eq_false_iff.2 fun hWord => hUnreserved "CASE" (by decide) (Token.isWord_iff.1 hWord)

end DaxMigration.Formula
