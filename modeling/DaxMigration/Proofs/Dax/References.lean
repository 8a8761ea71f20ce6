import DaxMigration.Dax.Conversion
import DaxMigration.Proofs.Dax.Replacing
import DaxMigration.Proofs.Dax.Spelling
import DaxMigration.Proofs.Dax.Surviving
import DaxMigration.Proofs.Formula.Bounds

/-!
# References

A field belongs to the table whose name stands directly in front of it, and any name counts as one,
the operators written as words too. Such a field is left as it was written, and every other one
stands in the result with the table of the target, whether it stood outside of all conditionals or
in a part of one. Only a word of a conditional is a name in one place and the edge of a part in
another, so fields directly behind such words are left out here.
-/

namespace DaxMigration.Dax

open Formula Text

variable {t : Target} {x : List Char}

def EndsBare (ls : List Lexeme) : Prop :=
  ∀ p ∈ (ls.map Lexeme.token).getLast?, isTableName p = false

def isBlockWord (token : Token) : Bool :=
  match roleOf token with
  | .begins | .keyword _ => true
  | _ => false

def reference (t : Target) (previous : Option Token) (name : List Char) (l : Lexeme) : List Char :=
  if l.isAttached && previous.any isTableName then l.text else t.column name

/-- Behind the token in front of it, the row has what becomes the text: a field that is written so,
or text spliced in that holds it. -/
inductive Delivers (t : Target) (x : List Char) : Option Token → List Lexeme → Prop
  | field {previous : Option Token} {l : Lexeme} {rest : List Lexeme} {name : List Char}
      (hToken : l.token = .field name)
      (hFree : l.isAttached = true → previous.any isBlockWord = false)
      (hText : reference t previous name l = x) : Delivers t x previous (l :: rest)
  | spliced {previous : Option Token} {l : Lexeme} {rest : List Lexeme} {text : List Char}
      (hToken : l.token = .verbatim text) (hText : x <:+: l.text) : Delivers t x previous (l :: rest)
  | later {previous : Option Token} {l : Lexeme} {rest : List Lexeme}
      (h : Delivers t x (some l.token) rest) : Delivers t x previous (l :: rest)

/-- Where the second run stands for the first, the text is not lost, whatever stands around. -/
def Conveys (t : Target) (x : List Char) (run made : List Lexeme) : Prop :=
  ∀ {previous : Option Token} {rest rest' : List Lexeme}, Delivers t x previous (run ++ rest) →
    (∀ next, Delivers t x next rest → Delivers t x next rest') → Delivers t x previous (made ++ rest')

theorem reference_of_bare {previous : Option Token} {l : Lexeme}
    (h : l.isAttached = true → previous.any isTableName = false) (t : Target) (name : List Char) :
    reference t previous name l = t.column name := by
  rw [reference, if_neg]
  rw [Bool.and_eq_true]
  rintro ⟨hAttached, hName⟩
  rw [h hAttached] at hName
  cases hName

theorem tight_column (t : Target) (name : List Char) : Tight (t.column name) :=
  have h := (renders_column t name).settled
  ⟨h.filled, h.head, h.last⟩

theorem tight_of_terminated {l : Lexeme} {name : List Char} (hToken : l.token = .field name)
    (h : l.isTerminated = true) : Tight l.text := by
  obtain ⟨token, text, leading⟩ := l
  obtain rfl : token = .field name := hToken
  obtain rfl : text = bracketed name := eq_of_beq h
  rw [bracketed]
  refine ⟨by simp, fun c hc => ?_, fun c hc => ?_⟩
  · obtain rfl : '[' = c := by simpa using hc
    decide
  · rw [List.getLast?_append] at hc
    obtain rfl : ']' = c := by simpa using hc
    decide

theorem getLast?_cons_or {α : Type} (a : α) (as : List α) (previous : Option α) :
    (a :: as).getLast?.or previous = as.getLast?.or (some a) := by
  rw [List.getLast?_cons, Option.some_or]
  cases as.getLast? <;> rfl

theorem delivers_of_split {before after : List Lexeme} {l : Lexeme} {name : List Char}
    (hToken : l.token = .field name)
    (hFree : l.isAttached = true → (before.map Lexeme.token).getLast?.any isBlockWord = false) :
    Delivers t (reference t (before.map Lexeme.token).getLast? name l) none
      (before ++ l :: after) := by
  suffices hBehind : ∀ previous : Option Token, ∀ last,
      last = (before.map Lexeme.token).getLast?.or previous →
      (l.isAttached = true → last.any isBlockWord = false) →
      Delivers t (reference t last name l) previous (before ++ l :: after) from
    hBehind none _ (Option.or_none).symm hFree
  clear hFree
  induction before with
  | nil =>
    rintro previous last rfl hFree
    exact .field hToken hFree rfl
  | cons m before ih =>
    rintro previous last rfl hFree
    exact .later (ih _ _ (getLast?_cons_or _ _ _) hFree)

/-! ## Single rules -/

/-- How a lexeme is spelled depends on whether a field follows it. It stays a table name where one
does, and nothing else becomes one. -/
theorem normalize_cons (m : Lexeme) (named : Bool) :
    ∃ n, (n.token = m.token ∨
        isTableName n.token = false ∧ (named = true → isTableName m.token = false)) ∧
      ∀ rest, namesTable rest = named → normalize (m :: rest) = n :: normalize rest := by
  refine ⟨_, ?_, fun rest hNamed => by rw [normalize, hNamed]⟩
  split
  · exact .inl rfl
  · rename_i hToken
    rw [hToken]
    exact .inr ⟨rfl, fun _ => rfl⟩
  · cases named with
    | true => exact .inl rfl
    | false => exact .inr ⟨rfl, nofun⟩
  · exact .inl rfl

theorem isTableName_of_isBlockWord {token : Token} (h : isBlockWord token = true) :
    isTableName token = true := by
  cases token with
  | identifier => rfl
  | _ => cases h

namespace Delivers

/-- The token in front matters only where a field stands directly behind it, and a word of a
conditional does not matter at all. -/
theorem behind {previous next : Option Token} {ls : List Lexeme} (h : Delivers t x previous ls)
    (hSame : namesTable ls = true → previous.any isBlockWord = false →
      next.any isTableName = previous.any isTableName ∧ next.any isBlockWord = false) :
    Delivers t x next ls := by
  cases h with
  | @field _ l rest name hToken hFree hText =>
    cases hAttached : l.isAttached with
    | false =>
      refine .field hToken (by simp [hAttached]) ?_
      simpa [reference, hAttached] using hText
    | true =>
      have hNames : namesTable (l :: rest) = true := by simp [namesTable, hAttached, hToken, Token.isField]
      obtain ⟨hTable, hWord⟩ := hSame hNames (hFree hAttached)
      refine .field hToken (fun _ => hWord) ?_
      rwa [reference, hTable]
  | spliced hToken hText => exact .spliced hToken hText
  | later h => exact .later h

/-- A word of a conditional delivers nothing, so it parts a row. -/
theorem parted {previous : Option Token} {before after : List Lexeme} {word : Lexeme}
    (h : Delivers t x previous (before ++ word :: after)) (hWord : isBlockWord word.token = true) :
    Delivers t x previous before ∨ ∀ next, Delivers t x next after := by
  induction before generalizing previous with
  | nil =>
    cases h with
    | field hToken | spliced hToken =>
      rw [hToken] at hWord
      cases hWord
    | later h =>
      -- A field directly behind the word does not count, so any token may take its place.
      refine .inr fun next => h.behind fun _ hFree => ?_
      rw [Option.any_some, hWord] at hFree
      cases hFree
  | cons m before ih =>
    cases h with
    | field hToken hFree hText => exact .inl (.field hToken hFree hText)
    | spliced hToken hText => exact .inl (.spliced hToken hText)
    | later h =>
      rcases ih h with hBefore | hAfter
      · exact .inl (.later hBefore)
      · exact .inr hAfter

theorem mapFunctions {previous : Option Token} {ls : List Lexeme} (h : Delivers t x previous ls) :
    Delivers t x previous (mapFunctions t ls) := by
  induction h with
  | field hToken hFree hText =>
    rw [Dax.mapFunctions, calledName?, hToken]
    exact .field hToken hFree hText
  | spliced hToken hText =>
    rw [Dax.mapFunctions, calledName?, hToken]
    exact .spliced hToken hText
  | later _ ih =>
    rw [Dax.mapFunctions]
    split <;> exact .later ih

/-- After spelling and qualification the text stands in a lexeme that is no sign. -/
theorem exists_lexeme {previous : Option Token} {ls : List Lexeme} (h : Delivers t x previous ls) :
    ∃ m ∈ qualify t previous (normalize ls), m.token ≠ .slash ∧ x <:+: m.text := by
  induction ls generalizing previous with
  | nil => cases h
  | cons l rest ih =>
    cases h with
    | @field _ _ _ name hToken _ hText =>
      refine ⟨{ l with text := reference t previous name l }, ?_, by simp [hToken], ?_⟩
      · simp only [normalize, hToken, qualify, reference]
        split <;> simp [← hToken]
      · exact hText ▸ List.infix_rfl
    | spliced hToken hText =>
      refine ⟨l, ?_, by simp [hToken], hText⟩
      simp only [normalize, hToken, qualify]
      exact List.mem_cons_self
    | later h =>
      obtain ⟨m, hToken, hNormalize⟩ := normalize_cons l (namesTable rest)
      have hRest : Delivers t x (some m.token) rest := by
        refine h.behind fun hNames hFree => ?_
        rcases hToken with hSame | ⟨hPlain, hBefore⟩
        · rw [hSame]
          exact ⟨rfl, hFree⟩
        · rw [Option.any_some, Option.any_some, Option.any_some, hPlain, hBefore hNames]
          exact ⟨rfl, Bool.eq_false_iff.2 fun hWord =>
            Bool.eq_false_iff.1 hPlain (isTableName_of_isBlockWord hWord)⟩
      obtain ⟨n, hn, hShown⟩ := ih hRest
      rw [hNormalize rest rfl, qualify]
      exact ⟨n, List.mem_cons_of_mem _ hn, hShown⟩

theorem infix_qualified {ls : List Lexeme} (h : Delivers t x none ls) (hTight : Tight x) :
    x <:+: qualified t ls := by
  obtain ⟨m, hm, -, hText⟩ := h.exists_lexeme
  exact infix_render hTight hm hText

theorem infix_standard {ls : List Lexeme} (h : Delivers t x none ls) (hTight : Tight x) :
    x <:+: standard t ls := by
  obtain ⟨m, hm, hSlash, hText⟩ := h.mapFunctions.exists_lexeme
  exact infix_trim hTight (infix_convertDivision hTight hm hSlash hText)

/-! ## Conditionals -/

theorem replaced {previous : Option Token} {old new : List Lexeme} (h : Delivers t x previous old)
    (hReplaced : Replaced (Conveys t x) old new) : Delivers t x previous new := by
  induction hReplaced generalizing previous with
  | nil => exact h
  | keep l _ ih =>
    cases h with
    | field hToken hFree hText => exact .field hToken hFree hText
    | spliced hToken hText => exact .spliced hToken hText
    | later h => exact .later (ih h)
  | swap hThis _ ih => exact hThis h fun _ hRest => ih hRest

variable {ls rest : List Lexeme}

theorem parted_at {start i stop : Nat} {token : Token} {previous : Option Token}
    (h : Delivers t x previous ((Span.mk start stop).slice ls ++ rest))
    (hToken : tokenAt ls i = some token) (hWord : isBlockWord token = true) (hOrder : start ≤ i)
    (hStop : i < stop) :
    Delivers t x previous ((Span.mk start i).slice ls) ∨
      ∀ next, Delivers t x next ((Span.mk (i + 1) stop).slice ls ++ rest) := by
  obtain ⟨word, rfl, hSlice⟩ := slice_of_tokenAt hToken hOrder hStop
  rw [hSlice, List.append_assoc, List.cons_append] at h
  exact h.parted hWord

theorem parted_at_keyword {start i stop : Nat} {k : Keyword}
    (h : Delivers t x none ((Span.mk start stop).slice ls ++ rest)) (hWord : KeywordAt ls i k)
    (hOrder : start ≤ i) (hStop : i < stop) :
    Delivers t x none ((Span.mk start i).slice ls) ∨
      ∀ next, Delivers t x next ((Span.mk (i + 1) stop).slice ls ++ rest) :=
  h.parted_at hWord (by cases k <;> decide) hOrder hStop

/-- A branch has the text in its condition, or in its value, or leaves it to what follows. -/
theorem in_branch {start i j stop : Nat} {k : Keyword}
    (h : Delivers t x none ((Span.mk start stop).slice ls ++ rest))
    (hCondition : SegmentAt ls ⟨start, i⟩) (hThen : KeywordAt ls i .thenWord)
    (hValue : SegmentAt ls ⟨i + 1, j⟩) (hWord : KeywordAt ls j k) (hStop : j < stop) :
    (∃ s : Span, (s = ⟨start, i⟩ ∨ s = ⟨i + 1, j⟩) ∧ Delivers t x none (s.slice ls)) ∨
      ∀ next, Delivers t x next ((Span.mk (j + 1) stop).slice ls ++ rest) := by
  have hOrder : i < j := hValue.within.1
  rcases h.parted_at_keyword hThen hCondition.within.1 (hOrder.trans hStop) with hFirst | hRest
  · exact .inl ⟨_, .inl rfl, hFirst⟩
  rcases (hRest none).parted_at_keyword hWord hOrder hStop with hSecond | hRest
  · exact .inl ⟨_, .inr rfl, hSecond⟩
  · exact .inr hRest

theorem in_clauses {form : Form} {start stop : Nat} {c : Clauses}
    (h : Delivers t x none ((Span.mk start (stop + 1)).slice ls ++ rest))
    (hClauses : ClausesAt ls form start c stop) :
    (∃ s ∈ c.spans, Delivers t x none (s.slice ls)) ∨ ∀ next, Delivers t x next rest := by
  induction hClauses with
  | @last start i stop hCondition hThen hValue hEnd =>
    rcases h.in_branch hCondition hThen hValue hEnd (Nat.lt_succ_self stop) with ⟨s, hs, hPart⟩ | hRest
    · exact .inl ⟨s, mem_spans.2 (.inl ⟨_, List.mem_cons_self, hs⟩), hPart⟩
    · rw [slice_self] at hRest
      exact .inr hRest
  | @otherwise start i j stop hCondition hThen hValue hElse hFallback hEnd =>
    have hOrder : j < stop := hFallback.within.1
    rcases h.in_branch hCondition hThen hValue hElse (Nat.lt_succ_of_lt hOrder) with
      ⟨s, hs, hPart⟩ | hRest
    · exact .inl ⟨s, mem_spans.2 (.inl ⟨_, List.mem_cons_self, hs⟩), hPart⟩
    rcases (hRest none).parted_at_keyword hEnd hOrder (Nat.lt_succ_self stop) with hLast | hRest
    · exact .inl ⟨_, mem_spans.2 (.inr rfl), hLast⟩
    · rw [slice_self] at hRest
      exact .inr hRest
  | @more start i j stop c hCondition hThen hValue hAgain hOthers ih =>
    have hOrder : j < stop := hOthers.bounds.1
    rcases h.in_branch hCondition hThen hValue hAgain (Nat.lt_succ_of_lt hOrder) with
      ⟨s, hs, hPart⟩ | hRest
    · exact .inl ⟨s, mem_spans.2 (.inl ⟨_, List.mem_cons_self, hs⟩), hPart⟩
    rcases ih (hRest none) with ⟨s, hs, hPart⟩ | hRest
    · refine .inl ⟨s, mem_spans.2 ?_, hPart⟩
      exact (mem_spans.1 hs).imp_left fun ⟨b, hb, hSpan⟩ => ⟨b, List.mem_cons_of_mem _ hb, hSpan⟩
    · exact .inr hRest

theorem behind_first_word {i stop : Nat} {word : String} {token : Token} {previous : Option Token}
    (h : Delivers t x previous ((Span.mk i stop).slice ls ++ rest)) (hAt : tokenAt ls i = some token)
    (hToken : token.isWord word = true) (hWord : isBlockWord (.identifier word.toList) = true)
    (hStop : i < stop) : Delivers t x none ((Span.mk (i + 1) stop).slice ls ++ rest) := by
  rw [Token.isWord_iff.1 hToken] at hAt
  rcases h.parted_at hAt hWord le_rfl hStop with hEmpty | hRest
  · rw [slice_self] at hEmpty
    cases hEmpty
  · exact hRest none

/-- A text that stands in a conditional stands in one of its parts. -/
theorem in_conditional {i : Nat} {c : Conditional} {previous : Option Token}
    (h : Delivers t x previous (c.span.slice ls ++ rest)) (hFound : conditionalAt? ls i = some c) :
    (∃ s ∈ c.parts, Delivers t x none (s.slice ls)) ∨ ∀ next, Delivers t x next rest := by
  obtain ⟨token, hAt, ⟨hWord, hIf⟩ | ⟨hWord, hCase⟩⟩ := parse_of_conditionalAt hFound
  · cases parseIf_eq_ok_iff.1 hIf with
    | @intro clauses stop hClauses =>
      have hOrder : i < stop := hClauses.bounds.1
      have hRest := h.behind_first_word hAt hWord (by decide) (Nat.lt_succ_of_lt hOrder)
      exact hRest.in_clauses hClauses
  · cases parseCase_eq_ok_iff.1 hCase with
    | @intro j stop clauses hSubject hWhen hClauses =>
      have hFirst : i < j := hSubject.within.1
      have hOrder : j < stop := hClauses.bounds.1
      have hRest := h.behind_first_word hAt hWord (by decide) (Nat.lt_succ_of_lt (hFirst.trans hOrder))
      rcases hRest.parted_at_keyword hWhen hFirst (Nat.lt_succ_of_lt hOrder) with hPart | hRest
      · exact .inl ⟨_, List.mem_cons_self, hPart⟩
      · exact ((hRest none).in_clauses hClauses).imp_left fun ⟨s, hs, hPart⟩ =>
          ⟨s, List.mem_cons_of_mem _ hs, hPart⟩

/-- Splicing conditionals loses no reference, however deep they are nested. -/
theorem spliceConditionals {room : Nat} {ls ls' : List Lexeme} (h : Delivers t x none ls)
    (hTight : Tight x) (hSpliced : Gives (spliceConditionals t room ls) ls') :
    Delivers t x none ls' := by
  -- On the levels: the parts of a conditional are converted with one level less.
  induction room generalizing ls ls' with
  | zero => exact absurd hSpliced (not_gives_failure _)
  | succ room ih =>
    refine h.replaced (Gives.replaced Conditional.span hSpliced
      (ordered_of_foundAt (fun i c hFound => (bounded_of_conditionalAt hFound).located) _) ?_)
    intro c hc made hMade
    obtain ⟨i, -, hFound⟩ := found_of_mem_outermost hc
    obtain ⟨text, hText, hMade⟩ := hMade.of_bind
    rw [gives_pure_iff.1 hMade]
    refine ⟨rfl, fun hRun hRest => ?_⟩
    rcases hRun.in_conditional hFound with ⟨s, hs, hPart⟩ | hBehind
    · refine .spliced rfl (infix_convertConditional hs (fun u hu => ?_) hText)
      obtain ⟨spliced, hPartSpliced, hu⟩ := hu.of_bind
      rw [gives_pure_iff.1 hu]
      exact (ih hPart hPartSpliced).infix_qualified hTight
    · exact .later (hRest _ (hBehind _))

end Delivers

/-! ## Whole formulas -/

section

variable {formula dax name : List Char} {kind : Kind} {facts : Facts} {remarks : List Remark}
  {before after : List Lexeme} {l : Lexeme}

variable (hAttempt : attempt t formula = .converted kind facts dax remarks)
  (hKind : kind = .standard ∨ ∃ form, kind = .conditional form)

include hAttempt hKind

theorem infix_of_delivers (h : Delivers t x none (tokenize formula)) (hTight : Tight x) :
    x <:+: dax := by
  obtain ⟨-, hText⟩ := gives_of_attempt hAttempt
  rcases hKind with rfl | ⟨form, rfl⟩
  · rw [gives_standardRemarked hText]
    exact h.infix_standard hTight
  · obtain ⟨spliced, hSpliced, hDax⟩ := hText.of_bind
    rw [gives_pure_iff.1 hDax]
    exact (h.spliceConditionals hTight hSpliced).infix_qualified hTight

/-- A field without a name directly in front of it stands in the result with the target's table, -/
theorem infix_of_bare (hSplit : tokenize formula = before ++ l :: after) (hToken : l.token = .field name)
    (hBare : l.isAttached = true → EndsBare before) : t.column name <:+: dax := by
  have hNoName : l.isAttached = true → (before.map Lexeme.token).getLast?.any isTableName = false :=
    fun hAttached => (Option.any_eq_false _ _).2 (hBare hAttached)
  have hFree : l.isAttached = true → (before.map Lexeme.token).getLast?.any isBlockWord = false := by
    intro hAttached
    refine (Option.any_eq_false _ _).2 fun p hp => Bool.eq_false_iff.2 fun hWord => ?_
    exact Bool.eq_false_iff.1 (hBare hAttached p hp) (isTableName_of_isBlockWord hWord)
  have h := @delivers_of_split t before after l name hToken hFree
  rw [reference_of_bare hNoName, ← hSplit] at h
  exact infix_of_delivers hAttempt hKind h (tight_column t name)

/-- and one that is closed and stands directly behind a name stands there as it was written. -/
theorem infix_of_attached (hSplit : tokenize formula = before ++ l :: after)
    (hToken : l.token = .field name) (hClosed : l.isTerminated = true) (hAttached : l.isAttached = true)
    {previous : Token} (hLast : (before.map Lexeme.token).getLast? = some previous)
    (hName : isTableName previous = true) (hFree : isBlockWord previous = false) :
    l.text <:+: dax := by
  have h := @delivers_of_split t before after l name hToken fun _ => by
    rw [hLast]
    exact hFree
  rw [reference, hLast, hAttached, Option.any_some, hName, Bool.and_self, if_pos rfl, ← hSplit] at h
  exact infix_of_delivers hAttempt hKind h (tight_of_terminated hToken hClosed)

end

-- The operators that are words count as names.
example : standard ⟨fun _ => none, "Sales".toList, "Date".toList⟩ (tokenize "[a] AND[b]".toList) =
    "Sales[a] AND[b]".toList := by
  decide +kernel

end DaxMigration.Dax
