import DaxMigration.Proofs.Formula.Segments

/-!
# Conditionals in one walk

A conditional can be read in one walk over the lexemes that counts brackets and inner conditionals and
changes its state at each keyword. Its state has room for more than can happen: a value whose
condition was not read, a conditional whose subject was not read. The walk guards against both, and
agrees with the recognition from the outline, where neither can be said; so no guard is ever hit.
-/

namespace DaxMigration.Formula

inductive Awaits where
  | subject
  | condition
  | value
  | fallback
deriving DecidableEq

structure WalkState where
  awaits : Awaits
  subject : Option Span
  /-- The condition whose value is yet to come. -/
  pending : Option Span
  branches : List Branch
  /-- Where the part begins that the next keyword ends. -/
  start : Nat

inductive WalkError where
  | block (e : BlockError)
  /-- A value ends whose condition was not read. -/
  | withoutCondition (form : Form)
  /-- The conditional ends and its subject was not read. -/
  | withoutSubject
deriving DecidableEq

def WalkError.reason : WalkError → String
  | block e => e.reason
  | withoutCondition .ifForm => "THEN without condition"
  | withoutCondition .caseForm => "THEN without WHEN"
  | withoutSubject => "CASE without WHEN"

def guardReasons : List String :=
  ["THEN without condition", "THEN without WHEN", "CASE without WHEN"]

inductive WalkStep where
  | continue (w : WalkState)
  /-- `END` was read, with the fallback in front of it. -/
  | finish (w : WalkState) (otherwise : Option Span)

def walkedAs {α β : Type} (f : α → β) : Except BlockError α → Except WalkError β
  | .ok a => .ok (f a)
  | .error e => .error (.block e)

def requireWalk (ls : List Lexeme) (part : Part) (s : Span) : Except WalkError Unit :=
  walkedAs id (require ls part s)

def WalkState.step (ls : List Lexeme) (form : Form) (w : WalkState) (m : Mark) :
    Except WalkError WalkStep :=
  let part : Span := ⟨w.start, m.position⟩
  let w := { w with start := m.position + 1 }
  let unexpected := .error (.block (.unexpected m.keyword m.position form))
  match w.awaits with
  | .subject =>
    if m.keyword = .whenWord then do
      requireWalk ls .subject part
      return .continue { w with subject := some part, awaits := .condition }
    else unexpected
  | .condition =>
    if m.keyword = .thenWord then do
      requireWalk ls (.condition form) part
      return .continue { w with pending := some part, awaits := .value }
    else unexpected
  | .value =>
    if m.keyword = form.again ∨ m.keyword = .elseWord ∨ m.keyword = .endWord then
      match w.pending with
      | none => .error (.withoutCondition form)
      | some condition => do
        requireWalk ls (.value form) part
        let w := { w with pending := none, branches := w.branches ++ [⟨condition, part⟩] }
        if m.keyword = form.again then return .continue { w with awaits := .condition }
        else if m.keyword = .elseWord then return .continue { w with awaits := .fallback }
        else return .finish w none
    else unexpected
  | .fallback =>
    if m.keyword = .endWord then do
      requireWalk ls .fallback part
      return .finish w (some part)
    else unexpected

structure Walked where
  subject : Option Span
  branches : List Branch
  otherwise : Option Span
  stop : Nat

/-- The walk over the lexemes from position `i` on, inside `depth` brackets and `nested` inner
conditionals. -/
def walkFrom (ls : List Lexeme) (form : Form) :
    (depth nested i : Nat) → WalkState → List Lexeme → Except WalkError Walked
  | _, _, _, _, [] => .error (.block .withoutEnd)
  | depth, nested, i, w, l :: rest =>
    match onward depth nested (roleOf l.token) with
    | some (depth', nested') => walkFrom ls form depth' nested' (i + 1) w rest
    | none =>
      match roleOf l.token with
      | .keyword k => do
        match ← w.step ls form ⟨k, i⟩ with
        | .continue w => walkFrom ls form 0 0 (i + 1) w rest
        | .finish w otherwise => return ⟨w.subject, w.branches, otherwise, i⟩
      | _ => .error (.block .unbalanced)

structure WalkedBlock where
  span : Span
  subject : Option Span
  branches : List Branch
  otherwise : Option Span
deriving DecidableEq

def Conditional.walked : Conditional → WalkedBlock
  | ifBlock span clauses => ⟨span, none, clauses.branches, clauses.otherwise⟩
  | caseBlock span subject clauses => ⟨span, some subject, clauses.branches, clauses.otherwise⟩

def walkIf (ls : List Lexeme) (start : Nat) : Except WalkError WalkedBlock := do
  let w ← walkFrom ls .ifForm 0 0 (start + 1) ⟨.condition, none, none, [], start + 1⟩
    (ls.drop (start + 1))
  return ⟨⟨start, w.stop + 1⟩, none, w.branches, w.otherwise⟩

def walkCase (ls : List Lexeme) (start : Nat) : Except WalkError WalkedBlock := do
  let w ← walkFrom ls .caseForm 0 0 (start + 1) ⟨.subject, none, none, [], start + 1⟩
    (ls.drop (start + 1))
  match w.subject with
  | none => .error .withoutSubject
  | some subject => return ⟨⟨start, w.stop + 1⟩, some subject, w.branches, w.otherwise⟩

/-! ## The walk and the outline -/

def walkMarks (ls : List Lexeme) (form : Form) (failure : BlockError) :
    WalkState → List Mark → Except WalkError Walked
  | _, [] => .error (.block failure)
  | w, m :: marks => do
    match ← w.step ls form m with
    | .continue w => walkMarks ls form failure w marks
    | .finish w otherwise => return ⟨w.subject, w.branches, otherwise, m.position⟩

/-- The walk sees of the lexemes what the outline tells of them. -/
theorem walkFrom_eq (ls : List Lexeme) (form : Form) (depth nested i : Nat) (w : WalkState)
    (rest : List Lexeme) :
    walkFrom ls form depth nested i w rest =
      walkMarks ls form (outlineFrom depth nested i rest).failure w
        (outlineFrom depth nested i rest).marks := by
  induction rest generalizing depth nested i w with
  | nil => rfl
  | cons l rest ih =>
    rw [walkFrom, outlineFrom_cons]
    cases onward depth nested (roleOf l.token) with
    | some state => exact ih state.1 state.2 (i + 1) w
    | none =>
      cases roleOf l.token with
      | keyword k =>
        simp only [Outline.push, walkMarks]
        refine bind_congr fun step => ?_
        cases step with
        | «continue» w => exact ih 0 0 (i + 1) w
        | finish w otherwise => rfl
      | opens | closes | begins | plain => rfl

theorem require_of_filled {ls : List Lexeme} {s : Span} (h : isFilled ls s = true) (part : Part) :
    require ls part s = .ok () := by
  rw [require, if_pos h]

theorem require_of_unfilled {ls : List Lexeme} {s : Span} (h : isFilled ls s = false) (part : Part) :
    require ls part s = .error (.missing part) := by
  rw [require, if_neg (by simp [h])]

/-- Where the fallback begins the walk reads it as the outline does. -/
theorem walkMarks_fallback (ls : List Lexeme) (form : Form) (failure : BlockError)
    (subject pending : Option Span) (branches : List Branch) (start : Nat) (marks : List Mark) :
    walkMarks ls form failure ⟨.fallback, subject, pending, branches, start⟩ marks =
      walkedAs (fun (s, stop) => ⟨subject, branches, some s, stop⟩)
        (readFallback ls form failure start marks) := by
  match marks with
  | [] => rfl
  | ⟨k, i⟩ :: marks =>
    cases k with
    | thenWord | elseifWord | elseWord | whenWord => rfl
    | endWord =>
      cases hFilled : isFilled ls ⟨start, i⟩ with
      | false =>
        simp [walkMarks, readFallback, WalkState.step, requireWalk, require_of_unfilled hFilled,
          walkedAs, bind, Except.bind]
      | true =>
        simp [walkMarks, readFallback, WalkState.step, requireWalk, require_of_filled hFilled,
          walkedAs, bind, Except.bind, pure, Except.pure]

/-- Where a condition begins the walk reads the branches that the outline has. -/
theorem walkMarks_clauses (ls : List Lexeme) (form : Form) (failure : BlockError)
    (subject : Option Span) :
    ∀ (marks : List Mark) (pending : Option Span) (branches : List Branch) (start : Nat),
      walkMarks ls form failure ⟨.condition, subject, pending, branches, start⟩ marks =
        walkedAs (fun (c, stop) => ⟨subject, branches ++ c.branches, c.otherwise, stop⟩)
          (readClauses ls form failure start marks)
  | [], _, _, _ => rfl
  | ⟨k, i⟩ :: marks, pending, branches, start => by
    rw [walkMarks, readClauses.eq_def, WalkState.step]
    cases k with
    | elseifWord | elseWord | whenWord | endWord => rfl
    | thenWord =>
    cases hCondition : isFilled ls ⟨start, i⟩ with
    | false =>
      simp [requireWalk, require_of_unfilled hCondition, walkedAs, bind, Except.bind]
    | true =>
    simp only [requireWalk, require_of_filled hCondition, walkedAs]
    -- The outline reads `THEN` and the keyword that ends the value together; the walk takes two steps.
    match marks with
    | [] => rfl
    | ⟨n, j⟩ :: marks =>
      have hMore := walkMarks_clauses ls form failure subject marks none
        (branches ++ [⟨⟨start, i⟩, ⟨i + 1, j⟩⟩]) (j + 1)
      have hLast := walkMarks_fallback ls form failure subject none
        (branches ++ [⟨⟨start, i⟩, ⟨i + 1, j⟩⟩]) (j + 1) marks
      cases hValue : isFilled ls ⟨i + 1, j⟩ with
      | false =>
        cases form <;> cases n <;>
          simp [Form.again, walkMarks, WalkState.step, requireWalk, require_of_unfilled hValue,
            walkedAs, bind, Except.bind, pure, Except.pure]
      | true =>
        cases form <;> cases n
        case ifForm.elseifWord | caseForm.whenWord =>
          simp [Form.again, walkMarks, WalkState.step, requireWalk, require_of_filled hValue, hMore,
            walkedAs, bind, Except.bind, pure, Except.pure]
          cases readClauses ls _ failure (j + 1) marks <;> simp [Clauses.branches]
        case ifForm.elseWord | caseForm.elseWord =>
          simp [Form.again, walkMarks, WalkState.step, requireWalk, require_of_filled hValue, hLast,
            walkedAs, bind, Except.bind, pure, Except.pure]
          cases readFallback ls _ failure (j + 1) marks <;> simp [Clauses.branches]
        case ifForm.endWord | caseForm.endWord =>
          simp [Form.again, walkMarks, WalkState.step, requireWalk, require_of_filled hValue,
            Clauses.branches, walkedAs, bind, Except.bind, pure, Except.pure]
        all_goals rfl

theorem walkIf_eq (ls : List Lexeme) (start : Nat) :
    walkIf ls start = walkedAs Conditional.walked (parseIf ls start) := by
  rw [walkIf, walkFrom_eq, walkMarks_clauses, parseIf, outline]
  cases readClauses ls .ifForm _ (start + 1) _ <;> rfl

theorem walkCase_eq (ls : List Lexeme) (start : Nat) :
    walkCase ls start = walkedAs Conditional.walked (parseCase ls start) := by
  rw [walkCase, walkFrom_eq, parseCase, outline]
  cases (outlineFrom 0 0 (start + 1) (ls.drop (start + 1))).marks with
  | nil => rfl
  | cons m marks =>
    obtain ⟨k, i⟩ := m
    cases k with
    | thenWord | elseifWord | elseWord | endWord => rfl
    | whenWord =>
      cases hSubject : isFilled ls ⟨start + 1, i⟩ with
      | false =>
        simp [walkMarks, WalkState.step, requireWalk, require_of_unfilled hSubject, walkedAs, bind,
          Except.bind]
      | true =>
        simp [walkMarks, WalkState.step, requireWalk, require_of_filled hSubject, walkMarks_clauses,
          walkedAs, bind, Except.bind, pure, Except.pure]
        cases readClauses ls .caseForm _ (i + 1) marks <;> rfl

/-! ## Guards -/

def reasonInitials : List (Option Char) :=
  [some 'U', some 'E', some 'L', some 'M', some 'B']

theorem head_append {front : String} {c : Char} (h : front.toList.head? = some c) (rest : String) :
    (front ++ rest).toList.head? = some c := by
  rw [String.toList_append, List.head?_append, h, Option.some_or]

theorem initial_reason (e : BlockError) : e.reason.toList.head? ∈ reasonInitials := by
  cases e with
  | unclosedLod | emptyLod | lodWithoutExpression | unbalanced | withoutEnd => decide
  | missing part =>
    have hText : (BlockError.missing part).reason = "Missing " ++ part.name := rfl
    rw [hText, head_append (c := 'M') (by decide)]
    decide
  | unexpected keyword position form =>
    have hText : (BlockError.unexpected keyword position form).reason =
        "Unexpected " ++ keyword.spelling ++ " at position " ++ toString position ++ " in " ++
          form.name ++ " block" := rfl
    have hHead : (BlockError.unexpected keyword position form).reason.toList.head? = some 'U' := by
      rw [hText]
      iterate 6 refine head_append ?_ _
      decide
    rw [hHead]
    decide
  | notName found =>
    have hText : (BlockError.notName found).reason =
        "Expected function name, found " ++
          (found.map (String.ofList ·.describe)).getD "EOF" := rfl
    rw [hText, head_append (c := 'E') (by decide)]
    decide
  | withoutParen name =>
    have hText : (BlockError.withoutParen name).reason =
        "Expected '(' after " ++ String.ofList name := rfl
    rw [hText, head_append (c := 'E') (by decide)]
    decide
  | unclosedCall name =>
    have hText : (BlockError.unclosedCall name).reason =
        "Unclosed call to " ++ String.ofList name := rfl
    rw [hText, head_append (c := 'U') (by decide)]
    decide

/-- No reason of recognition reads like one of a guard. -/
theorem reason_not_guard (e : BlockError) : e.reason ∉ guardReasons := by
  have hGuards : ∀ reason ∈ guardReasons, reason.toList.head? ∉ reasonInitials := by decide
  exact fun hGuard => hGuards _ hGuard (initial_reason e)

theorem reason_of_walkedAs {α β : Type} {f : α → β} {x : Except BlockError α} {e : WalkError}
    (h : walkedAs f x = .error e) : e.reason ∉ guardReasons := by
  cases x with
  | ok a => cases h
  | error e =>
    cases h
    exact reason_not_guard e

/-! ## Exactness -/

/-- What is recognized exactly where a form has it is recognized where the form has just one. -/
theorem recognized_iff_unique {α ε : Type} {x : Except ε α} {form : α → Prop}
    (h : ∀ c, x = .ok c ↔ form c) : (∃ c, x = .ok c) ↔ ∃! c, form c := by
  constructor
  · rintro ⟨c, hc⟩
    refine ⟨c, (h c).1 hc, fun c' hc' => ?_⟩
    have hSame := ((h c').2 hc').symm.trans hc
    exact Except.ok.inj hSame
  · rintro ⟨c, hc, -⟩
    exact ⟨c, (h c).2 hc⟩

/-- A conditional is recognized after `IF` or `CASE` if and only if the lexemes there have the form,
which they then have in one way only, with the parts that are found; and the walk fails in no other
way than the recognition does, so it never reports a guard. -/
theorem conditionals_exact (ls : List Lexeme) (start : Nat) :
    ((∀ c, parseIf ls start = .ok c ↔ IfAt ls start c) ∧
      ((∃ c, parseIf ls start = .ok c) ↔ ∃! c, IfAt ls start c)) ∧
    ((∀ c, parseCase ls start = .ok c ↔ CaseAt ls start c) ∧
      ((∃ c, parseCase ls start = .ok c) ↔ ∃! c, CaseAt ls start c)) ∧
    (∀ e, parseIf ls start = .error e ∨ parseCase ls start = .error e → e.reason ∉ guardReasons) ∧
    walkIf ls start = walkedAs Conditional.walked (parseIf ls start) ∧
    walkCase ls start = walkedAs Conditional.walked (parseCase ls start) ∧
    ∀ e, walkIf ls start = .error e ∨ walkCase ls start = .error e → e.reason ∉ guardReasons := by
  have hIf : ∀ c, parseIf ls start = .ok c ↔ IfAt ls start c := fun _ => parseIf_eq_ok_iff
  have hCase : ∀ c, parseCase ls start = .ok c ↔ CaseAt ls start c := fun _ => parseCase_eq_ok_iff
  refine ⟨⟨hIf, recognized_iff_unique hIf⟩, ⟨hCase, recognized_iff_unique hCase⟩,
    fun e _ => reason_not_guard e, walkIf_eq ls start, walkCase_eq ls start, ?_⟩
  rintro e (h | h)
  · rw [walkIf_eq] at h
    exact reason_of_walkedAs h
  · rw [walkCase_eq] at h
    exact reason_of_walkedAs h

/-! ## First words without an end -/

/-- As `Paired`, but a first word may also stand without its `END`. -/
inductive LooselyPaired : (inside : Bool) → List BlockWord → Prop
  | nil (inside : Bool) : LooselyPaired inside []
  | word {k : Keyword} {rest : List BlockWord} (hWord : k ≠ .endWord)
      (hRest : LooselyPaired true rest) : LooselyPaired true (.keyword k :: rest)
  | pair {inside : Bool} {inner rest : List BlockWord} (hInner : LooselyPaired true inner)
      (hRest : LooselyPaired inside rest) :
      LooselyPaired inside (.begins :: (inner ++ .keyword .endWord :: rest))
  | lone {inside : Bool} {rest : List BlockWord} (hRest : LooselyPaired inside rest) :
      LooselyPaired inside (.begins :: rest)

/-- As `IsSegment`, with keywords only in conditionals within the run, but first words anywhere. -/
structure IsLooseSegment (ls : List Lexeme) : Prop where
  filled : ∃ l ∈ ls, l.isComment = false
  balanced : Balanced ls
  paired : LooselyPaired false (outerWords 0 (ls.map Lexeme.token))

structure LooselyIfAt (ls : List Lexeme) (start middle stop : Nat) : Prop where
  condition : IsLooseSegment ((Span.mk (start + 1) middle).slice ls)
  thenWord : KeywordAt ls middle .thenWord
  value : IsLooseSegment ((Span.mk (middle + 1) stop).slice ls)
  endWord : KeywordAt ls stop .endWord

theorem LooselyPaired.isLooseSegment {words : List BlockWord} (h : LooselyPaired false words)
    {row : List Lexeme} (hRow : row.any (!·.isComment) = true ∧ Balanced row ∧
      outerWords 0 (row.map Lexeme.token) = words) : IsLooseSegment row where
  filled := by simpa using hRow.1
  balanced := hRow.2.1
  paired := hRow.2.2 ▸ h

/-- With such segments the form does not tell what is recognized: there may be no conditional although
the lexemes have the form, and they may have it in two ways. -/
theorem unrecognized_lone_if :
    (LooselyIfAt (tokenize "IF IF THEN 1 END".toList) 0 2 4 ∧
      parseIf (tokenize "IF IF THEN 1 END".toList) 0 = .error .withoutEnd) ∧
    (LooselyIfAt (tokenize "IF IF THEN 1 END THEN 2 END".toList) 0 2 4 ∧
      LooselyIfAt (tokenize "IF IF THEN 1 END THEN 2 END".toList) 0 5 7) := by
  have hNone : LooselyPaired false [] := .nil false
  have hLone : LooselyPaired false [.begins] := .lone hNone
  have hPair : LooselyPaired false [.begins, .keyword .thenWord, .keyword .endWord] :=
    @LooselyPaired.pair false [.keyword .thenWord] [] (.word (by decide) (.nil true)) hNone
  refine ⟨⟨?_, by decide +kernel⟩, ?_, ?_⟩
  · exact ⟨hLone.isLooseSegment (by decide +kernel), by decide +kernel,
      hNone.isLooseSegment (by decide +kernel), by decide +kernel⟩
  · exact ⟨hLone.isLooseSegment (by decide +kernel), by decide +kernel,
      hNone.isLooseSegment (by decide +kernel), by decide +kernel⟩
  · exact ⟨hPair.isLooseSegment (by decide +kernel), by decide +kernel,
      hNone.isLooseSegment (by decide +kernel), by decide +kernel⟩

end DaxMigration.Formula
