import DaxMigration.Dax.Conversion
import DaxMigration.Proofs.Dax.Calls
import DaxMigration.Proofs.Dax.Splicing
import DaxMigration.Proofs.Formula.Decision

/-!
# Decisions as calls

The calls of `IF` and `SWITCH` that a decision becomes. They select the leaf that the decision
selects, a conditional is converted to their text, and reading that text back by its lexemes finds
the same calls around the converted leaves.
-/

namespace DaxMigration.Dax

open Formula Text

inductive CallTree (α : Type) where
  | leaf (a : α)
  | call (form : Form) (first : CallTree α) (rest : List (CallTree α))

def functionOf : Form → String
  | .ifForm => "IF"
  | .caseForm => "SWITCH"

variable {α : Type}

/-! ## Selection -/

def chooseIf (holds : Option α → Bool) : List (Option α) → Option α
  | [condition, value] => if holds condition then value else none
  | [condition, value, fallback] => if holds condition then value else fallback
  | _ => none

def chooseArm (test : Option α → Bool) : List (Option α) → Option α
  | condition :: value :: rest => if test condition then value else chooseArm test rest
  | [fallback] => fallback
  | [] => none

namespace CallTree

mutual

def select (holds : Option α → Bool) (same : Option α → Option α → Bool) : CallTree α → Option α
  | leaf a => some a
  | call .ifForm first rest =>
    chooseIf holds (first.select holds same :: selectAll holds same rest)
  | call .caseForm first rest =>
    chooseArm (same (first.select holds same)) (selectAll holds same rest)

def selectAll (holds : Option α → Bool) (same : Option α → Option α → Bool) :
    List (CallTree α) → List (Option α)
  | [] => []
  | t :: rest => t.select holds same :: selectAll holds same rest

end

mutual

def leaves : CallTree α → List α
  | leaf a => [a]
  | call _ first rest => first.leaves ++ leavesAll rest

def leavesAll : List (CallTree α) → List α
  | [] => []
  | t :: rest => t.leaves ++ leavesAll rest

end

mutual

def text (leafText : α → List Char) : CallTree α → List Char
  | leaf a => leafText a
  | call form first rest =>
    callText (functionOf form) (first.text leafText :: textAll leafText rest)

def textAll (leafText : α → List Char) : List (CallTree α) → List (List Char)
  | [] => []
  | t :: rest => t.text leafText :: textAll leafText rest

end

mutual

/-- Lexemes that are read as the calls: a call spans them, and its arguments are read in turn, down
to the texts of the leaves. -/
def Decodes (leafText : α → List Char) : CallTree α → List Lexeme → Prop
  | leaf a, ls => render ls = leafText a
  | call form first rest, ls =>
    ∃ c row rows, parseCall ls 0 = .ok c ∧ c.span = ⟨0, ls.length⟩ ∧
      c.name = (functionOf form).toList ∧ c.args.map (·.slice ls) = row :: rows ∧
      first.Decodes leafText row ∧ DecodesAll leafText rest rows

def DecodesAll (leafText : α → List Char) : List (CallTree α) → List (List Lexeme) → Prop
  | [], rows => rows = []
  | t :: rest, rows =>
    ∃ row others, rows = row :: others ∧ t.Decodes leafText row ∧ DecodesAll leafText rest others

end

end CallTree

mutual

def compile : Decision α → CallTree α
  | .leaf a => .leaf a
  | .ifBlock branches => nested branches
  | .caseBlock subject arms => .call .caseForm (compile subject) (arguments arms)

def nested : Branches α → CallTree α
  | .last condition value => .call .ifForm (compile condition) [compile value]
  | .otherwise condition value fallback =>
    .call .ifForm (compile condition) [compile value, compile fallback]
  | .more condition value rest => .call .ifForm (compile condition) [compile value, nested rest]

def arguments : Branches α → List (CallTree α)
  | .last condition value => [compile condition, compile value]
  | .otherwise condition value fallback => [compile condition, compile value, compile fallback]
  | .more condition value rest => compile condition :: compile value :: arguments rest

end

mutual

/-- The calls select what the decision selects. -/
theorem select_compile (holds : Option α → Bool) (same : Option α → Option α → Bool) :
    ∀ d : Decision α, (compile d).select holds same = d.select holds same
  | .leaf a => rfl
  | .ifBlock branches => select_nested holds same branches
  | .caseBlock subject arms => by
    rw [compile, CallTree.select, Decision.select, select_compile holds same subject,
      select_arguments holds same _ arms]

theorem select_nested (holds : Option α → Bool) (same : Option α → Option α → Bool) :
    ∀ bs : Branches α, (nested bs).select holds same = bs.select holds same holds
  | .last condition value => by
    simp only [nested, CallTree.select, CallTree.selectAll, chooseIf, Branches.select,
      select_compile holds same condition, select_compile holds same value]
  | .otherwise condition value fallback => by
    simp only [nested, CallTree.select, CallTree.selectAll, chooseIf, Branches.select,
      select_compile holds same condition, select_compile holds same value,
      select_compile holds same fallback]
  | .more condition value rest => by
    simp only [nested, CallTree.select, CallTree.selectAll, chooseIf, Branches.select,
      select_compile holds same condition, select_compile holds same value,
      select_nested holds same rest]

theorem select_arguments (holds : Option α → Bool) (same : Option α → Option α → Bool)
    (test : Option α → Bool) : ∀ bs : Branches α,
      chooseArm test (CallTree.selectAll holds same (arguments bs)) = bs.select holds same test
  | .last condition value => by
    simp only [arguments, CallTree.selectAll, chooseArm, Branches.select,
      select_compile holds same condition, select_compile holds same value]
  | .otherwise condition value fallback => by
    simp only [arguments, CallTree.selectAll, chooseArm, Branches.select,
      select_compile holds same condition, select_compile holds same value,
      select_compile holds same fallback]
  | .more condition value rest => by
    simp only [arguments, CallTree.selectAll, chooseArm, Branches.select,
      select_compile holds same condition, select_compile holds same value,
      select_arguments holds same test rest]

end

mutual

/-- The leaves stay, in their order. -/
theorem leaves_compile : ∀ d : Decision α, (compile d).leaves = d.leaves
  | .leaf a => rfl
  | .ifBlock branches => leaves_nested branches
  | .caseBlock subject arms => by
    rw [compile, CallTree.leaves, leaves_compile subject, leaves_arguments arms, Decision.leaves]

theorem leaves_nested : ∀ bs : Branches α, (nested bs).leaves = bs.leaves
  | .last condition value => by
    simp [nested, CallTree.leaves, CallTree.leavesAll, Branches.leaves, leaves_compile condition,
      leaves_compile value]
  | .otherwise condition value fallback => by
    simp [nested, CallTree.leaves, CallTree.leavesAll, Branches.leaves, leaves_compile condition,
      leaves_compile value, leaves_compile fallback]
  | .more condition value rest => by
    simp [nested, CallTree.leaves, CallTree.leavesAll, Branches.leaves, leaves_compile condition,
      leaves_compile value, leaves_nested rest]

theorem leaves_arguments : ∀ bs : Branches α, CallTree.leavesAll (arguments bs) = bs.leaves
  | .last condition value => by
    simp [arguments, CallTree.leavesAll, Branches.leaves, leaves_compile condition,
      leaves_compile value]
  | .otherwise condition value fallback => by
    simp [arguments, CallTree.leavesAll, Branches.leaves, leaves_compile condition,
      leaves_compile value, leaves_compile fallback]
  | .more condition value rest => by
    simp [arguments, CallTree.leavesAll, Branches.leaves, leaves_compile condition,
      leaves_compile value, leaves_arguments rest]

end

/-! ## Reading the text back -/

theorem isFunctionName_functionOf (form : Form) : IsFunctionName (functionOf form) := by
  cases form with
  | ifForm => exact ⟨by decide, by decide +kernel⟩
  | caseForm => exact ⟨by decide, by decide +kernel⟩

namespace CallTree

variable {leafText : α → List Char}

mutual

theorem isArgumentText_text : ∀ t : CallTree α,
    (∀ a ∈ t.leaves, IsArgumentText (leafText a)) → IsArgumentText (t.text leafText)
  | leaf a, h => h a (by simp [leaves])
  | call form first rest, h => by
    simp only [leaves, List.mem_append] at h
    refine isArgumentText_callText (isFunctionName_functionOf form) ?_
    intro u hu
    rcases List.mem_cons.1 hu with rfl | hu
    · exact .inr (isArgumentText_text first fun a ha => h a (.inl ha)).even
    · exact .inr (isArgumentText_textAll rest (fun a ha => h a (.inr ha)) u hu).even

theorem isArgumentText_textAll : ∀ ts : List (CallTree α),
    (∀ a ∈ leavesAll ts, IsArgumentText (leafText a)) →
      ∀ u ∈ textAll leafText ts, IsArgumentText u
  | [], _ => by simp [textAll]
  | t :: rest, h => by
    simp only [leavesAll, List.mem_append] at h
    intro u hu
    rcases List.mem_cons.1 hu with rfl | hu
    · exact isArgumentText_text t fun a ha => h a (.inl ha)
    · exact isArgumentText_textAll rest (fun a ha => h a (.inr ha)) u hu

end

mutual

/-- The text of the calls is read as the calls, with any white space in front. -/
theorem decodes_text : ∀ t : CallTree α, (∀ a ∈ t.leaves, IsArgumentText (leafText a)) →
    ∀ w, t.Decodes leafText (indent w (tokenize (t.text leafText)))
  | leaf a, h, w => by
    rw [Decodes, render_indent]
    exact render_tokenize (h a (by simp [leaves])).settled
  | call form first rest, h, w => by
    simp only [leaves, List.mem_append] at h
    have hFirstText := isArgumentText_text first fun a ha => h a (.inl ha)
    have hTexts : ∀ u ∈ first.text leafText :: textAll leafText rest, u = [] ∨ IsArgumentText u := by
      intro u hu
      rcases List.mem_cons.1 hu with rfl | hu
      · exact .inr hFirstText
      · exact .inr (isArgumentText_textAll rest (fun a ha => h a (.inr ha)) u hu)
    obtain ⟨args, hParse, hRows⟩ := parseCall_callText (isFunctionName_functionOf form)
      ⟨_, List.mem_cons_self, hFirstText.settled.filled⟩ hTexts w
    refine ⟨_, _, _, hParse, rfl, rfl, hRows, ?_, ?_⟩
    · have hFirst := decodes_text first (fun a ha => h a (.inl ha)) []
      rwa [indent_nil] at hFirst
    · exact decodesAll_text rest fun a ha => h a (.inr ha)

theorem decodesAll_text : ∀ ts : List (CallTree α),
    (∀ a ∈ leavesAll ts, IsArgumentText (leafText a)) →
      DecodesAll leafText ts ((textAll leafText ts).map fun u => indent [' '] (tokenize u))
  | [], _ => rfl
  | t :: rest, h => by
    simp only [leavesAll, List.mem_append] at h
    exact ⟨_, _, rfl, decodes_text t (fun a ha => h a (.inl ha)) [' '],
      decodesAll_text rest fun a ha => h a (.inr ha)⟩

end

end CallTree

/-! ## Converting a decision -/

/-- A leaf is converted to an argument. -/
theorem isArgumentText_qualified (t : Target) {ls : List Lexeme} (h : IsLeaf ls)
    (hRead : IsRead ls) : IsArgumentText (qualified t ls) := by
  have hRow := hRead.isRow h.terminated h.uncommented
  have hSpelled : ∀ l ∈ ls, Spelled l :=
    fun l hl => hRead.spelled l hl (h.terminated l hl) (h.uncommented l hl)
  obtain ⟨hSettled, hDelimiters⟩ := qualified_spec t hRow hSpelled h.filled
  refine ⟨hSettled, ?_, ?_⟩
  · rw [hDelimiters, hRead.delimiters hSpelled, level_filter]
    exact h.balanced
  · have hCommas : separators (· == .comma) 0 (ls.map Lexeme.token) = 0 := by
      have hUnparted := h.unparted
      rw [topLevel, Span.slice, List.take_length, List.drop_zero, ← List.length_eq_zero_iff,
        length_topLevelFrom] at hUnparted
      exact hUnparted
    rw [hDelimiters, hRead.delimiters hSpelled, separators_filter, hCommas]
    intro t ht
    rw [eq_of_beq ht]
    rfl

/-- Spelling and qualification leave a converted text as it is. -/
theorem qualified_verbatim (t : Target) {text : List Char} (h : Settled text) (leading : List Char) :
    qualified t [Lexeme.verbatim text leading] = text := by
  have hRender : render [Lexeme.verbatim text leading] = trim text := by
    simp [render, Lexeme.verbatim]
  exact hRender.trans h.trim_eq

section Splicing

variable {row : α → List Lexeme} {t : Target} {ls : List Lexeme}
  {branch : Span → Splicing (List Char)}

/-- The parts of a conditional are converted to the texts of what they are written with. -/
def Converts (row : α → List Lexeme) (t : Target) (ls : List Lexeme)
    (branch : Span → Splicing (List Char)) (d : Decision α) : Prop :=
  ∀ s : Span, d.Written row (s.slice ls) →
    Returns (branch s) ((compile d).text fun a => qualified t (row a))

def parts : Branches α → List (Decision α)
  | .last condition value => [condition, value]
  | .otherwise condition value fallback => [condition, value, fallback]
  | .more condition value rest => condition :: value :: parts rest

theorem nestBranches_append (acc : Option (List Char)) (first second : List Branch) :
    nestBranches branch acc (first ++ second) =
      nestBranches branch acc first >>= fun after => nestBranches branch after second := by
  induction first generalizing acc with
  | nil => simp [nestBranches]
  | cons b first ih => simp [nestBranches, ih]

theorem returns_nestBranches_singleton {b : Branch} {condition value : List Char}
    (hCondition : Returns (branch b.condition) condition) (hValue : Returns (branch b.value) value)
    (acc : Option (List Char)) :
    Returns (nestBranches branch acc [b])
      (some (callText "IF" ([condition, value] ++ acc.toList))) :=
  hCondition.bind (hValue.bind (returns_pure _))

/-- The branches, last first, become one call of `IF` around the fallback. -/
theorem returns_nestBranches : ∀ (bs : Branches α) {c : Clauses}, bs.Located row ls c →
    (∀ d ∈ parts bs, Converts row t ls branch d) →
      ∃ otherwise, Returns (optionalBranch branch c.otherwise) otherwise ∧
        Returns (nestBranches branch otherwise c.branches.reverse)
          (some ((nested bs).text fun a => qualified t (row a)))
  | .last condition value, ⟨first, others, last⟩, hLocated, h => by
    obtain ⟨hCondition, hValue, rfl, rfl⟩ := hLocated
    refine ⟨none, returns_pure none, ?_⟩
    exact returns_nestBranches_singleton (h condition (by simp [parts]) _ hCondition)
      (h value (by simp [parts]) _ hValue) none
  | .otherwise condition value fallback, ⟨first, others, last⟩, hLocated, h => by
    obtain ⟨hCondition, hValue, rfl, s, rfl, hFallback⟩ := hLocated
    refine ⟨some _, (h fallback (by simp [parts]) _ hFallback).map some, ?_⟩
    exact returns_nestBranches_singleton (h condition (by simp [parts]) _ hCondition)
      (h value (by simp [parts]) _ hValue) (some _)
  | .more condition value rest, ⟨first, others, last⟩, hLocated, h => by
    obtain ⟨hCondition, hValue, after, rfl, rfl, hRest⟩ := hLocated
    obtain ⟨otherwise, hOtherwise, hNested⟩ :=
      returns_nestBranches rest hRest fun d hd => h d (by simp [parts, hd])
    refine ⟨otherwise, hOtherwise, ?_⟩
    have hReverse : (Clauses.mk first after.branches after.otherwise).branches.reverse =
        after.branches.reverse ++ [first] := List.reverse_cons
    rw [hReverse, nestBranches_append]
    exact hNested.bind (returns_nestBranches_singleton
      (h condition (by simp [parts]) _ hCondition) (h value (by simp [parts]) _ hValue) (some _))

/-- The arms, in order, and the fallback become the arguments of `SWITCH` after the subject. -/
theorem returns_armArguments : ∀ (bs : Branches α) {c : Clauses}, bs.Located row ls c →
    (∀ d ∈ parts bs, Converts row t ls branch d) →
      ∃ arms otherwise, Returns (armArguments branch c.branches) arms ∧
        Returns (optionalBranch branch c.otherwise) otherwise ∧
        arms ++ otherwise.toList =
          CallTree.textAll (fun a => qualified t (row a)) (arguments bs)
  | .last condition value, ⟨first, others, last⟩, hLocated, h => by
    obtain ⟨hCondition, hValue, rfl, rfl⟩ := hLocated
    exact ⟨_, none, (h condition (by simp [parts]) _ hCondition).bind
      ((h value (by simp [parts]) _ hValue).bind (returns_pure _)), returns_pure none, rfl⟩
  | .otherwise condition value fallback, ⟨first, others, last⟩, hLocated, h => by
    obtain ⟨hCondition, hValue, rfl, s, rfl, hFallback⟩ := hLocated
    exact ⟨_, some _, (h condition (by simp [parts]) _ hCondition).bind
      ((h value (by simp [parts]) _ hValue).bind (returns_pure _)),
      (h fallback (by simp [parts]) _ hFallback).map some, rfl⟩
  | .more condition value rest, ⟨first, others, last⟩, hLocated, h => by
    obtain ⟨hCondition, hValue, after, rfl, rfl, hRest⟩ := hLocated
    obtain ⟨arms, otherwise, hArms, hOtherwise, hTexts⟩ :=
      returns_armArguments rest hRest fun d hd => h d (by simp [parts, hd])
    refine ⟨_, otherwise, (h condition (by simp [parts]) _ hCondition).bind
      ((h value (by simp [parts]) _ hValue).bind (hArms.bind (returns_pure _))), hOtherwise, ?_⟩
    rw [arguments, CallTree.textAll, CallTree.textAll, ← hTexts]
    rfl

def partsOf : Decision α → List (Decision α)
  | .leaf _ => []
  | .ifBlock branches => parts branches
  | .caseBlock subject arms => subject :: parts arms

theorem returns_remarked {β : Type} (condition : Bool) (r : Remark) (b : β) :
    Returns (if condition then do remark r; pure b else pure b) b := by
  cases condition with
  | false => exact returns_pure b
  | true => exact (returns_remark r).bind (returns_pure b)

/-- A conditional whose parts are converted becomes its calls. -/
theorem returns_convertConditional {d : Decision α} {c : Conditional} (hParsed : Parsed row ls d c)
    (h : ∀ part ∈ partsOf d, Converts row t ls branch part) :
    Returns (convertConditional branch c) ((compile d).text fun a => qualified t (row a)) := by
  cases hParsed with
  | @ifBlock branches c hBranches =>
    obtain ⟨otherwise, hOtherwise, hNested⟩ := returns_nestBranches branches hBranches h
    exact hOtherwise.bind (hNested.bind (returns_remarked _ _ _))
  | @caseBlock subject arms s c hSubject hArms =>
    obtain ⟨texts, otherwise, hTexts, hOtherwise, hAll⟩ :=
      returns_armArguments arms hArms fun d hd => h d (by simp [partsOf, hd])
    have hHead := h subject (by simp [partsOf]) s hSubject
    rw [compile, CallTree.text, ← hAll]
    exact hHead.bind (hTexts.bind (hOtherwise.bind (returns_remarked _ _ _)))

theorem depth_le_of_mem_parts {bs : Branches α} {d : Decision α} (h : d ∈ parts bs) :
    d.depth ≤ bs.depth := by
  fun_induction parts bs <;> simp only [List.mem_cons, List.not_mem_nil, or_false] at h <;>
    simp only [Branches.depth]
  case case1 => rcases h with rfl | rfl <;> omega
  case case2 => rcases h with rfl | rfl | rfl <;> omega
  case case3 condition value rest ih =>
    rcases h with rfl | rfl | h
    · omega
    · omega
    · have := ih h
      omega

theorem leaves_of_mem_parts {bs : Branches α} {d : Decision α} (h : d ∈ parts bs) {a : α}
    (ha : a ∈ d.leaves) : a ∈ bs.leaves := by
  fun_induction parts bs <;> simp only [List.mem_cons, List.not_mem_nil, or_false] at h <;>
    simp only [Branches.leaves, List.mem_append]
  case case1 => rcases h with rfl | rfl <;> simp [ha]
  case case2 => rcases h with rfl | rfl | rfl <;> simp [ha]
  case case3 condition value rest ih =>
    rcases h with rfl | rfl | h
    · simp [ha]
    · simp [ha]
    · simp [ih h]

theorem depth_lt_of_mem_partsOf {d part : Decision α} (h : part ∈ partsOf d) :
    part.depth < d.depth := by
  cases d with
  | leaf a => simp [partsOf] at h
  | ifBlock branches => exact Nat.lt_succ_of_le (depth_le_of_mem_parts h)
  | caseBlock subject arms =>
    simp only [Decision.depth]
    rcases List.mem_cons.1 h with rfl | h
    · omega
    · have := depth_le_of_mem_parts h
      omega

theorem leaves_of_mem_partsOf {d part : Decision α} (h : part ∈ partsOf d) {a : α}
    (ha : a ∈ part.leaves) : a ∈ d.leaves := by
  cases d with
  | leaf a => simp [partsOf] at h
  | ifBlock branches => exact leaves_of_mem_parts h ha
  | caseBlock subject arms =>
    simp only [Decision.leaves, List.mem_append]
    rcases List.mem_cons.1 h with rfl | h
    · exact .inl ha
    · exact .inr (leaves_of_mem_parts h ha)

/-- A decision in a text, with all levels of it to be entered, is converted to its calls. -/
theorem returns_spliceConditionals {room : Nat} {d : Decision α} {ls : List Lexeme}
    (h : d.Written row ls) (hLeaves : ∀ a ∈ d.leaves, IsLeaf (row a) ∧ IsRead (row a))
    (hDepth : d.depth < room) :
    Returns (do return qualified t (← spliceConditionals t room ls))
      ((compile d).text fun a => qualified t (row a)) := by
  induction room generalizing d ls with
  | zero => cases hDepth
  | succ room ih =>
    have hText : IsArgumentText ((compile d).text fun a => qualified t (row a)) := by
      refine CallTree.isArgumentText_text _ fun a ha => ?_
      rw [leaves_compile] at ha
      exact isArgumentText_qualified t (hLeaves a ha).1 (hLeaves a ha).2
    cases hForm : d.form? with
    | none =>
      cases h with
      | leaf a =>
        have hNone := (hLeaves a (by simp [Decision.leaves])).1.conditionals
        have hSplice : Returns (spliceConditionals t (room + 1) (row a)) (row a) := by
          rw [spliceConditionals, hNone]
          exact returns_pure _
        exact hSplice.bind (returns_pure _)
      | ifBlock => cases hForm
      | caseBlock => cases hForm
    | some form =>
      obtain ⟨c, hConditionals, _, hParsed⟩ :=
        conditionals_of_written h hForm fun a ha => (hLeaves a ha).1
      have hSpan : c.span = ⟨0, ls.length⟩ := by cases hParsed <;> rfl
      have hParts : ∀ part ∈ partsOf d, Converts row t ls
          (fun s => do return qualified t (← spliceConditionals t room (s.slice ls))) part := by
        intro part hPart s hWritten
        have hLess := depth_lt_of_mem_partsOf hPart
        exact ih hWritten (fun a ha => hLeaves a (leaves_of_mem_partsOf hPart ha)) (by omega)
      have hConvert := returns_convertConditional hParsed hParts
      have hSplice : Returns (spliceConditionals t (room + 1) ls)
          [Lexeme.verbatim ((compile d).text fun a => qualified t (row a))
            ((ls[0]?.map Lexeme.leading).getD [])] := by
        rw [spliceConditionals, hConditionals, ← replaceSpans_whole hSpan]
        refine Returns.bind (returns_mapM_singleton ?_) (returns_pure _)
        exact hConvert.bind (returns_pure _)
      have hQualified := qualified_verbatim t hText.settled ((ls[0]?.map Lexeme.leading).getD [])
      rw [← hQualified]
      exact hSplice.bind (returns_pure _)

end Splicing

/-! ## Whole formulas -/

/-- A formula that is a conditional over leaves, nested less deep than is entered at most, becomes
the calls of its decision over the converted leaves: its text is read as these calls, and whatever
the leaves mean, the calls select the leaf that the formula selects. -/
theorem attempt_of_decision {α : Type} {row : α → List Lexeme} {d : Decision α} {form : Form}
    (hForm : d.form? = some form) (hLeaves : ∀ a ∈ d.leaves, IsLeaf (row a))
    (hDepth : d.depth < maxNesting) {formula : List Char} (hWritten : d.Written row (tokenize formula))
    (t : Target) :
    ∃ dax remarks,
      attempt t formula =
        .converted (.conditional form) (facts (tokenize formula)) dax remarks ∧
      (compile d).Decodes (fun a => qualified t (row a)) (tokenize dax) ∧
      (compile d).leaves = d.leaves ∧
      ∀ holds same, (compile d).select holds same = d.select holds same := by
  have hRead := hWritten.isRead (isRead_tokenize formula)
  have hFilled : tokenize formula ≠ [] := by
    obtain ⟨l, hl, _⟩ := hWritten.filled hLeaves
    exact List.ne_nil_of_mem hl
  have hLod : lodBlocks (tokenize formula) = [] :=
    noLod_iff_lodBlocks.1 (hWritten.sealed hLeaves 0).noLod
  obtain ⟨c, hConditionals, hSame, _⟩ := conditionals_of_written hWritten hForm hLeaves
  have hKind : classify (tokenize formula) = .conditional form := by
    simp [classify, hLod, hConditionals, hSame]
  obtain ⟨remarks, hRun⟩ := returns_spliceConditionals (t := t) hWritten
    (fun a ha => ⟨hLeaves a ha, hRead a ha⟩) hDepth []
  have hAttempt : attempt t formula = .converted (.conditional form) (facts (tokenize formula))
      ((compile d).text fun a => qualified t (row a)) remarks := by
    rw [attempt, allBlank_of_tokenize hFilled, if_neg (by simp)]
    simp only [hKind, daxText, hRun]
  refine ⟨_, remarks, hAttempt, ?_, leaves_compile d,
    fun holds same => select_compile holds same d⟩
  have hDecodes := @CallTree.decodes_text α (fun a => qualified t (row a)) (compile d)
    (fun a ha => by
      rw [leaves_compile] at ha
      exact isArgumentText_qualified t (hLeaves a ha) (hRead a ha)) []
  rwa [indent_nil] at hDecodes

def gradeFormula : List Char :=
  "IF [a] > 1 THEN CASE [b] WHEN 1 THEN 'x' ELSE [c] END ELSEIF [d] THEN 2 END".toList

def gradeDecision : Decision Span :=
  .ifBlock (.more (.leaf ⟨1, 4⟩)
    (.caseBlock (.leaf ⟨6, 7⟩) (.otherwise (.leaf ⟨8, 9⟩) (.leaf ⟨10, 11⟩) (.leaf ⟨12, 13⟩)))
    (.last (.leaf ⟨15, 16⟩) (.leaf ⟨17, 18⟩)))

def gradeRow (s : Span) : List Lexeme :=
  s.slice (tokenize gradeFormula)

def wordLexeme (word : String) (leading : List Char) : Lexeme :=
  ⟨.identifier word.toList, word.toList, leading⟩

theorem written_grade : gradeDecision.Written gradeRow (tokenize gradeFormula) := by
  have hRow : tokenize gradeFormula = wordLexeme "IF" [] :: ((gradeRow ⟨1, 4⟩ ++
      wordLexeme "THEN" [' '] :: (wordLexeme "CASE" [' '] :: (gradeRow ⟨6, 7⟩ ++
        wordLexeme "WHEN" [' '] :: ((gradeRow ⟨8, 9⟩ ++ wordLexeme "THEN" [' '] ::
          (gradeRow ⟨10, 11⟩ ++ wordLexeme "ELSE" [' '] :: gradeRow ⟨12, 13⟩)) ++
        [wordLexeme "END" [' ']])) ++
      wordLexeme "ELSEIF" [' '] :: (gradeRow ⟨15, 16⟩ ++
        wordLexeme "THEN" [' '] :: gradeRow ⟨17, 18⟩))) ++ [wordLexeme "END" [' ']]) := by
    decide +kernel
  rw [hRow]
  exact .ifBlock rfl
    (.more (.leaf _) rfl
      (.caseBlock rfl (.leaf _) rfl (.otherwise (.leaf _) rfl (.leaf _) rfl (.leaf _)) rfl) rfl
      (.last (.leaf _) rfl (.leaf _))) rfl

theorem attempt_grade :
    ∃ dax remarks,
      attempt ⟨fun _ => none, "Sales".toList, "Date".toList⟩ gradeFormula =
        .converted (.conditional .ifForm) (facts (tokenize gradeFormula)) dax remarks ∧
      (compile gradeDecision).Decodes
        (fun s => qualified ⟨fun _ => none, "Sales".toList, "Date".toList⟩ (gradeRow s))
        (tokenize dax) ∧
      (compile gradeDecision).leaves = gradeDecision.leaves ∧
      ∀ holds same,
        (compile gradeDecision).select holds same = gradeDecision.select holds same :=
  attempt_of_decision rfl (by decide +kernel) (by decide) written_grade _

end DaxMigration.Dax
