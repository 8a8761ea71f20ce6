import DaxMigration.Dax.Conversion
import DaxMigration.Proofs.Dax.CheckedSplice
import DaxMigration.Proofs.Formula.Lossless

/-!
# Safety of conversion

The whole conversion with every access checked, from the kind of the formula to the verdict on its
text. It always has a result, and the same one as the conversion that checks nothing: no formula,
configuration or setting leads out of bounds, and no call is left with as much to do as its caller.
-/

namespace DaxMigration.Dax

open Formula Text

/-- The kind of a formula, for which the parts of its first block are sliced. -/
def checkedKind (ls : List Lexeme) : Checked Kind := do
  match (← checkedLodBlocks ls).head? with
  | some b => checkSlices ls (b.inner :: b.dimensions)
  | none => pure ()
  return classify ls

def checkedText (t : Target) (kind : Kind) (ls : List Lexeme) : Checked (List Char) := do
  match kind with
  | .standard => checkedStandard t ls
  | .conditional _ => return qualified t (← checkedConditionals t maxNesting ls)
  | .tableCalc _ => checkedStandard t (← checkedTableCalcs t maxNesting ls)
  | .lod _ _ _ =>
    let spliced ← checkedLods t maxNesting ls
    let spliced ← checkedConditionals t maxNesting spliced
    checkedStandard t (← checkedTableCalcs t maxNesting spliced)

/-- A text without its first byte, which must be a whole character. -/
def checkedTail : List Char → Except Stop (List Char)
  | [] => throw .outOfBounds
  | c :: rest => if c.utf8Size = 1 then return rest else throw .outOfBounds

def lexemeTally (recount : List Char → Except Stop Tally) (l : Lexeme) : Except Stop Tally :=
  match l.token with
  | .lparen => return ⟨1, 0⟩
  | .rparen => return ⟨-1, 0⟩
  | .illegal ']' => return ⟨0, -1⟩
  | .field name => do
    if isClosedField l name then return .zero
    else return ⟨0, 1⟩ + (← recount (← checkedTail l.text))
  | _ => return .zero

/-- The delimiters of a text, where the recursion takes shorter texts only. -/
def checkedTally (cs : List Char) : Except Stop Tally :=
  (tokenize cs).foldlM (fun acc l => do
    return acc + (← lexemeTally (fun rest =>
      if _h : rest.length < cs.length then checkedTally rest else throw .noProgress) l)) .zero
termination_by cs.length

def checkedIssues (cs : List Char) : Except Stop (List Issue) := do
  if allBlank cs then return [.empty]
  else
    let count ← checkedTally cs
    return (if count.parens = 0 then [] else [.unbalancedParens]) ++
      (if count.brackets = 0 then [] else [.unbalancedBrackets]) ++
      (if hasAssignment cs then [.assignment] else [])

/-- The conversion of a formula. Of the reasons to stop it reports only that constructs nest too
deep; any other would end it without a result. -/
def checkedConversion (t : Target) (formula name role : String) : Except Stop Conversion := do
  if allBlank formula.toList then return .failed formula name role Conversion.noFormula
  else
    let ls := tokenize formula.toList
    let converting : Checked (Kind × List Char) := do
      let kind ← checkedKind ls
      return (kind, ← checkedText t kind ls)
    match converting.run [] with
    | .error .tooDeep => return .failed formula name role Conversion.nestingIssue
    | .error stop => throw stop
    | .ok ((kind, dax), remarks) =>
      let issues ← checkedIssues dax
      return { Conversion.ofAttempt formula name role (.converted kind (facts ls) dax remarks) with
        success := issues.isEmpty
        issues := issues.map Issue.text }

/-! ## No check fails -/

theorem checkedKind_eq (ls : List Lexeme) : checkedKind ls = pure (classify ls) := by
  rw [checkedKind, checkedLodBlocks_eq, pure_bind]
  cases hFirst : (lodBlocks ls).head? with
  | none => rfl
  | some b =>
    obtain ⟨i, -, hFound⟩ := found_of_mem_outermost (List.mem_of_mem_head? hFirst)
    have hBounded := bounded_of_lodAt hFound
    have hSpans : ∀ s ∈ b.inner :: b.dimensions, s.Within ls.length :=
      List.forall_mem_cons.2 ⟨hBounded.inner.within, hBounded.dimensions⟩
    simp only [checkSlices_eq hSpans, pure_bind]

theorem checkedText_eq (t : Target) (kind : Kind) (ls : List Lexeme) :
    checkedText t kind ls = unstopped (daxText t kind ls) := by
  cases kind with
  | standard => exact checkedStandard_eq t ls
  | conditional form =>
    rw [checkedText, daxText, checkedConditionals_eq, unstopped_bind]
    rfl
  | tableCalc function =>
    simp only [checkedText, daxText, checkedTableCalcs_eq, checkedStandard_eq, unstopped_bind]
  | lod keyword dimensions inner =>
    simp only [checkedText, daxText, checkedLods_eq, checkedConditionals_eq, checkedTableCalcs_eq,
      checkedStandard_eq, unstopped_bind]

/-- A field begins with its bracket, which is one byte; what follows is shorter than the text. -/
theorem checkedTail_of_field {cs : List Char} {l : Lexeme} (h : l ∈ tokenize cs) {name : List Char}
    (hToken : l.token = .field name) :
    checkedTail l.text = pure l.text.tail ∧ l.text.tail.length < cs.length := by
  obtain ⟨c, rest, hScan, hText, -, -⟩ := scan_of_mem_tokenize h
  have hBegins := begins_of_form (Scan.form_scan c rest)
  rw [← hScan, hToken] at hBegins
  obtain rfl : c = '[' := by simpa [Token.begins] using hBegins
  have hLength := text_of_mem_tokenize h
  rw [hText] at hLength ⊢
  exact ⟨rfl, by simp at hLength ⊢; omega⟩

theorem foldlM_eq_pure {α β : Type} {f : β → α → Except Stop β} {g : β → α → β} {as : List α}
    (h : ∀ a ∈ as, ∀ b, f b a = pure (g b a)) (b : β) : as.foldlM f b = pure (as.foldl g b) := by
  induction as generalizing b with
  | nil => rfl
  | cons a as ih =>
    obtain ⟨hFirst, hRest⟩ := List.forall_mem_cons.1 h
    rw [List.foldlM_cons, hFirst, pure_bind, ih hRest, List.foldl_cons]

theorem checkedTally_eq (cs : List Char) : checkedTally cs = pure (tally cs) := by
  -- `tally` folds over the lexemes with their membership, from which its recursion takes its bound.
  rw [checkedTally, tally]
  have hAttach := List.foldl_attach (l := tokenize cs) (f := fun acc l => acc + match l.token with
    | .lparen => ⟨1, 0⟩
    | .rparen => ⟨-1, 0⟩
    | .illegal ']' => ⟨0, -1⟩
    | .field name => if isClosedField l name then .zero else ⟨0, 1⟩ + tally l.text.tail
    | _ => .zero) (b := Tally.zero)
  refine Eq.trans (foldlM_eq_pure (fun l hl acc => ?_) _) (congrArg pure hAttach.symm)
  cases hToken : l.token with
  | field name =>
    obtain ⟨hTail, hShorter⟩ := checkedTail_of_field hl hToken
    simp only [lexemeTally, hToken]
    cases isClosedField l name with
    | true => rfl
    | false =>
      simp only [hTail, Bool.false_eq_true, if_false, pure_bind, dif_pos hShorter,
        checkedTally_eq l.text.tail]
  | illegal c =>
    by_cases hBracket : c = ']'
    · subst hBracket
      simp only [lexemeTally, hToken]
      rfl
    · simp [lexemeTally, hToken, hBracket]
  | _ => simp only [lexemeTally, hToken]; rfl
termination_by cs.length
decreasing_by exact hShorter

theorem checkedIssues_eq (cs : List Char) : checkedIssues cs = pure (issues cs) := by
  rw [checkedIssues, issues, checkedTally_eq]
  split <;> rfl

/-- Every conversion has a result, and in none is a slice or an element sought out of bounds or a
call made with as much to do as before: the conversion that would stop there gives what the
conversion gives. -/
theorem conversion_safe (t : Target) (formula name role : String) :
    checkedConversion t formula name role =
      pure (Conversion.ofAttempt formula name role (attempt t formula.toList)) := by
  rw [checkedConversion, attempt]
  split
  · rfl
  simp only [checkedKind_eq, pure_bind, checkedText_eq]
  rw [StateT.run_bind, run_unstopped]
  cases (daxText t (classify (tokenize formula.toList)) (tokenize formula.toList)).run [] with
  | none => rfl
  | some result =>
    simp only [bind, Except.bind, checkedIssues_eq]
    rfl

end DaxMigration.Dax
