import DaxMigration.Catalogue.Lookup
import DaxMigration.Dax.Conversion
import DaxMigration.Proofs.Dax.Preserving

/-!
# No division sign is left

A formula without conditionals in which every division has an operand on either side is converted
to a text without a division sign, whatever its constructs and however its brackets are closed.
-/

namespace DaxMigration.Dax

open Formula Text

variable {t : Target}

structure IsUnconditional (l : Lexeme) : Prop where
  bears : Bears false (Fluent false) l
  ifWord : l.token.isWord "IF" = false
  caseWord : l.token.isWord "CASE" = false

theorem isUnconditional_verbatim {text leading : List Char} (hText : Fluent false text)
    (hMarks : inked text ≠ []) (hBlank : allBlank leading = true) :
    IsUnconditional (Lexeme.verbatim text leading) where
  bears := ⟨hBlank, hMarks, rfl, fun _ => hText, fun hSigns => (nomatch hSigns),
    fun hSigns => (nomatch hSigns)⟩
  ifWord := rfl
  caseWord := rfl

theorem gives_spliceConditionals_of_none {room : Nat} {ls ls' : List Lexeme}
    (hNone : conditionals ls = []) (h : Gives (spliceConditionals t room ls) ls') : ls' = ls := by
  cases room with
  | zero => exact absurd h (not_gives_failure _)
  | succ room => exact (returns_spliceConditionals_of_none hNone).gives_iff.1 h

theorem sustains_unconditional (ht : t.IsNamed) :
    Sustains t false IsUnconditional (Fluent false) (fun _ => True) where
  comment h := h.bears.comment
  blank h := h.bears.blank
  verbatim := isUnconditional_verbatim
  slot _ := trivial
  kept _ _ := trivial
  standard hAll hFlanked _ := fluent_standard ht ⟨fun l hl => (hAll l hl).bears, hFlanked⟩
  call hName _ h := fluent_callText (plain_of_generated hName) h
  texts := fluent_texts false t
  column d := (apt_column false t d).fluent
  conditionals {room ls ls'} hAll _ h := by
    have hNone := conditionals_eq_nil fun l hl => ⟨(hAll l hl).ifWord, (hAll l hl).caseWord⟩
    rw [gives_spliceConditionals_of_none hNone h]
    exact .refl hAll

/-! ## Formulas -/

/-- A formula without comments, open literals, stray square brackets and conditionals, in which
every division has an operand on either side. -/
structure IsDivisible (formula : List Char) : Prop where
  comment : ∀ l ∈ tokenize formula, l.isComment = false
  terminated : ∀ l ∈ tokenize formula, l.isTerminated = true
  closed : ∀ l ∈ tokenize formula, l.token ≠ .illegal ']'
  ifWord : ∀ l ∈ tokenize formula, l.token.isWord "IF" = false
  caseWord : ∀ l ∈ tokenize formula, l.token.isWord "CASE" = false
  divisions : Flanked false (tokenize formula)

theorem IsDivisible.isUnconditional {formula : List Char} (h : IsDivisible formula) :
    ∀ l ∈ tokenize formula, IsUnconditional l := fun l hl =>
  ⟨bears_of_mem_tokenize false hl (h.terminated l hl) (h.comment l hl) (h.closed l hl), h.ifWord l hl,
    h.caseWord l hl⟩

theorem not_conditional_of_none {ls : List Lexeme} (h : conditionals ls = []) (form : Form) :
    classify ls ≠ .conditional form := by
  unfold classify
  rw [h]
  split
  · simp
  · simp only [List.head?_nil]
    split <;> simp

/-- Whatever the kind of the formula, its text is one without division signs. -/
theorem fluent_daxText (ht : t.IsNamed) {formula : List Char} (h : IsDivisible formula)
    {dax : List Char} (hGives : Gives (daxText t (classify (tokenize formula)) (tokenize formula)) dax) :
    Fluent false dax := by
  have hSustains := sustains_unconditional ht
  have hAll := h.isUnconditional
  have hFlanked := h.divisions
  have hNone := conditionals_eq_nil fun l hl => ⟨h.ifWord l hl, h.caseWord l hl⟩
  unfold daxText at hGives
  split at hGives
  · rw [gives_standardRemarked hGives]
    exact (hSustains.standard hAll hFlanked trivial).1
  · rename_i form hKind
    exact absurd hKind (not_conditional_of_none hNone form)
  · exact (hSustains.convertArgument hSustains.spliceTableCalcs hAll hFlanked trivial hGives).1
  · refine (hSustains.convertInner (fun hSpliced => ?_) hFlanked trivial hGives).1
    exact hSustains.spliceLods hAll hFlanked.chain (fun _ _ _ _ => trivial) hSpliced

/-- No division sign is read from the text that a formula is converted to. -/
theorem attempt_undivided (ht : t.IsNamed) {formula : List Char} (h : IsDivisible formula)
    {kind : Kind} {facts : Facts} {dax : List Char} {remarks : List Remark}
    (hAttempt : attempt t formula = .converted kind facts dax remarks) :
    ∀ l ∈ tokenize dax, l.token ≠ .slash := by
  obtain ⟨rfl, hGives⟩ := gives_of_attempt hAttempt
  exact token_ne_slash_of_stays (fluent_daxText ht h hGives).stays

theorem attempt_of_run {formula dax : List Char} (hInk : allBlank formula = false)
    (hRun : ((daxText t (classify (tokenize formula)) (tokenize formula)).run []).map Prod.fst =
      some dax) :
    ∃ kind facts remarks, attempt t formula = .converted kind facts dax remarks := by
  obtain ⟨⟨text, remarks⟩, hText, rfl⟩ := Option.map_eq_some_iff.1 hRun
  refine ⟨classify (tokenize formula), Formula.facts (tokenize formula), remarks, ?_⟩
  simp only [attempt, hInk, Bool.false_eq_true, if_false, hText]

/-! ## The built-in functions -/

/-- What is called in place of a function is listed. -/
theorem mem_functionIndex {c : Catalogue} {table orderColumn : String} {name text : List Char}
    (h : (c.target table orderColumn).function? name = some text) :
    ∃ entry ∈ c.functionIndex.entries, entry.1.toList = upper name ∧ entry.2.toList = text := by
  obtain ⟨dax, hLookup, rfl⟩ := Option.map_eq_some_iff.1 h
  obtain ⟨before, after, hSplit, -⟩ := List.lookup_eq_some_iff.1 hLookup
  exact ⟨(Catalogue.upperText (String.ofList name), dax), by rw [hSplit]; simp,
    by simp [Catalogue.upperText], rfl⟩

theorem isNamed_builtin (table orderColumn : String) :
    (Catalogue.builtin.target table orderColumn).IsNamed := by
  have hAll : ∀ entry ∈ Catalogue.builtin.functionIndex.entries, entry.2.toList ≠ [] ∧
      ∀ c ∈ entry.2.toList, isBlank c = false ∧ c ∉ '*' :: Mode.special := by decide +kernel
  intro name text hFunction
  obtain ⟨entry, hMem, -, rfl⟩ := mem_functionIndex hFunction
  exact hAll entry hMem

def ratioFormula : List Char :=
  "\x7bFIXED [r] : SUM([a]) / 2\x7d / -(RANK([b] / [c]) + AVG([d])".toList

theorem isDivisible_ratio : IsDivisible ratioFormula where
  comment := by decide +kernel
  terminated := by decide +kernel
  closed := by decide +kernel
  ifWord := by decide +kernel
  caseWord := by decide +kernel
  divisions := by decide +kernel

def ratioDax : List Char :=
  ("DIVIDE(CALCULATE(DIVIDE(SUM(Sales[a]), 2, 0), ALLEXCEPT(Sales, Sales[r])), " ++
    "-(RANKX(ALL(Sales), DIVIDE(Sales[b], Sales[c], 0)), 0) + AVERAGE(Sales[d])").toList

/-- Divisions in the block, below the open bracket, in the call and after the block. -/
theorem attempt_undivided_ratio :
    ∃ kind facts remarks,
      attempt (Catalogue.builtin.target "Sales" "OrderDate") ratioFormula =
        .converted kind facts ratioDax remarks ∧
      ∀ l ∈ tokenize ratioDax, l.token ≠ .slash := by
  obtain ⟨kind, facts, remarks, hAttempt⟩ :=
    @attempt_of_run (Catalogue.builtin.target "Sales" "OrderDate") ratioFormula ratioDax (by decide)
      (by decide +kernel)
  exact ⟨kind, facts, remarks, hAttempt,
    attempt_undivided (isNamed_builtin "Sales" "OrderDate") isDivisible_ratio hAttempt⟩

/-! ## Functions without names -/

def remapped (function text : String) : Target :=
  ({ Catalogue.builtin with functions := .ofList [("", .ofList [(function, text)])] } :
    Catalogue).target "Sales" "OrderDate"

/-- The text of a function may hold a division sign itself, or a quote that uncovers one. -/
theorem slash_of_remapped :
    (IsDivisible "SUM([x])".toList ∧
      (∃ kind facts remarks, attempt (remapped "SUM" "A/B") "SUM([x])".toList =
        .converted kind facts "A/B(Sales[x])".toList remarks) ∧
      ∃ l ∈ tokenize "A/B(Sales[x])".toList, l.token = .slash) ∧
    (IsDivisible "SUM([x]) & \"/\"".toList ∧
      (∃ kind facts remarks, attempt (remapped "SUM" "A\"") "SUM([x]) & \"/\"".toList =
        .converted kind facts "A\"(Sales[x]) & \"/\"".toList remarks) ∧
      ∃ l ∈ tokenize "A\"(Sales[x]) & \"/\"".toList, l.token = .slash) :=
  ⟨⟨⟨by decide +kernel, by decide +kernel, by decide +kernel, by decide +kernel, by decide +kernel,
        by decide +kernel⟩,
      attempt_of_run (by decide) (by decide +kernel), by decide +kernel⟩,
    ⟨⟨by decide +kernel, by decide +kernel, by decide +kernel, by decide +kernel, by decide +kernel,
        by decide +kernel⟩,
      attempt_of_run (by decide) (by decide +kernel), by decide +kernel⟩⟩

end DaxMigration.Dax
