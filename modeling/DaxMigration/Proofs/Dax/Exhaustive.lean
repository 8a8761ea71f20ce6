import DaxMigration.Proofs.Dax.ClearingBlocks
import DaxMigration.Proofs.Dax.Undivided

/-!
# No convertible construct is left

A formula without conditionals, in which every construct is closed and stands where the grammar has
it, is converted to a text in which no level-of-detail block is read and no call of a table
calculation that would be converted, however the constructs are nested in one another.
-/

namespace DaxMigration.Dax

open Formula Text

variable {t : Target}

/-! ## Kinds without constructs -/

theorem mem_calledNames {ls : List Lexeme} {i : Nat} {name : List Char}
    (hName : tokenAt ls i = some (.identifier name)) (hCall : isCallAt ls i = true) :
    name ∈ calledNames ls := by
  induction ls generalizing i with
  | nil => cases hName
  | cons l ls ih =>
    rw [calledNames]
    cases i with
    | zero =>
      have hToken : l.token = .identifier name := Option.some.inj hName
      have hParen : followedByParen ls = true := (Bool.and_eq_true_iff.1 hCall).2
      simp [hToken, hParen]
    | succ i =>
      have hMem := ih (i := i) hName hCall
      split
      · split
        · exact List.mem_cons_of_mem _ hMem
        · exact hMem
      · exact hMem

/-- Where no table calculation is called, none is found. -/
theorem constructs_tableSplicer_eq_nil {room : Nat} {ls : List Lexeme}
    (h : ∀ name ∈ calledNames ls, Formula.TableCalc.ofName? name = none) :
    (tableSplicer t room).constructs ls = [] := by
  refine outermostFrom_eq_nil.2 fun i _ _ => Option.eq_none_iff_forall_ne_some.2 fun call hFound => ?_
  obtain ⟨name, hName, hWanted, hParse⟩ := parseCall_of_callAt hFound
  rw [h name (mem_calledNames hName (isCallAt_of_parseCall hParse).2)] at hWanted
  cases hWanted

/-- A kind says which constructs there are none of. -/
theorem none_of_classify {ls : List Lexeme} :
    (∀ f, classify ls = .tableCalc f → lodBlocks ls = []) ∧
      (classify ls = .standard → lodBlocks ls = [] ∧
        ∀ name ∈ calledNames ls, Formula.TableCalc.ofName? name = none) := by
  unfold classify
  cases hBlocks : lodBlocks ls with
  | cons b bs => simp
  | nil =>
    simp only [List.head?_nil]
    split
    · simp
    split
    · simp
    · rename_i hNone
      refine ⟨by simp, fun _ => ⟨trivial, fun name hName => ?_⟩⟩
      refine Option.eq_none_iff_forall_ne_some.2 fun f hf => ?_
      have hFound : f.name.toList = name := by simpa using List.find?_some hf
      have hNot := List.find?_eq_none.1 hNone f (List.mem_of_find?_eq_some hf)
      rw [hFound] at hNot
      simp [hName] at hNot

/-! ## Formulas -/

/-- A formula without comments, open literals and conditionals, whose constructs are nested at most
`depth` deep. -/
structure IsWellFormed (depth : Nat) (formula : List Char) : Prop where
  phrase : Phrase depth 1 (tokenize formula)
  terminated : ∀ l ∈ tokenize formula, l.isTerminated = true

theorem IsWellFormed.fair {depth : Nat} {formula : List Char} (h : IsWellFormed depth formula) :
    ∀ l ∈ tokenize formula, Fair l := by
  intro l hl
  obtain ⟨_, _, _, _, _, hBlank⟩ := scan_of_mem_tokenize hl
  have hComment := (h.phrase.quiet l hl).comment
  have hSettled := (spelled_of_mem_tokenize hl (h.terminated l hl) hComment).settled
  have hSolid : Solid l := ⟨hSettled.trimmed, hBlank⟩
  exact .original ⟨whole_of_mem_tokenize hl hSettled.calm, hSolid, h.terminated l hl⟩ hComment

/-- A formula of any kind is converted to an operand. -/
theorem operandText_daxText (ht : t.IsForeign) {depth : Nat} {formula : List Char}
    (h : IsWellFormed depth formula) (hDepth : depth < maxNesting) :
    ∃ dax, OperandText dax ∧
      Returns (daxText t (classify (tokenize formula)) (tokenize formula)) dax := by
  have hPhrase := h.phrase
  have hFair := h.fair
  generalize tokenize formula = ls at hPhrase hFair ⊢
  obtain ⟨hTableCalc, hStandard⟩ := @none_of_classify ls
  -- Without blocks no curly bracket is left, since splicing blocks would have replaced it.
  have hPlain : lodBlocks ls = [] → ∀ l ∈ ls, Admissible true l := by
    intro hNone l hl
    obtain ⟨ls', hCleared, hReturns⟩ := clearsBlocks ht maxNesting hPhrase hDepth hFair
    have hSame : Returns (spliceLods t maxNesting ls) ls := by
      rw [maxNesting, spliceLods_succ]
      exact Splicer.returns_splice_of_none hNone
    obtain rfl := hReturns.unique hSame
    exact ⟨hFair l hl, fun _ => hCleared.plain l hl⟩
  cases hKind : classify ls with
  | lod keyword dimensions inner => exact (clearsBlocks ht maxNesting).convertInner ht hPhrase hDepth hFair
  | conditional form =>
    have hNone : conditionals ls = [] := conditionals_eq_nil fun l hl =>
      ⟨(hPhrase.quiet l hl).ifWord, (hPhrase.quiet l hl).caseWord⟩
    exact absurd hKind (not_conditional_of_none hNone form)
  | tableCalc function =>
    exact (clearsCalls ht maxNesting).convertArgument ht hPhrase hDepth (hPlain (hTableCalc function hKind))
  | standard =>
    obtain ⟨hBlocks, hNames⟩ := hStandard hKind
    obtain ⟨ls', hCleared, hReturns⟩ := clearsCalls ht maxNesting hPhrase hDepth (hPlain hBlocks)
    have hSame : Returns (spliceTableCalcs t maxNesting ls) ls := by
      rw [maxNesting, spliceTableCalcs_succ]
      exact Splicer.returns_splice_of_none (constructs_tableSplicer_eq_nil hNames)
    obtain rfl := hReturns.unique hSame
    exact ⟨_, operandText_standard ht hPhrase hCleared.plain hFair (hCleared.resolved rfl),
      returns_standardRemarked t _⟩

/-- Every such formula is converted, and in the tokens of its text no block is recognized and no
closed call, at any position, with which a table calculation would be converted. -/
theorem attempt_exhaustive (ht : t.IsForeign) {depth : Nat} {formula : List Char}
    (h : IsWellFormed depth formula) (hDepth : depth < maxNesting) :
    ∃ kind facts dax remarks, attempt t formula = .converted kind facts dax remarks ∧
      lodBlocks (tokenize dax) = [] ∧
      ∀ i call, parseCall (tokenize dax) i = .ok call →
        ∀ f ∈ [("RANK", 1), ("RANK", 2), ("RUNNING_SUM", 1), ("LOOKUP", 2)],
          call.name = f.1.toList → call.args.length ≠ f.2 := by
  obtain ⟨dax, hText, hReturns⟩ := operandText_daxText ht h hDepth
  obtain ⟨remarks, hRun⟩ := hReturns []
  have hInk : allBlank formula = false := allBlank_of_tokenize h.phrase.filled
  obtain ⟨kind, facts, remarks, hAttempt⟩ := @attempt_of_run t formula dax hInk (by rw [hRun]; rfl)
  obtain ⟨hBlocks, hCalls⟩ := hText.tokens.reads
  refine ⟨kind, facts, dax, remarks, hAttempt, hBlocks, fun i call hParse f hf hName hLength => ?_⟩
  have hConverted : ∀ f ∈ [("RANK", 1), ("RANK", 2), ("RUNNING_SUM", 1), ("LOOKUP", 2)],
      isConvertible f.1.toList f.2 = true := by decide
  have hKept := hCalls i call hParse
  rw [hName, hLength, hConverted f hf] at hKept
  cases hKept

/-! ## The built-in functions -/

theorem isForeign_builtin (table orderColumn : String) :
    (Catalogue.builtin.target table orderColumn).IsForeign := by
  have hAll : ∀ entry ∈ Catalogue.builtin.functionIndex.entries, isNameText entry.2.toList = true ∧
      nameToken entry.2.toList = .identifier entry.2.toList ∧
      Formula.TableCalc.ofName? entry.2.toList = none := by decide +kernel
  refine ⟨fun hFunction => ?_, fun hFunction => .inr ?_⟩
  all_goals
    obtain ⟨entry, hMem, -, rfl⟩ := mem_functionIndex hFunction
    obtain ⟨hName, hToken, hNone⟩ := hAll entry hMem
  · exact .name hName
  · have hTokens : tokensOf entry.2.toList = [nameToken entry.2.toList] :=
      (whole_name hName []).tokensOf_text
    rw [hTokens, hToken]
    simpa using inert_identifier hNone

def shown (t : Token) (leading : List Char) : Lexeme :=
  ⟨t, t.display, leading⟩

def mixedFormula : List Char :=
  "\x7bFIXED [r] : RANK([a])\x7d > RANK(LOOKUP(RANK[b], -1), 1, 2) AND NOT SUM(\x7b[c]\x7d) = 0".toList

def mixedBlock : List Lexeme :=
  shown .lbrace [] :: (shown (.identifier "FIXED".toList) [] ::
    ([shown (.field ['r']) [' ']] ++ [shown .colon [' ']]) ++
    shown (.identifier "RANK".toList) [' '] :: shown .lparen [] ::
      ([shown (.field ['a']) []] ++ [shown .rparen []]) ++ [shown .rbrace []])

def mixedLookup : List Lexeme :=
  shown (.identifier "LOOKUP".toList) [] :: shown .lparen [] ::
    ([shown (.identifier "RANK".toList) [], shown (.field ['b']) []] ++ shown .comma [] :: shown .minus [' '] :: [shown (.number ['1']) []] ++
      [shown .rparen []])

def mixedKept : List Lexeme :=
  shown (.identifier "RANK".toList) [' '] :: shown .lparen [] ::
    (mixedLookup ++ shown .comma [] :: ([shown (.number ['1']) [' ']] ++
      shown .comma [] :: [shown (.number ['2']) [' ']]) ++ [shown .rparen []])

def mixedSum : List Lexeme :=
  shown (.identifier "SUM".toList) [' '] :: shown .lparen [] ::
    (shown .lbrace [] :: ([shown (.field ['c']) []] ++ [shown .rbrace []]) ++ [shown .rparen []])

theorem tokenize_mixed : tokenize mixedFormula = mixedBlock ++ shown .greaterThan [' '] :: mixedKept ++
    shown (.identifier "AND".toList) [' '] :: shown negationWord [' '] ::
      (mixedSum ++ shown .equals [' '] :: [shown (.number ['0']) [' ']]) := by
  decide +kernel

theorem isWellFormed_mixed : IsWellFormed 2 mixedFormula where
  phrase := by
    have hBlock : Phrase 2 1 mixedBlock :=
      .headed rfl rfl (by decide) (.atom rfl) rfl
        (.call rfl (by decide) rfl (.atom rfl) (show 0 + 1 ≤ 1 by decide) rfl) (by decide) rfl
    have hLookup : Phrase 1 1 mixedLookup :=
      .call rfl (by decide) rfl (.more (.column (.name rfl) rfl rfl) rfl (.signed (.inr rfl) (.atom rfl)))
        (show 0 + 1 ≤ 1 by decide) rfl
    have hKept : Phrase 2 1 mixedKept :=
      .call rfl (by decide) rfl (.more hLookup rfl (.more (.atom rfl) rfl (.atom rfl)))
        (show 1 + 1 ≤ 2 by decide) rfl
    have hSum : Phrase 2 1 mixedSum :=
      .call rfl (by decide) rfl (.block rfl (.atom rfl) (show 0 < 2 by decide) rfl) (by decide) rfl
    rw [tokenize_mixed]
    refine .connective (.operation hBlock rfl (by decide) hKept) rfl rfl (by simp [shown, Lexeme.isAttached]) ?_
    exact .negation rfl (by decide) (.operation hSum rfl (by decide) (.atom rfl))
  terminated := by decide +kernel

def mixedDax : List Char :=
  ("CALCULATE(RANKX(ALL(Sales), Sales[a]), ALLEXCEPT(Sales, Sales[r])) > " ++
    "RANK(CALCULATE(RANK[b], OFFSET(-1, ALLSELECTED(Sales[OrderDate]), ORDERBY(Sales[OrderDate]))), 1, 2) " ++
    "AND NOT SUM(CALCULATE(Sales[c], ALL(Sales))) = 0").toList

/-- A call in a block, one among the arguments of a call that is kept, a block in a call of another
function, and a table that has the name of a table calculation. -/
theorem attempt_exhaustive_mixed :
    ∃ kind facts remarks,
      attempt (Catalogue.builtin.target "Sales" "OrderDate") mixedFormula =
        .converted kind facts mixedDax remarks ∧
      lodBlocks (tokenize mixedDax) = [] ∧
      ∀ i call, parseCall (tokenize mixedDax) i = .ok call →
        ∀ f ∈ [("RANK", 1), ("RANK", 2), ("RUNNING_SUM", 1), ("LOOKUP", 2)],
          call.name = f.1.toList → call.args.length ≠ f.2 := by
  obtain ⟨kind, facts, dax, remarks, hAttempt, hBlocks, hCalls⟩ :=
    attempt_exhaustive (isForeign_builtin "Sales" "OrderDate") isWellFormed_mixed (by decide)
  obtain ⟨kind', facts', remarks', hText⟩ :=
    @attempt_of_run (Catalogue.builtin.target "Sales" "OrderDate") mixedFormula mixedDax (by decide)
      (by decide +kernel)
  have hSame := hAttempt.symm.trans hText
  cases hSame
  exact ⟨kind, facts, remarks, hAttempt, hBlocks, hCalls⟩

/-- A function that goes by the name of a table calculation is left as a call of one, and a text that is
no name may hold a block. -/
theorem construct_of_remapped :
    IsWellFormed 1 "FOO([x])".toList ∧
    ((∃ kind facts remarks, attempt (remapped "FOO" "RANK") "FOO([x])".toList =
        .converted kind facts "RANK(Sales[x])".toList remarks) ∧
      (parseCall (tokenize "RANK(Sales[x])".toList) 0).toOption.map
        (fun call => (call.name, call.args.length)) = some ("RANK".toList, 1)) ∧
    (∃ kind facts remarks, attempt (remapped "FOO" "\x7b[A]\x7d") "FOO([x])".toList =
        .converted kind facts "\x7b[A]\x7d(Sales[x])".toList remarks) ∧
      lodBlocks (tokenize "\x7b[A]\x7d(Sales[x])".toList) ≠ [] := by
  have hTokens : tokenize "FOO([x])".toList = shown (.identifier "FOO".toList) [] ::
      shown .lparen [] :: ([shown (.field ['x']) []] ++ [shown .rparen []]) := by decide +kernel
  refine ⟨⟨?_, by decide +kernel⟩, ⟨attempt_of_run (by decide) (by decide +kernel), by decide +kernel⟩,
    attempt_of_run (by decide) (by decide +kernel), by decide +kernel⟩
  rw [hTokens]
  exact .call rfl (by decide) rfl (.atom rfl) (show 0 + 1 ≤ 1 by decide) rfl

end DaxMigration.Dax
