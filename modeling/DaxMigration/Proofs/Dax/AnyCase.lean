import DaxMigration.Catalogue.Lookup
import DaxMigration.Proofs.Dax.ClearingBlocks
import DaxMigration.Proofs.Dax.LetterCase
import DaxMigration.Proofs.Formula.Recased

/-!
# Letter case of names does not matter

Two formulas that are equal but for letter case are spliced side by side: the same constructs are found in
both, one conversion fails where the other does, and what they make is equal but for letter case again. If
only names and truth values were spelled in another case, the functions and fields are the very same.
-/

namespace DaxMigration.Dax

open Formula Text

variable {t : Target}

/-! ## Conversions side by side -/

section

variable {β γ δ ε : Type}

/-- Both conversions fail, or `f` takes their results to the same; the remarks are left open. -/
def Agree (f : β → δ) (m m' : Splicing β) : Prop :=
  ∀ before before', (m.run before).map (f ·.1) = (m'.run before').map (f ·.1)

variable {f : β → δ} {g : γ → ε}

theorem agree_pure {b c : β} (h : f b = f c) : Agree f (pure b) (pure c) := by
  intro before before'
  exact congrArg some h

theorem agree_failure : Agree f failure failure := by
  intro before before'
  rfl

theorem agree_remark (r : Remark) : Agree id (remark r) (remark r) := by
  intro before before'
  rfl

theorem agree_remarked (condition : Bool) (r : Remark) {b c : β} (h : f b = f c) :
    Agree f (if condition then do remark r; pure b else pure b)
      (if condition then do remark r; pure c else pure c) := by
  intro before before'
  cases condition <;> exact congrArg some h

theorem Agree.bind {m m' : Splicing β} {k k' : β → Splicing γ} (h : Agree f m m')
    (hNext : ∀ b c, f b = f c → Agree g (k b) (k' c)) : Agree g (m >>= k) (m' >>= k') := by
  intro before before'
  have hHere := h before before'
  rw [StateT.run_bind, StateT.run_bind]
  cases hFirst : m.run before with
  | none =>
    rw [hFirst, Option.map_none, eq_comm, Option.map_eq_none_iff] at hHere
    rw [hHere]
    rfl
  | some x =>
    rw [hFirst, Option.map_some, eq_comm, Option.map_eq_some_iff] at hHere
    obtain ⟨y, hSecond, hSame⟩ := hHere
    rw [hSecond]
    exact hNext x.1 y.1 hSame.symm x.2 y.2

theorem Agree.mapM {α η : Type} {h : α → η} {k k' : α → Splicing β}
    (hNext : ∀ a b, h a = h b → Agree f (k a) (k' b)) :
    ∀ {as bs : List α}, as.map h = bs.map h → Agree (List.map f) (as.mapM k) (bs.mapM k')
  | [], [], _ => by
    rw [List.mapM_nil, List.mapM_nil]
    exact agree_pure rfl
  | a :: as, b :: bs, hSame => by
    obtain ⟨hFirst, hRest⟩ := List.cons.inj hSame
    rw [List.mapM_cons, List.mapM_cons]
    apply (hNext a b hFirst).bind
    intro x y hxy
    apply (mapM hNext hRest).bind
    intro xs ys hxys
    exact agree_pure (congrArg₂ List.cons hxy hxys)

theorem Returns.agree {m m' : Splicing β} {b c : β} (hb : Returns m b) (hc : Returns m' c) (h : f b = f c) :
    Agree f m m' := by
  intro before before'
  obtain ⟨more, hMore⟩ := hb before
  obtain ⟨more', hMore'⟩ := hc before'
  rw [hMore, hMore']
  exact congrArg some h

end

/-! ## Texts -/

theorem caseless_commaSeparated (parts : List (List Char)) :
    caseless (commaSeparated parts) = commaSeparated (parts.map caseless) := by
  match parts with
  | [] => rfl
  | [a] => simp [commaSeparated, List.intercalate]
  | a :: b :: rest =>
    rw [List.map_cons, List.map_cons, commaSeparated_cons, commaSeparated_cons, caseless_append]
    have hRest := caseless_commaSeparated (b :: rest)
    rw [List.map_cons] at hRest
    rw [caseless_cons, caseless_cons, hRest]
    rfl

theorem caseless_callText (name : String) (args : List (List Char)) :
    caseless (callText name args) =
      caseless name.toList ++ '(' :: commaSeparated (args.map caseless) ++ [')'] := by
  simp [callText, caseless_commaSeparated]

/-- Calls of one function with arguments that are equal but for letter case. -/
theorem caseless_callText_congr {name : String} {args args' : List (List Char)}
    (h : args.map caseless = args'.map caseless) :
    caseless (callText name args) = caseless (callText name args') := by
  rw [caseless_callText, caseless_callText, h]

/-! ## Replacements -/

def Replacement.caseless (r : Replacement) : Replacement :=
  ⟨r.span, r.lexemes.map Lexeme.caseless⟩

theorem replaceFrom_caseless (ls : List Lexeme) (cursor : Nat) (rs : List Replacement) :
    replaceFrom (ls.map Lexeme.caseless) cursor (rs.map Replacement.caseless) =
      (replaceFrom ls cursor rs).map Lexeme.caseless := by
  induction rs generalizing cursor with
  | nil => exact List.map_drop.symm
  | cons r rs ih =>
    rw [List.map_cons, replaceFrom, replaceFrom, Replacement.caseless, ih, slice_map, List.map_append,
      List.map_append]

variable {ls ls' : List Lexeme}

theorem CaseAlike.replaceSpans {rs rs' : List Replacement} (h : CaseAlike ls ls')
    (hMade : rs.map Replacement.caseless = rs'.map Replacement.caseless) :
    CaseAlike (replaceSpans ls rs) (replaceSpans ls' rs') := by
  rw [CaseAlike, Dax.replaceSpans, Dax.replaceSpans, ← replaceFrom_caseless, ← replaceFrom_caseless,
    show _ = _ from h, hMade]

theorem caseless_verbatim_congr {text text' : List Char} (h : CaseAlike ls ls') (span : Span)
    (hText : caseless text = caseless text') :
    (Replacement.verbatim ls span text).caseless = (Replacement.verbatim ls' span text').caseless := by
  have hLeading := h.congr (f := fun ls => caseless ((ls[span.start]?.map Lexeme.leading).getD [])) (by
    intro ls
    simp only [List.getElem?_map]
    cases ls[span.start]? <;> simp)
  simp [Replacement.verbatim, Replacement.caseless, Lexeme.verbatim, Lexeme.caseless, Token.caseless, hText,
    hLeading]

/-- Alike rows, of which the same constructs are replaced by alike runs. -/
theorem agree_replaced {β η : Type} (h : CaseAlike ls ls') {g : β → η} {bs bs' : List β}
    {convert convert' : β → Splicing Replacement}
    (hConvert : ∀ b b', g b = g b' → Agree Replacement.caseless (convert b) (convert' b'))
    (hFound : bs.map g = bs'.map g) :
    Agree (List.map Lexeme.caseless) (do return replaceSpans ls (← bs.mapM convert))
      (do return replaceSpans ls' (← bs'.mapM convert')) := by
  apply (Agree.mapM hConvert hFound).bind
  intro rs rs' hMade
  exact agree_pure (h.replaceSpans hMade)

/-! ## Conditionals -/

section

variable {branch branch' : Span → Splicing (List Char)}
  (hBranch : ∀ s, Agree caseless (branch s) (branch' s))
include hBranch

theorem agree_optionalBranch (s : Option Span) :
    Agree (Option.map caseless) (optionalBranch branch s) (optionalBranch branch' s) := by
  cases s with
  | none => exact agree_pure rfl
  | some s =>
    rw [optionalBranch, optionalBranch, map_eq_pure_bind, map_eq_pure_bind]
    apply (hBranch s).bind
    intro x y hxy
    exact agree_pure (congrArg some hxy)

theorem agree_nestBranches (bs : List Branch) {acc acc' : Option (List Char)}
    (hAcc : acc.map caseless = acc'.map caseless) :
    Agree (Option.map caseless) (nestBranches branch acc bs) (nestBranches branch' acc' bs) := by
  induction bs generalizing acc acc' with
  | nil => exact agree_pure hAcc
  | cons b bs ih =>
    rw [nestBranches, nestBranches]
    apply (hBranch b.condition).bind
    intro condition condition' hCondition
    apply (hBranch b.value).bind
    intro value value' hValue
    apply ih
    have hOthers : acc.toList.map caseless = acc'.toList.map caseless := by
      rw [← Option.toList_map, hAcc, Option.toList_map]
    exact congrArg some (caseless_callText_congr (by simp [hCondition, hValue, hOthers]))

theorem agree_armArguments (bs : List Branch) :
    Agree (List.map caseless) (armArguments branch bs) (armArguments branch' bs) := by
  induction bs with
  | nil => exact agree_pure rfl
  | cons b bs ih =>
    rw [armArguments, armArguments]
    apply (hBranch b.condition).bind
    intro condition condition' hCondition
    apply (hBranch b.value).bind
    intro value value' hValue
    apply ih.bind
    intro rest rest' hRest
    exact agree_pure (by simp [hCondition, hValue, hRest])

theorem agree_convertConditional (c : Conditional) :
    Agree caseless (convertConditional branch c) (convertConditional branch' c) := by
  cases c with
  | ifBlock span clauses =>
    apply (agree_optionalBranch hBranch clauses.otherwise).bind
    intro otherwise otherwise' hOtherwise
    apply (agree_nestBranches hBranch _ hOtherwise).bind
    intro text text' hText
    apply agree_remarked
    rw [← Option.getD_map caseless, hText, Option.getD_map]
  | caseBlock span subject clauses =>
    apply (hBranch subject).bind
    intro first first' hFirst
    apply (agree_armArguments hBranch clauses.branches).bind
    intro arms arms' hArms
    apply (agree_optionalBranch hBranch clauses.otherwise).bind
    intro otherwise otherwise' hOtherwise
    have hLast : otherwise.toList.map caseless = otherwise'.toList.map caseless := by
      rw [← Option.toList_map, hOtherwise, Option.toList_map]
    exact agree_remarked _ _ (caseless_callText_congr (by simp [hFirst, hArms, hLast]))

end

theorem agree_spliceConditionals (room : Nat) (h : CaseAlike ls ls') :
    Agree (List.map Lexeme.caseless) (spliceConditionals t room ls) (spliceConditionals t room ls') := by
  induction room generalizing ls ls' with
  | zero => exact agree_failure
  | succ room ih =>
    rw [spliceConditionals, spliceConditionals, h.congr conditionals_caseless]
    apply agree_replaced h (g := id) ?_ rfl
    intro c c' hSame
    obtain rfl : c = c' := hSame
    have hBranch : ∀ s : Span, Agree caseless
        (do return qualified t (← spliceConditionals t room (s.slice ls)))
        (do return qualified t (← spliceConditionals t room (s.slice ls'))) := by
      intro s
      apply (ih (h.slice s)).bind
      intro spliced spliced' hSpliced
      exact agree_pure (CaseAlike.qualified hSpliced)
    apply (agree_convertConditional hBranch c).bind
    intro text text' hText
    exact agree_pure (caseless_verbatim_congr h _ hText)

/-! ## Table calculations -/

theorem agree_standardRemarked (h : CaseAlike ls ls') :
    Agree caseless (standardRemarked t ls) (standardRemarked t ls') :=
  (returns_standardRemarked t ls).agree (returns_standardRemarked t ls') h.standard

theorem asksAscending_congr (h : CaseAlike ls ls') (s : Span) : asksAscending ls s = asksAscending ls' s := by
  refine (h.slice s).congr (f := fun ls => ls.any fun l => (stringContent? l.token).any fun c =>
    equalAsciiCase c "asc".toList) fun ls => ?_
  rw [List.any_map]
  refine congrArg ls.any (funext fun l => ?_)
  obtain ⟨token, text, leading⟩ := l
  cases token <;> simp [Lexeme.caseless, Token.caseless, stringContent?]

theorem agree_convertTableCalc {argument argument' : Span → Splicing (List Char)} (h : CaseAlike ls ls')
    (hArgument : ∀ s, Agree caseless (argument s) (argument' s)) (call : Call) :
    Agree (Option.map caseless) (convertTableCalc t ls argument call)
      (convertTableCalc t ls' argument' call) := by
  unfold convertTableCalc
  cases Formula.TableCalc.ofName? call.name with
  | none => exact agree_pure rfl
  | some function =>
    simp only
    split
    · exact (agree_remark _).bind fun _ _ _ => agree_pure rfl
    split
    · exact (agree_remark _).bind fun _ _ _ => agree_pure rfl
    split
    · rename_i expression order _ _ _
      have hOrder : order.any (asksAscending ls) = order.any (asksAscending ls') :=
        congrArg order.any (funext (asksAscending_congr h))
      apply (hArgument expression).bind
      intro e e' he
      rw [hOrder]
      split
      · exact agree_pure (congrArg some (caseless_callText_congr (by simp [he])))
      · exact agree_pure (congrArg some (caseless_callText_congr (by simp [he])))
    · rename_i expression _ _ _ _
      apply (hArgument expression).bind
      intro e e' he
      apply (agree_remark _).bind
      intro _ _ _
      exact agree_pure (congrArg some (caseless_callText_congr (by simp [he])))
    · rename_i expression offset _ _ _
      apply (hArgument expression).bind
      intro e e' he
      apply (hArgument offset).bind
      intro n n' hn
      apply (agree_remark _).bind
      intro _ _ _
      have hOffset : ∀ rest,
          caseless (callText "OFFSET" (n :: rest)) = caseless (callText "OFFSET" (n' :: rest)) := by
        intro rest
        exact caseless_callText_congr (by simp [hn])
      exact agree_pure (congrArg some (caseless_callText_congr (by simp [he, hOffset])))
    · exact agree_pure rfl

theorem agree_convertArgument {room : Nat}
    (h : Agree (List.map Lexeme.caseless) (spliceTableCalcs t room ls) (spliceTableCalcs t room ls')) :
    Agree caseless (convertArgument t room ls) (convertArgument t room ls') := by
  apply h.bind
  intro spliced spliced' hSpliced
  exact agree_standardRemarked hSpliced

theorem agree_spliceTableCalcs (room : Nat) (h : CaseAlike ls ls') :
    Agree (List.map Lexeme.caseless) (spliceTableCalcs t room ls) (spliceTableCalcs t room ls') := by
  induction room generalizing ls ls' with
  | zero => exact agree_failure
  | succ room ih =>
    simp only [spliceTableCalcs, h.congr (calls_caseless · _)]
    apply agree_replaced h (g := id) ?_ rfl
    intro call call' hCall
    obtain rfl : call = call' := hCall
    have hArgument : ∀ s : Span, Agree caseless (convertArgument t room (s.slice ls))
        (convertArgument t room (s.slice ls')) := by
      intro s
      exact agree_convertArgument (ih (h.slice s))
    apply (agree_convertTableCalc h hArgument call).bind
    intro text text' hText
    cases text with
    | some text =>
      obtain ⟨text', rfl, hSame⟩ := Option.map_eq_some_iff.1 hText.symm
      exact agree_pure (caseless_verbatim_congr h _ hSame.symm)
    | none =>
      obtain rfl := Option.map_eq_none_iff.1 hText.symm
      have hOpening := h.congr (f := (nextSignificant · (call.span.start + 1))) (nextSignificant_caseless · _)
      simp only at hOpening ⊢
      rw [hOpening]
      apply (ih (h.slice _)).bind
      intro inner inner' hInner
      exact agree_pure (congrArg (Replacement.mk _) (((h.slice _).append hInner).append (h.slice _)))

/-! ## Level of detail -/

theorem lodShape_caseless (inner : List Char) (keyword : LodKeyword) (names : List (List Char)) :
    caseless (lodShape t (caseless inner) keyword.caseless (names.map caseless)).written =
      caseless (lodShape t inner keyword names).written := by
  cases keyword <;> cases names <;>
    simp [lodShape, LodKeyword.caseless, Shape.written, Shape.writtenAll, Shape.writtenAll_eq,
      caseless_callText, column_caseless, Function.comp_def]

theorem caseless_lodShape_congr {inner inner' : List Char} {keyword keyword' : LodKeyword}
    {names names' : List (List Char)} (hInner : caseless inner = caseless inner')
    (hKeyword : keyword.caseless = keyword'.caseless) (hNames : names.map caseless = names'.map caseless) :
    caseless (lodShape t inner keyword names).written =
      caseless (lodShape t inner' keyword' names').written := by
  rw [← lodShape_caseless inner, hInner, hKeyword, hNames, lodShape_caseless]

theorem agree_convertLod {inner inner' : List Char} {b b' : LodBlock} (h : CaseAlike ls ls')
    (hInner : caseless inner = caseless inner') (hBlock : b.caseless = b'.caseless) :
    Agree caseless (convertLod t ls inner b) (convertLod t ls' inner' b') := by
  refine (returns_convertLod t ls inner b).agree (returns_convertLod t ls' inner' b') ?_
  simp only [LodBlock.caseless, LodBlock.mk.injEq] at hBlock
  obtain ⟨-, hKeyword, hDimensions, -⟩ := hBlock
  apply caseless_lodShape_congr hInner hKeyword
  rw [hDimensions, List.map_map, List.map_map]
  apply List.map_congr_left
  intro d _
  exact h.congr (f := fun ls => caseless (dimensionName ls d)) fun ls => by
    rw [dimensionName_caseless, caseless_caseless]

theorem agree_convertInner {room : Nat}
    (h : Agree (List.map Lexeme.caseless) (spliceLods t room ls) (spliceLods t room ls')) :
    Agree caseless (convertInner t room ls) (convertInner t room ls') := by
  apply h.bind
  intro ms ms' hLods
  apply (agree_spliceConditionals room hLods).bind
  intro ms ms' hConditionals
  exact agree_convertArgument (agree_spliceTableCalcs room hConditionals)

theorem agree_spliceLods (room : Nat) (h : CaseAlike ls ls') :
    Agree (List.map Lexeme.caseless) (spliceLods t room ls) (spliceLods t room ls') := by
  induction room generalizing ls ls' with
  | zero => exact agree_failure
  | succ room ih =>
    rw [spliceLods_succ, spliceLods_succ]
    have hBlocks := h.congr (f := fun ls => (lodBlocks ls).map LodBlock.caseless) lodBlocks_caseless
    apply agree_replaced h (g := LodBlock.caseless) ?_ hBlocks
    intro b b' hBlock
    have hSame := hBlock
    simp only [LodBlock.caseless, LodBlock.mk.injEq] at hSame
    obtain ⟨hSpan, -, -, hInner⟩ := hSame
    simp only [lodSplicer, hSpan, hInner]
    apply (agree_convertInner (ih (h.slice b'.inner))).bind
    intro inner inner' hText
    apply (agree_convertLod h hText hBlock).bind
    intro text text' hMade
    exact agree_pure (caseless_verbatim_congr h _ hMade)

/-! ## Formulas -/

theorem agree_daxText {kind kind' : Kind} (h : CaseAlike ls ls') (hKind : kind.caseless = kind'.caseless) :
    Agree caseless (daxText t kind ls) (daxText t kind' ls') := by
  cases kind with
  | standard =>
    cases kind' <;> cases hKind
    exact agree_standardRemarked h
  | conditional form =>
    cases kind' <;> cases hKind
    apply (agree_spliceConditionals maxNesting h).bind
    intro ms ms' hSpliced
    exact agree_pure (CaseAlike.qualified hSpliced)
  | tableCalc function =>
    cases kind' <;> cases hKind
    exact agree_convertArgument (agree_spliceTableCalcs maxNesting h)
  | lod keyword dimensions inner =>
    cases kind' with
    | lod keyword' dimensions' inner' =>
      exact agree_convertInner (agree_spliceLods maxNesting h)
    | _ => cases hKind

theorem caseAlike_tokenize {a b : List Char} (h : caseless a = caseless b) :
    CaseAlike (tokenize a) (tokenize b) := by
  rw [CaseAlike, ← tokenize_caseless, h, tokenize_caseless]

def Attempt.caseless : Attempt → Option (Option (Kind × List Char))
  | blank => none
  | tooDeep => some none
  | converted kind _ dax _ => some (some (kind.caseless, Text.caseless dax))

/-- Formulas that are equal but for letter case get equally far, and to texts that are equal but for letter
case. -/
theorem attempt_caseless_congr {a b : List Char} (h : caseless a = caseless b) :
    (attempt t a).caseless = (attempt t b).caseless := by
  have hRows := caseAlike_tokenize h
  have hKind := hRows.congr (f := fun ls => (classify ls).caseless) classify_caseless
  have hText := agree_daxText (t := t) hRows hKind [] []
  have hBlank : allBlank a = allBlank b := by
    rw [← allBlank_caseless, h, allBlank_caseless]
  rw [attempt, attempt, hBlank]
  split
  · rfl
  simp only
  cases hRun : (daxText t (classify (tokenize a)) (tokenize a)).run [] with
  | none =>
    rw [hRun, Option.map_none, eq_comm, Option.map_eq_none_iff] at hText
    rw [hText]
  | some x =>
    rw [hRun, Option.map_some, eq_comm, Option.map_eq_some_iff] at hText
    obtain ⟨y, hRun', hSame⟩ := hText
    rw [hRun']
    exact congrArg (some ∘ some) (Prod.ext hKind hSame.symm)

structure Conversion.EqualButCase (c d : Conversion) : Prop where
  kindName : c.kindName = d.kindName
  functions : c.functions = d.functions
  fields : c.fields = d.fields
  success : c.success = d.success
  issues : c.issues = d.issues
  dax : equalAsciiCase c.dax.toList d.dax.toList = true

theorem Conversion.equalButCase_failed (a b name role issue : String) :
    (failed a name role issue).EqualButCase (failed b name role issue) :=
  ⟨rfl, rfl, rfl, rfl, rfl, by simp [failed, equalAsciiCase]⟩

/-- Formulas that differ in the letter case of names only are converted alike. -/
theorem conversion_recased (t : Target) {a b : String} (name role : String) (h : Recased a.toList b.toList) :
    (Conversion.ofAttempt a name role (attempt t a.toList)).EqualButCase
      (Conversion.ofAttempt b name role (attempt t b.toList)) := by
  have hSame := attempt_caseless_congr (t := t) h.caseless_eq
  obtain ⟨hFunctions, hFields⟩ := h.facts
  cases hFirst : attempt t a.toList with
  | blank =>
    rw [hFirst] at hSame
    cases hSecond : attempt t b.toList <;> rw [hSecond] at hSame <;> cases hSame
    exact Conversion.equalButCase_failed a b name role _
  | tooDeep =>
    rw [hFirst] at hSame
    cases hSecond : attempt t b.toList <;> rw [hSecond] at hSame <;> cases hSame
    exact Conversion.equalButCase_failed a b name role _
  | converted kind facts dax remarks =>
    rw [hFirst] at hSame
    cases hSecond : attempt t b.toList with
    | blank => rw [hSecond] at hSame; cases hSame
    | tooDeep => rw [hSecond] at hSame; cases hSame
    | converted kind' facts' dax' remarks' =>
      rw [hSecond] at hSame
      simp only [Attempt.caseless, Option.some.injEq, Prod.mk.injEq] at hSame
      obtain ⟨hKind, hDax⟩ := hSame
      have hIssues : issues dax = issues dax' := by
        rw [← issues_caseless, hDax, issues_caseless]
      rw [← (run_of_attempt hFirst).2.1, ← (run_of_attempt hSecond).2.1] at hFunctions hFields
      constructor
      · show kind.name = kind'.name
        rw [← kind.name_caseless, hKind, kind'.name_caseless]
      · exact congrArg (List.map String.ofList) hFunctions
      · exact congrArg (List.map String.ofList) hFields
      · exact congrArg List.isEmpty hIssues
      · exact congrArg (List.map Issue.text) hIssues
      · simpa [Conversion.ofAttempt] using equalAsciiCase_iff_caseless.2 hDax

def quietFormula : String :=
  "\x7bFixed [r] : Sum([a])\x7d > 2e1And myShare([b]) <> tRue"

def loudFormula : String :=
  "\x7bfIXED [r] : SUM([a])\x7d > 2e1aND MYSHARE([b]) <> True"

/-- The keyword of a block, functions with and without a counterpart, a word next to the exponent of a number,
and a truth value. -/
theorem conversion_recased_loud :
    Recased quietFormula.toList loudFormula.toList ∧
      (Conversion.ofAttempt quietFormula "Loud" "measure"
        (attempt (Catalogue.builtin.target "Sales" "OrderDate") quietFormula.toList)).EqualButCase
      (Conversion.ofAttempt loudFormula "Loud" "measure"
        (attempt (Catalogue.builtin.target "Sales" "OrderDate") loudFormula.toList)) := by
  have hRecased : Recased quietFormula.toList loudFormula.toList :=
    ⟨tokenize loudFormula.toList, [], by decide +kernel, by decide +kernel, by decide +kernel⟩
  exact ⟨hRecased, conversion_recased _ "Loud" "measure" hRecased⟩

end DaxMigration.Dax
