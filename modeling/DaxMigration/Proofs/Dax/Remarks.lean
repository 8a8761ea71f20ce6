import DaxMigration.Dax.Conversion
import DaxMigration.Proofs.Dax.OneLine
import DaxMigration.Proofs.Dax.Splicing
import DaxMigration.Text.Blank

/-!
# Conversions on one line

A construct is replaced by calls around texts that were converted before it, and every remark on it
puts a name or a number into a sentence. So a formula on one line is converted to a text on one
line, and its notes and issues are on one line each.
-/

namespace DaxMigration.Dax

open Formula Text

/-! ## Remarks -/

def Remark.OneLine (r : Remark) : Prop :=
  Text.OneLine r.text.toList

theorem oneLine_toString (n : Nat) : Text.OneLine (toString n).toList := by
  intro hMem
  have hDigit : '\n'.isDigit = true := by
    refine Nat.isDigit_of_mem_toDigits (b := 10) (n := n) (by decide) (by decide) ?_
    simpa [Nat.repr] using hMem
  cases hDigit

-- Also for literals: each is the text of its characters, and need not be decoded for them.
theorem oneLine_ofList {cs : List Char} (h : Text.OneLine cs) :
    Text.OneLine (String.ofList cs).toList := by
  rwa [String.toList_ofList]

theorem oneLine_name (function : TableCalc) : Text.OneLine function.name.toList := by
  cases function <;> exact oneLine_ofList (by decide)

theorem oneLine_appendText {a b : String} :
    Text.OneLine (a ++ b).toList ↔ Text.OneLine a.toList ∧ Text.OneLine b.toList := by
  rw [String.toList_append, oneLine_append]

theorem oneLine_between {before text after : String} (hBefore : Text.OneLine before.toList)
    (hText : Text.OneLine text.toList) (hAfter : Text.OneLine after.toList) :
    Text.OneLine (before ++ text ++ after).toList :=
  oneLine_appendText.2 ⟨oneLine_appendText.2 ⟨hBefore, hText⟩, hAfter⟩

def Remark.quoted : Remark → List Char
  | lodWithoutDimensions keyword => keyword.spelling
  | unknownLodKeyword quoted | runningOrder quoted | offsetOrder quoted | unsupported quoted => quoted
  | withoutEquivalent _ | wrongArity _ _ | nestedBranches _ | switchArms _ => []

-- A remark puts a name or a number between two parts of a sentence, one of which may be missing.
theorem Remark.oneLine_of_quoted {r : Remark} (h : Text.OneLine r.quoted) : r.OneLine := by
  have hQuoted := oneLine_ofList h
  cases r with
  | lodWithoutDimensions keyword =>
    exact oneLine_appendText.2 ⟨hQuoted, oneLine_ofList (by decide)⟩
  | unknownLodKeyword keyword =>
    exact oneLine_between (oneLine_ofList (by decide)) hQuoted (oneLine_ofList (by decide))
  | withoutEquivalent function =>
    exact oneLine_between (oneLine_ofList (by decide)) (oneLine_name function)
      (oneLine_ofList (by decide))
  | wrongArity function args =>
    refine oneLine_between ?_ (oneLine_toString args) (oneLine_ofList (by decide))
    exact oneLine_appendText.2 ⟨oneLine_name function, oneLine_ofList (by decide)⟩
  | runningOrder column => exact oneLine_appendText.2 ⟨oneLine_ofList (by decide), hQuoted⟩
  | offsetOrder column => exact oneLine_appendText.2 ⟨oneLine_ofList (by decide), hQuoted⟩
  | nestedBranches count =>
    exact oneLine_between (oneLine_ofList (by decide)) (oneLine_toString count)
      (oneLine_ofList (by decide))
  | switchArms count =>
    exact oneLine_between (oneLine_ofList (by decide)) (oneLine_toString count)
      (oneLine_ofList (by decide))
  | unsupported function => exact oneLine_appendText.2 ⟨oneLine_ofList (by decide), hQuoted⟩

theorem oneLine_unsupportedCalls (t : Target) {ls : List Lexeme} (h : ∀ l ∈ ls, l.OneLine) :
    ∀ name ∈ unsupportedCalls t ls, Text.OneLine name := by
  intro name hName
  rw [unsupportedCalls_eq] at hName
  obtain ⟨l, hl, hToken⟩ := exists_of_mem_calledNames (List.mem_filter.1 hName).1
  have hAll := (h l hl).token
  rwa [hToken] at hAll

variable {β γ : Type} {Q : β → Prop} {Q' : γ → Prop}

/-- Begun with remarks that have `R`, the conversion ends with such remarks, and its result has
`Q`. -/
def Gathers (R : Remark → Prop) (m : Splicing β) (Q : β → Prop) : Prop :=
  ∀ remarks more b, m.run remarks = some (b, more) → (∀ r ∈ remarks, R r) →
    Q b ∧ ∀ r ∈ more, R r

section

variable {R : Remark → Prop}

theorem gathers_pure {b : β} (h : Q b) : Gathers R (pure b) Q := by
  intro remarks more b' hRun hRemarks
  cases hRun
  exact ⟨h, hRemarks⟩

theorem gathers_failure : Gathers R failure Q := by
  intro remarks more b hRun
  cases hRun

theorem Gathers.bind {m : Splicing β} {f : β → Splicing γ} (h : Gathers R m Q)
    (hNext : ∀ b, Q b → Gathers R (f b) Q') : Gathers R (m >>= f) Q' := by
  intro remarks more c hRun hRemarks
  rw [StateT.run_bind] at hRun
  obtain ⟨⟨b, between⟩, hFirst, hSecond⟩ := Option.bind_eq_some_iff.1 hRun
  obtain ⟨hResult, hBetween⟩ := h remarks between b hFirst hRemarks
  exact hNext b hResult between more c hSecond hBetween

theorem Gathers.map {m : Splicing β} {f : β → γ} (h : Gathers R m Q)
    (hNext : ∀ b, Q b → Q' (f b)) : Gathers R (f <$> m) Q' := by
  rw [map_eq_pure_bind]
  exact h.bind fun b hResult => gathers_pure (hNext b hResult)

theorem gathers_mapM {f : γ → Splicing β} {xs : List γ} (h : ∀ x ∈ xs, Gathers R (f x) Q) :
    Gathers R (xs.mapM f) fun bs => ∀ b ∈ bs, Q b := by
  induction xs with
  | nil => exact gathers_pure (by simp)
  | cons x xs ih =>
    obtain ⟨hFirst, hRest⟩ := List.forall_mem_cons.1 h
    rw [List.mapM_cons]
    refine hFirst.bind fun b hResult => (ih hRest).bind fun bs hResults => ?_
    exact gathers_pure (List.forall_mem_cons.2 ⟨hResult, hResults⟩)

theorem gathers_remarks {rs : List Remark} (h : ∀ r ∈ rs, R r) :
    Gathers R (modify (· ++ rs) : Splicing Unit) fun _ => True := by
  intro remarks more b hRun hRemarks
  cases hRun
  exact ⟨trivial, List.forall_mem_append.2 ⟨hRemarks, h⟩⟩

theorem gathers_remark {r : Remark} (h : R r) :
    Gathers R (remark r : Splicing Unit) fun _ => True :=
  gathers_remarks (by simpa using h)

end

/-! ## Conditionals -/

section

variable {R : Remark → Prop} {X : List Char → Prop} {branch : Span → Splicing (List Char)}
  (hCall : ∀ name ∈ ["IF", "SWITCH"], ∀ args, (∀ a ∈ args, X a) → X (callText name args))
  (hBranch : ∀ s, Gathers R (branch s) X)
include hBranch

theorem gathers_optionalBranch (s : Option Span) :
    Gathers R (optionalBranch branch s) fun text? => ∀ text ∈ text?, X text := by
  cases s with
  | none => exact gathers_pure (by simp)
  | some s => exact (hBranch s).map fun _ hText => by simpa using hText

theorem gathers_armArguments (bs : List Branch) :
    Gathers R (armArguments branch bs) fun args => ∀ a ∈ args, X a := by
  induction bs with
  | nil => exact gathers_pure (by simp)
  | cons b bs ih =>
    rw [armArguments]
    refine (hBranch _).bind fun condition hCondition => (hBranch _).bind fun value hValue =>
      ih.bind fun args hArgs => gathers_pure ?_
    simpa [hCondition, hValue] using hArgs

include hCall

theorem gathers_nestBranches (bs : List Branch) {acc : Option (List Char)}
    (hAcc : ∀ text ∈ acc, X text) :
    Gathers R (nestBranches branch acc bs) fun text? => ∀ text ∈ text?, X text := by
  induction bs generalizing acc with
  | nil => exact gathers_pure hAcc
  | cons b bs ih =>
    rw [nestBranches]
    refine (hBranch _).bind fun condition hCondition => (hBranch _).bind fun value hValue => ih ?_
    have hArgs : ∀ a ∈ [condition, value] ++ acc.toList, X a := by
      simpa [hCondition, hValue] using hAcc
    simpa using hCall "IF" (by simp) _ hArgs

/-- The texts of the parts go into calls, and the remarks tell how many of them there are. -/
theorem gathers_convertConditional (hEmpty : X []) (hBranches : ∀ n, R (.nestedBranches n))
    (hArmCount : ∀ n, R (.switchArms n)) (c : Conditional) :
    Gathers R (convertConditional branch c) X := by
  cases c with
  | ifBlock span clauses =>
    rw [convertConditional]
    refine (gathers_optionalBranch hBranch _).bind fun otherwise hOtherwise =>
      (gathers_nestBranches hCall hBranch _ hOtherwise).bind fun text hText => ?_
    have hEnd : Gathers R (pure (text.getD [])) X := by
      refine gathers_pure ?_
      cases text with
      | none => exact hEmpty
      | some text => exact hText text rfl
    split
    · exact (gathers_remark (hBranches _)).bind fun _ _ => hEnd
    · exact hEnd
  | caseBlock span subject clauses =>
    rw [convertConditional]
    refine (hBranch _).bind fun subject hSubject =>
      (gathers_armArguments hBranch _).bind fun arms hArms =>
      (gathers_optionalBranch hBranch _).bind fun otherwise hOtherwise => ?_
    have hArgs : ∀ a ∈ subject :: arms ++ otherwise.toList, X a := by
      simp only [List.cons_append, List.forall_mem_cons, List.forall_mem_append]
      exact ⟨hSubject, hArms, by simpa using hOtherwise⟩
    have hEnd : Gathers R (pure (callText "SWITCH" (subject :: arms ++ otherwise.toList))) X :=
      gathers_pure (hCall "SWITCH" (by simp) _ hArgs)
    split
    · exact (gathers_remark (hArmCount _)).bind fun _ _ => hEnd
    · exact hEnd

end

/-! ## Texts on one line -/

/-- All remarks that the conversion leaves are on one line if those that it begins with are, and its
result has `Q`. -/
abbrev Collects (m : Splicing β) (Q : β → Prop) : Prop :=
  Gathers Remark.OneLine m Q

theorem collects_some {text : List Char} (h : Text.OneLine text) :
    Collects (pure (some text)) fun text? => ∀ text ∈ text?, Text.OneLine text :=
  gathers_pure (by simpa using h)

theorem collects_remark (r : Remark) (h : Text.OneLine r.quoted) :
    Collects (remark r : Splicing Unit) fun _ => True :=
  gathers_remark (Remark.oneLine_of_quoted h)

theorem oneLine_callText (name : String) {args : List (List Char)}
    (hName : Text.OneLine name.toList) (h : ∀ a ∈ args, Text.OneLine a) :
    Text.OneLine (callText name args) := by
  have hArgs : Text.OneLine ([',', ' '].intercalate args) := not_mem_intercalate (by decide) h
  simp [callText, commaSeparated, hName, hArgs]

theorem oneLine_call_one (name : String) {a : List Char} (hName : Text.OneLine name.toList)
    (ha : Text.OneLine a) : Text.OneLine (callText name [a]) :=
  oneLine_callText name hName (by simpa using ha)

theorem oneLine_call_two (name : String) {a b : List Char}
    (hName : Text.OneLine name.toList) (ha : Text.OneLine a) (hb : Text.OneLine b) :
    Text.OneLine (callText name [a, b]) :=
  oneLine_callText name hName (by simpa using And.intro ha hb)

section

variable {t : Target} (ht : t.OneLine)
include ht

theorem collects_standardRemarked {ls : List Lexeme} (h : ∀ l ∈ ls, l.OneLine) :
    Collects (standardRemarked t ls) Text.OneLine := by
  unfold standardRemarked
  refine Gathers.bind (gathers_remarks ?_) fun _ _ => gathers_pure (oneLine_standard ht h)
  intro r hMem
  obtain ⟨name, hName, rfl⟩ := List.mem_map.1 hMem
  exact Remark.oneLine_of_quoted (oneLine_unsupportedCalls t h name hName)

end

/-! ## Splicing -/

theorem oneLine_replaceFrom {ls : List Lexeme} (h : ∀ l ∈ ls, l.OneLine) {rs : List Replacement}
    (hAll : ∀ r ∈ rs, ∀ l ∈ r.lexemes, l.OneLine) (cursor : Nat) :
    ∀ l ∈ replaceFrom ls cursor rs, l.OneLine := by
  induction rs generalizing cursor with
  | nil => exact fun l hMem => h l (List.drop_subset _ _ hMem)
  | cons r rs ih =>
    obtain ⟨hFirst, hRest⟩ := List.forall_mem_cons.1 hAll
    rw [replaceFrom]
    simp only [List.forall_mem_append]
    exact ⟨⟨oneLine_slice h _, hFirst⟩, ih hRest _⟩

theorem oneLine_replacement {ls : List Lexeme} (h : ∀ l ∈ ls, l.OneLine) (s : Span)
    {text : List Char} (hText : Text.OneLine text) :
    ∀ l ∈ (Replacement.verbatim ls s text).lexemes, l.OneLine := by
  have hLeading : Text.OneLine ((ls[s.start]?.map Lexeme.leading).getD []) := by
    cases hFirst : ls[s.start]? with
    | none => exact oneLine_nil
    | some l => exact (h l (List.mem_of_getElem? hFirst)).leading
  simpa [Replacement.verbatim] using Lexeme.oneLine_verbatim hText hLeading

/-- The replacements made for some constructs take the place of these. -/
theorem collects_replaced {ls : List Lexeme} (h : ∀ l ∈ ls, l.OneLine) {f : β → Splicing Replacement}
    {xs : List β} (hEach : ∀ x ∈ xs, Collects (f x) fun r => ∀ l ∈ r.lexemes, l.OneLine) :
    Collects (do return replaceSpans ls (← xs.mapM f)) fun ls' => ∀ l ∈ ls', l.OneLine :=
  (gathers_mapM hEach).bind fun _ hAll => gathers_pure (oneLine_replaceFrom h hAll 0)

theorem collects_convertConditional {branch : Span → Splicing (List Char)}
    (hBranch : ∀ s, Collects (branch s) Text.OneLine) (c : Conditional) :
    Collects (convertConditional branch c) Text.OneLine := by
  refine gathers_convertConditional (fun name hName args hArgs => ?_) hBranch oneLine_nil
    (fun _ => Remark.oneLine_of_quoted oneLine_nil) (fun _ => Remark.oneLine_of_quoted oneLine_nil) c
  have hNames : ∀ name ∈ ["IF", "SWITCH"], Text.OneLine name.toList := by decide
  exact oneLine_callText name (hNames name hName) hArgs

section

variable {t : Target} (ht : t.OneLine)
include ht

theorem collects_spliceConditionals (room : Nat) {ls : List Lexeme} (h : ∀ l ∈ ls, l.OneLine) :
    Collects (spliceConditionals t room ls) fun ls' => ∀ l ∈ ls', l.OneLine := by
  induction room generalizing ls with
  | zero => exact gathers_failure
  | succ room ih =>
    rw [spliceConditionals]
    refine collects_replaced h fun c _ => ?_
    refine (collects_convertConditional (fun s => ?_) c).bind fun text hText =>
      gathers_pure (oneLine_replacement h _ hText)
    exact (ih (oneLine_slice h s)).bind fun _ hSpliced => gathers_pure (oneLine_qualified ht hSpliced)

theorem collects_convertTableCalc {ls : List Lexeme} {argument : Span → Splicing (List Char)}
    (hArgument : ∀ s, Collects (argument s) Text.OneLine) (call : Call) :
    Collects (convertTableCalc t ls argument call) fun text? =>
      ∀ text ∈ text?, Text.OneLine text := by
  have hOrder := ht.orderText
  have hRows : Text.OneLine (callText "ALL" [t.tableText]) :=
    oneLine_call_one _ (by decide) ht.tableText
  unfold convertTableCalc
  split
  · exact gathers_pure (by simp)
  split
  · exact (collects_remark (.withoutEquivalent _) oneLine_nil).bind fun _ _ =>
      gathers_pure (by simp)
  split
  · exact (collects_remark (.wrongArity _ _) oneLine_nil).bind fun _ _ =>
      gathers_pure (by simp)
  simp only
  split
  · refine (hArgument _).bind fun e hText => ?_
    have hRanked : ∀ a ∈ [callText "ALL" [t.tableText], e], Text.OneLine a := by
      simpa using And.intro hRows hText
    split
    · refine collects_some (oneLine_callText _ (by decide) ?_)
      exact List.forall_mem_append.2 ⟨hRanked, by decide⟩
    · exact collects_some (oneLine_callText _ (by decide) hRanked)
  · refine (hArgument _).bind fun e hText =>
      (collects_remark (.runningOrder _) hOrder).bind fun _ _ => ?_
    have hUpToHere : Text.OneLine
        (t.orderText ++ " <= ".toList ++ callText "EARLIER" [t.orderText]) := by
      simp [hOrder, oneLine_call_one "EARLIER" (by decide) hOrder]
    have hFilter := oneLine_call_two "FILTER" (by decide) hRows hUpToHere
    exact collects_some (oneLine_call_two _ (by decide) hText hFilter)
  · refine (hArgument _).bind fun e hText => (hArgument _).bind fun n hOffset =>
      (collects_remark (.offsetOrder _) hOrder).bind fun _ _ => ?_
    have hAll := oneLine_call_one "ALLSELECTED" (by decide) hOrder
    have hBy := oneLine_call_one "ORDERBY" (by decide) hOrder
    have hParts : ∀ a ∈ [n, callText "ALLSELECTED" [t.orderText], callText "ORDERBY" [t.orderText]],
        Text.OneLine a := by
      simpa using And.intro hOffset (And.intro hAll hBy)
    have hMoved := oneLine_callText "OFFSET" (by decide) hParts
    exact collects_some (oneLine_call_two _ (by decide) hText hMoved)
  · exact gathers_pure (by simp)

theorem collects_spliceTableCalcs (room : Nat) {ls : List Lexeme} (h : ∀ l ∈ ls, l.OneLine) :
    Collects (spliceTableCalcs t room ls) fun ls' => ∀ l ∈ ls', l.OneLine := by
  induction room generalizing ls with
  | zero => exact gathers_failure
  | succ room ih =>
    rw [spliceTableCalcs]
    refine collects_replaced h fun call _ => ?_
    refine (collects_convertTableCalc ht (fun s => ?_) call).bind fun text? hText => ?_
    · exact (ih (oneLine_slice h s)).bind fun _ hSpliced => collects_standardRemarked ht hSpliced
    split
    · exact gathers_pure (oneLine_replacement h _ (hText _ rfl))
    · refine (ih (oneLine_slice h _)).bind fun inner hInner => gathers_pure ?_
      simp only [List.forall_mem_append]
      exact ⟨⟨oneLine_slice h _, hInner⟩, oneLine_slice h _⟩

theorem collects_convertLod {ls : List Lexeme} (h : ∀ l ∈ ls, l.OneLine) {inner : List Char}
    (hInner : Text.OneLine inner) {b : LodBlock} (hKeyword : Text.OneLine b.keyword.spelling) :
    Collects (convertLod t ls inner b) Text.OneLine := by
  have hDimensions : ∀ d ∈ b.dimensions.map fun d => t.column (dimensionName ls d),
      Text.OneLine d := by
    intro d hMem
    obtain ⟨s, -, rfl⟩ := List.mem_map.1 hMem
    exact ht.column (oneLine_dimensionName h s)
  have hEach (filter : String) (hFilter : Text.OneLine filter.toList) :
      ∀ d ∈ (b.dimensions.map fun d => t.column (dimensionName ls d)).map fun d =>
        callText filter [d], Text.OneLine d := by
    intro d hMem
    obtain ⟨column, hColumn, rfl⟩ := List.mem_map.1 hMem
    exact oneLine_call_one filter hFilter (hDimensions column hColumn)
  have hCall (args : List (List Char)) (hArgs : ∀ a ∈ args, Text.OneLine a) :=
    oneLine_callText "CALCULATE" (by decide) hArgs
  unfold convertLod
  simp only
  split
  · have hRows := oneLine_call_one "ALL" (by decide) ht.tableText
    exact gathers_pure (oneLine_call_two _ (by decide) hInner hRows)
  · have hOthers := oneLine_callText "ALLEXCEPT" (by decide)
      (List.forall_mem_cons.2 ⟨ht.tableText, hDimensions⟩)
    exact gathers_pure (oneLine_call_two _ (by decide) hInner hOthers)
  · exact (collects_remark (.lodWithoutDimensions _) hKeyword).bind fun _ _ =>
      gathers_pure hInner
  · exact (collects_remark (.lodWithoutDimensions _) hKeyword).bind fun _ _ =>
      gathers_pure hInner
  · exact gathers_pure (hCall _ (List.forall_mem_cons.2 ⟨hInner, hEach "VALUES" (by decide)⟩))
  · exact gathers_pure (hCall _ (List.forall_mem_cons.2 ⟨hInner, hEach "ALL" (by decide)⟩))
  · rename_i keyword _ hOther
    rw [hOther] at hKeyword
    exact (collects_remark (.unknownLodKeyword _) hKeyword).bind fun _ _ =>
      gathers_pure hInner

theorem collects_spliceLods (room : Nat) {ls : List Lexeme} (h : ∀ l ∈ ls, l.OneLine) :
    Collects (spliceLods t room ls) fun ls' => ∀ l ∈ ls', l.OneLine := by
  induction room generalizing ls with
  | zero => exact gathers_failure
  | succ room ih =>
    rw [spliceLods]
    refine collects_replaced h fun b hMem => ?_
    refine (ih (oneLine_slice h b.inner)).bind fun _ hLods =>
      (collects_spliceConditionals ht room hLods).bind fun _ hConditionals =>
      (collects_spliceTableCalcs ht room hConditionals).bind fun _ hSpliced =>
      (collects_standardRemarked ht hSpliced).bind fun inner hInner =>
      (collects_convertLod ht h hInner (oneLine_keyword h hMem)).bind fun text hText => ?_
    exact gathers_pure (oneLine_replacement h _ hText)

theorem collects_daxText (kind : Kind) {ls : List Lexeme} (h : ∀ l ∈ ls, l.OneLine) :
    Collects (daxText t kind ls) Text.OneLine := by
  cases kind with
  | standard => exact collects_standardRemarked ht h
  | conditional _ =>
    exact (collects_spliceConditionals ht _ h).bind fun _ hSpliced =>
      gathers_pure (oneLine_qualified ht hSpliced)
  | tableCalc _ =>
    exact (collects_spliceTableCalcs ht _ h).bind fun _ hSpliced =>
      collects_standardRemarked ht hSpliced
  | lod _ _ _ =>
    exact (collects_spliceLods ht _ h).bind fun _ hLods =>
      (collects_spliceConditionals ht _ hLods).bind fun _ hConditionals =>
      (collects_spliceTableCalcs ht _ hConditionals).bind fun _ hSpliced =>
      collects_standardRemarked ht hSpliced

/-- What is made of a formula on one line is on one line. -/
theorem oneLine_attempt {formula dax : List Char} {kind : Kind} {facts : Facts}
    {remarks : List Remark} (hFormula : Text.OneLine formula)
    (h : attempt t formula = .converted kind facts dax remarks) :
    Text.OneLine dax ∧ ∀ r ∈ remarks, r.OneLine := by
  obtain ⟨-, -, hRun⟩ := run_of_attempt h
  exact collects_daxText ht kind (oneLine_tokenize hFormula) [] _ _ hRun (by simp)

end

/-! ## Notes and issues -/

/-- Every note is the text of a remark. -/
theorem exists_of_mem_noteTexts {remarks : List Remark} {note : String}
    (h : note ∈ noteTexts remarks) : ∃ r ∈ remarks, note = r.text := by
  rcases List.mem_append.1 h with hOwn | hLacking
  · obtain ⟨r, hMem, hText⟩ := List.mem_filterMap.1 (List.mem_eraseDups.1 hOwn)
    refine ⟨r, hMem, ?_⟩
    split at hText
    · cases hText
    · exact (Option.some.inj hText).symm
  · obtain ⟨function, hMem, rfl⟩ := List.mem_map.1 hLacking
    obtain ⟨r, hRemark, hText⟩ := List.mem_filterMap.1 (List.mem_eraseDups.1 hMem)
    refine ⟨r, hRemark, ?_⟩
    split at hText
    · exact congrArg unsupportedText (Option.some.inj hText).symm
    · cases hText

theorem Issue.oneLine_text (i : Issue) : Text.OneLine i.text.toList := by
  cases i <;> exact oneLine_ofList (by decide)

structure Conversion.OneLine (c : Conversion) : Prop where
  dax : Text.OneLine c.dax.toList
  notes : ∀ note ∈ c.notes, Text.OneLine note.toList
  issues : ∀ issue ∈ c.issues, Text.OneLine issue.toList

theorem Conversion.oneLine_failed (formula name role : String) {issue : String}
    (h : Text.OneLine issue.toList) : (failed formula name role issue).OneLine where
  dax := oneLine_nil
  notes := by simp [failed]
  issues := by simpa [failed] using h

theorem Conversion.oneLine_ofAttempt {t : Target} (ht : t.OneLine) {formula : String}
    (h : Text.OneLine formula.toList) (name role : String) :
    (ofAttempt formula name role (attempt t formula.toList)).OneLine := by
  cases hAttempt : attempt t formula.toList with
  | blank => exact oneLine_failed _ _ _ (oneLine_ofList (by decide))
  | tooDeep =>
    exact oneLine_failed _ _ _ (oneLine_between (oneLine_ofList (by decide))
      (oneLine_toString maxNesting) (oneLine_ofList (by decide)))
  | converted kind facts dax remarks =>
    obtain ⟨hDax, hRemarks⟩ := oneLine_attempt ht h hAttempt
    refine ⟨oneLine_ofList hDax, fun note hMem => ?_, fun issue hMem => ?_⟩
    · obtain ⟨r, hRemark, rfl⟩ := exists_of_mem_noteTexts hMem
      exact hRemarks r hRemark
    · obtain ⟨i, -, rfl⟩ := List.mem_map.1 hMem
      exact i.oneLine_text

end DaxMigration.Dax
