import DaxMigration.Proofs.Dax.Splicing
import DaxMigration.Proofs.Formula.Conditionals
import Mathlib.Data.List.Basic

/-!
# Shapes of generated calls

The calls that level-of-detail blocks and table calculations are converted to, as trees around the
texts of what was converted inside. What a conversion writes is the tree written out.
-/

namespace DaxMigration.Dax

open Formula Text

/-- A text, or a call of a function of the target language. -/
inductive Shape where
  | text (cs : List Char)
  | call (name : String) (args : List Shape)

namespace Shape

mutual

def written : Shape → List Char
  | text cs => cs
  | call name args => callText name (writtenAll args)

def writtenAll : List Shape → List (List Char)
  | [] => []
  | s :: rest => s.written :: writtenAll rest

end

mutual

def All (P : List Char → Prop) : Shape → Prop
  | text cs => P cs
  | call name args => name ∈ generatedFunctions ∧ AllOf P args

def AllOf (P : List Char → Prop) : List Shape → Prop
  | [] => True
  | s :: rest => s.All P ∧ AllOf P rest

end

theorem writtenAll_eq (shapes : List Shape) : writtenAll shapes = shapes.map written := by
  induction shapes with
  | nil => rfl
  | cons s rest ih => rw [writtenAll, ih, List.map_cons]

theorem allOf_iff {P : List Char → Prop} {shapes : List Shape} :
    AllOf P shapes ↔ ∀ s ∈ shapes, s.All P := by
  induction shapes with
  | nil => simp [AllOf]
  | cons s rest ih => simp [AllOf, ih]

theorem All.mono {P Q : List Char → Prop} (hTexts : ∀ u, P u → Q u) :
    ∀ {s : Shape}, s.All P → s.All Q
  | text u, h => hTexts u h
  | call _ _, h => ⟨h.1, allOf_iff.2 fun s hs => All.mono hTexts (allOf_iff.1 h.2 s hs)⟩

/-- What holds of the texts and of every call of such texts holds of what is written. -/
theorem All.written {P : List Char → Prop}
    (hCall : ∀ name ∈ generatedFunctions, ∀ texts, (∀ u ∈ texts, P u) → P (callText name texts)) :
    ∀ {s : Shape}, s.All P → P s.written
  | text _, h => h
  | call name args, h => by
    refine hCall name h.1 _ ?_
    rw [writtenAll_eq]
    intro u hu
    obtain ⟨s, hs, rfl⟩ := List.mem_map.1 hu
    exact All.written hCall (allOf_iff.1 h.2 s hs)

end Shape

/-! ## Level of detail -/

def lodShape (t : Target) (inner : List Char) : LodKeyword → List (List Char) → Shape
  | .fixed, [] => .call "CALCULATE" [.text inner, .call "ALL" [.text t.tableText]]
  | .fixed, d :: ds => .call "CALCULATE" [.text inner,
      .call "ALLEXCEPT" (.text t.tableText :: (d :: ds).map fun d => .text (t.column d))]
  | .including, [] | .excluding, [] | .other _, _ => .text inner
  | .including, d :: ds =>
    .call "CALCULATE" (.text inner :: (d :: ds).map fun d => .call "VALUES" [.text (t.column d)])
  | .excluding, d :: ds =>
    .call "CALCULATE" (.text inner :: (d :: ds).map fun d => .call "ALL" [.text (t.column d)])

/-- Every block is converted to its call. -/
theorem returns_convertLod (t : Target) (ls : List Lexeme) (inner : List Char) (b : LodBlock) :
    Returns (convertLod t ls inner b)
      (lodShape t inner b.keyword (b.dimensions.map (dimensionName ls))).written := by
  unfold convertLod
  cases hKeyword : b.keyword with
  | other keyword => exact (returns_remark _).bind (returns_pure _)
  | fixed =>
    cases hDims : b.dimensions with
    | nil => exact returns_pure _
    | cons d ds =>
      simp only [lodShape, List.map_cons, Shape.written, Shape.writtenAll, Shape.writtenAll_eq,
        List.map_map]
      exact returns_pure _
  | including | excluding =>
    cases hDims : b.dimensions with
    | nil => exact (returns_remark _).bind (returns_pure _)
    | cons d ds =>
      simp only [lodShape, List.map_cons, Shape.written, Shape.writtenAll, Shape.writtenAll_eq,
        List.map_map]
      exact returns_pure _

theorem all_lodShape {P : List Char → Prop} {t : Target} {inner : List Char} (hInner : P inner)
    (hTable : P t.tableText) (hColumn : ∀ d, P (t.column d)) (keyword : LodKeyword)
    (dimensions : List (List Char)) : (lodShape t inner keyword dimensions).All P := by
  cases keyword <;> cases dimensions <;>
    simp [lodShape, Shape.All, Shape.AllOf, Shape.allOf_iff, hInner, hTable, hColumn, generatedFunctions]

/-! ## Table calculations -/

def Target.upToHere (t : Target) : List Char :=
  t.orderText ++ " <= ".toList ++ callText "EARLIER" [t.orderText]

def asksAscendingIn (row : List Lexeme) : Bool :=
  row.any fun l => (stringContent? l.token).any fun c => equalAsciiCase c "asc".toList

/-- The call for a table calculation with the given arguments, where `Converts` says to what an
argument is converted. -/
inductive Prescribed (t : Target) (Converts : List Lexeme → List Char → Prop) :
    TableCalc → List (List Lexeme) → Shape → Prop
  | rank {row : List Lexeme} {e : List Char} (h : Converts row e) :
      Prescribed t Converts .rank [row]
        (.call "RANKX" [.call "ALL" [.text t.tableText], .text e])
  | rankOrdered {row order : List Lexeme} {e : List Char} (h : Converts row e)
      (hOrder : asksAscendingIn order = false) :
      Prescribed t Converts .rank [row, order]
        (.call "RANKX" [.call "ALL" [.text t.tableText], .text e])
  | rankAscending {row order : List Lexeme} {e : List Char} (h : Converts row e)
      (hOrder : asksAscendingIn order = true) :
      Prescribed t Converts .rank [row, order] (.call "RANKX"
        [.call "ALL" [.text t.tableText], .text e, .text [], .text "ASC".toList])
  | runningSum {row : List Lexeme} {e : List Char} (h : Converts row e) :
      Prescribed t Converts .runningSum [row] (.call "CALCULATE"
        [.text e, .call "FILTER" [.call "ALL" [.text t.tableText], .text t.upToHere]])
  | lookup {row offset : List Lexeme} {e n : List Char} (h : Converts row e)
      (hOffset : Converts offset n) :
      Prescribed t Converts .lookup [row, offset] (.call "CALCULATE"
        [.text e, .call "OFFSET" [.text n, .call "ALLSELECTED" [.text t.orderText],
          .call "ORDERBY" [.text t.orderText]]])

theorem Prescribed.all {t : Target} {Converts : List Lexeme → List Char → Prop}
    {function : TableCalc} {rows : List (List Lexeme)} {shape : Shape}
    (h : Prescribed t Converts function rows shape) {P : List Char → Prop}
    (hRows : ∀ row ∈ rows, ∀ e, Converts row e → P e)
    (hTexts : ∀ u ∈ [t.tableText, t.orderText, t.upToHere, [], "ASC".toList], P u) :
    shape.All P := by
  simp only [List.forall_mem_cons, List.not_mem_nil, false_implies, implies_true, and_true] at hTexts
  obtain ⟨hTable, hOrder, hTest, hEmpty, hAscending⟩ := hTexts
  cases h with
  | rank h | rankOrdered h | runningSum h =>
    have hRow := hRows _ List.mem_cons_self _ h
    simp [Shape.All, Shape.AllOf, generatedFunctions, hRow, hTable, hTest]
  | rankAscending h =>
    have hRow := hRows _ List.mem_cons_self _ h
    simp only [Shape.All, Shape.AllOf, hRow, hTable, hEmpty, hAscending, and_true]
    decide
  | lookup h hOffset =>
    have hRow := hRows _ List.mem_cons_self _ h
    have hSecond := hRows _ (List.mem_cons_of_mem _ List.mem_cons_self) _ hOffset
    simp [Shape.All, Shape.AllOf, generatedFunctions, hRow, hSecond, hOrder]

/-- A table calculation with a fitting number of arguments is converted to its call. -/
theorem gives_convertTableCalc {t : Target} {ls : List Lexeme}
    (convert : List Lexeme → Splicing (List Char)) {span : Span} {name : List Char}
    {args : List Span} {function : TableCalc} {result : Option (List Char)}
    (hName : Formula.TableCalc.ofName? name = some function)
    (h : Gives (convertTableCalc t ls (fun s => convert (s.slice ls)) ⟨span, name, args⟩) result) :
    (result = none ∧ args.length ∉ TableCalc.arities function) ∨
      ∃ shape, result = some shape.written ∧
        Prescribed t (fun row e => Gives (convert row) e) function (args.map (·.slice ls)) shape := by
  unfold convertTableCalc at h
  simp only [hName] at h
  split at h
  · rename_i hEmpty
    obtain ⟨_, _, h⟩ := h.of_bind
    refine .inl ⟨gives_pure_iff.1 h, ?_⟩
    rw [List.isEmpty_iff.1 hEmpty]
    simp
  split at h
  · rename_i hArity
    obtain ⟨_, _, h⟩ := h.of_bind
    exact .inl ⟨gives_pure_iff.1 h, by simpa using hArity⟩
  rename_i hArity
  have hArity : args.length ∈ TableCalc.arities function := by simpa using hArity
  right
  cases function with
  | rank =>
    match args, hArity with
    | [s], _ =>
      obtain ⟨e, hRow, h⟩ := h.of_bind
      rw [List.any_nil, if_neg (by decide)] at h
      refine ⟨_, ?_, .rank hRow⟩
      exact gives_pure_iff.1 h
    | [s, o], _ =>
      obtain ⟨e, hRow, h⟩ := h.of_bind
      split at h
      · rename_i hOrder
        have hOrder : asksAscending ls o = true := by simpa using hOrder
        refine ⟨_, ?_, .rankAscending hRow hOrder⟩
        exact gives_pure_iff.1 h
      · rename_i hOrder
        have hOrder : asksAscending ls o = false := by simpa using hOrder
        refine ⟨_, ?_, .rankOrdered hRow hOrder⟩
        exact gives_pure_iff.1 h
  | runningSum =>
    match args, hArity with
    | [s], _ =>
      obtain ⟨e, hRow, h⟩ := h.of_bind
      obtain ⟨_, _, h⟩ := h.of_bind
      refine ⟨_, ?_, .runningSum hRow⟩
      exact gives_pure_iff.1 h
  | lookup =>
    match args, hArity with
    | [s, o], _ =>
      obtain ⟨e, hRow, h⟩ := h.of_bind
      obtain ⟨n, hOffset, h⟩ := h.of_bind
      obtain ⟨_, _, h⟩ := h.of_bind
      refine ⟨_, ?_, .lookup hRow hOffset⟩
      exact gives_pure_iff.1 h
  | runningAvg | windowSum | windowAvg | previousValue => cases hArity

/-- The call is prescribed where the arguments are converted and their number fits. -/
theorem exists_prescribed {t : Target} {Converts : List Lexeme → List Char → Prop}
    {function : TableCalc} {rows : List (List Lexeme)} (hArity : rows.length ∈ TableCalc.arities function)
    (hRows : ∀ row ∈ rows, ∃ e, Converts row e) : ∃ shape, Prescribed t Converts function rows shape := by
  cases function with
  | rank =>
    match rows, hArity with
    | [row], _ =>
      obtain ⟨e, hRow⟩ := hRows row List.mem_cons_self
      exact ⟨_, .rank hRow⟩
    | [row, order], _ =>
      obtain ⟨e, hRow⟩ := hRows row List.mem_cons_self
      cases hOrder : asksAscendingIn order with
      | false => exact ⟨_, .rankOrdered hRow hOrder⟩
      | true => exact ⟨_, .rankAscending hRow hOrder⟩
  | runningSum =>
    match rows, hArity with
    | [row], _ =>
      obtain ⟨e, hRow⟩ := hRows row List.mem_cons_self
      exact ⟨_, .runningSum hRow⟩
  | lookup =>
    match rows, hArity with
    | [row, offset], _ =>
      obtain ⟨e, hRow⟩ := hRows row List.mem_cons_self
      obtain ⟨n, hOffset⟩ := hRows offset (List.mem_cons_of_mem _ List.mem_cons_self)
      exact ⟨_, .lookup hRow hOffset⟩
  | runningAvg | windowSum | windowAvg | previousValue => cases hArity

section Returning

variable {t : Target} {ls : List Lexeme} {convert : List Lexeme → Splicing (List Char)} {span : Span}
  {name : List Char} {args : List Span} {function : TableCalc}
  (hName : Formula.TableCalc.ofName? name = some function)

include hName

theorem Prescribed.returns {shape : Shape}
    (h : Prescribed t (fun row e => Returns (convert row) e) function (args.map (·.slice ls)) shape) :
    Returns (convertTableCalc t ls (fun s => convert (s.slice ls)) ⟨span, name, args⟩)
      (some shape.written) := by
  unfold convertTableCalc
  simp only [hName]
  generalize hRows : args.map (·.slice ls) = rows at h
  cases h with
  | rank hRow =>
    match args, hRows with
    | [s], hRows =>
      cases hRows
      exact hRow.bind (returns_pure _)
  | @rankOrdered row order e hRow hOrder =>
    match args, hRows with
    | [s, o], hRows =>
      cases hRows
      have hSpan : [o].any (asksAscending ls) = false := by
        simpa using (show asksAscending ls o = _ from hOrder)
      refine hRow.bind ?_
      rw [hSpan]
      exact returns_pure _
  | @rankAscending row order e hRow hOrder =>
    match args, hRows with
    | [s, o], hRows =>
      cases hRows
      have hSpan : [o].any (asksAscending ls) = true := by
        simpa using (show asksAscending ls o = _ from hOrder)
      refine hRow.bind ?_
      rw [hSpan]
      exact returns_pure _
  | runningSum hRow =>
    match args, hRows with
    | [s], hRows =>
      cases hRows
      exact hRow.bind ((returns_remark _).bind (returns_pure _))
  | lookup hRow hOffset =>
    match args, hRows with
    | [s, o], hRows =>
      cases hRows
      exact hRow.bind (hOffset.bind ((returns_remark _).bind (returns_pure _)))

/-- A call with another number of arguments is kept. -/
theorem returns_none_convertTableCalc (hArity : args.length ∉ TableCalc.arities function) :
    Returns (convertTableCalc t ls (fun s => convert (s.slice ls)) ⟨span, name, args⟩) none := by
  unfold convertTableCalc
  simp only [hName]
  split
  · exact (returns_remark _).bind (returns_pure _)
  · rw [if_pos (by simpa using hArity)]
    exact (returns_remark _).bind (returns_pure _)

end Returning

/-! ## Conditionals -/

section Conditionals

variable {branch : Span → Splicing (List Char)} {P : List Char → Prop}

/-- The calls of `IF` around a fallback, if there is one. -/
theorem gives_nestBranches {fallback : List Shape} {acc result : Option (List Char)}
    {bs : List Branch} (hFallback : Shape.AllOf P fallback)
    (hAcc : acc.toList = Shape.writtenAll fallback) (hBs : bs ≠ [])
    (hParts : ∀ b ∈ bs, ∀ u, Gives (branch b.condition) u ∨ Gives (branch b.value) u → P u)
    (h : Gives (nestBranches branch acc bs) result) :
    ∃ args, result = some (Shape.call "IF" args).written ∧ Shape.AllOf P args := by
  induction bs generalizing fallback acc with
  | nil => exact absurd rfl hBs
  | cons b bs ih =>
    obtain ⟨hFirst, hRest⟩ := List.forall_mem_cons.1 hParts
    obtain ⟨condition, hCondition, h⟩ := h.of_bind
    obtain ⟨value, hValue, h⟩ := h.of_bind
    have hArgs : Shape.AllOf P (.text condition :: .text value :: fallback) :=
      ⟨hFirst condition (.inl hCondition), hFirst value (.inr hValue), hFallback⟩
    have hWritten : callText "IF" ([condition, value] ++ acc.toList) =
        (Shape.call "IF" (.text condition :: .text value :: fallback)).written := by
      simp [Shape.written, Shape.writtenAll, hAcc]
    rw [hWritten] at h
    cases bs with
    | nil => exact ⟨_, gives_pure_iff.1 h, hArgs⟩
    | cons next bs =>
      have hNext : Shape.AllOf P [.call "IF" (.text condition :: .text value :: fallback)] :=
        ⟨⟨by decide, hArgs⟩, trivial⟩
      exact ih hNext rfl (by simp) hRest h

theorem gives_armArguments {bs : List Branch} {texts : List (List Char)}
    (hParts : ∀ b ∈ bs, ∀ u, Gives (branch b.condition) u ∨ Gives (branch b.value) u → P u)
    (h : Gives (armArguments branch bs) texts) : ∀ u ∈ texts, P u := by
  induction bs generalizing texts with
  | nil =>
    rw [gives_pure_iff.1 h]
    simp
  | cons b bs ih =>
    obtain ⟨hFirst, hRest⟩ := List.forall_mem_cons.1 hParts
    obtain ⟨condition, hCondition, h⟩ := h.of_bind
    obtain ⟨value, hValue, h⟩ := h.of_bind
    obtain ⟨others, hOthers, h⟩ := h.of_bind
    rw [gives_pure_iff.1 h]
    simp only [List.forall_mem_cons]
    exact ⟨hFirst condition (.inl hCondition), hFirst value (.inr hValue), ih hRest hOthers⟩

theorem gives_optionalBranch {s : Option Span} {result : Option (List Char)}
    (hParts : ∀ span ∈ s, ∀ u, Gives (branch span) u → P u)
    (h : Gives (optionalBranch branch s) result) : ∀ u ∈ result.toList, P u := by
  cases s with
  | none =>
    rw [gives_pure_iff.1 h]
    simp
  | some s =>
    obtain ⟨u, hu, rfl⟩ := h.of_map
    simpa using hParts s rfl u hu

theorem allOf_texts {texts : List (List Char)} (h : ∀ u ∈ texts, P u) :
    Shape.AllOf P (texts.map .text) ∧ Shape.writtenAll (texts.map .text) = texts := by
  constructor
  · simpa [Shape.allOf_iff, Shape.All] using h
  · simp [Shape.writtenAll_eq, Shape.written, Function.comp_def]

theorem parts_of_branch {c : Clauses} (hParts : ∀ s ∈ c.spans, ∀ u, Gives (branch s) u → P u) :
    ∀ b ∈ c.branches, ∀ u, Gives (branch b.condition) u ∨ Gives (branch b.value) u → P u := by
  have hMem : ∀ b ∈ c.branches, b.condition ∈ c.spans ∧ b.value ∈ c.spans := by
    intro b hb
    constructor <;> refine List.mem_append_left _ (List.mem_flatMap.2 ⟨b, hb, ?_⟩) <;> simp
  rintro b hb u (hu | hu)
  · exact hParts _ (hMem b hb).1 u hu
  · exact hParts _ (hMem b hb).2 u hu

/-- A conditional is converted to a call around its converted parts. -/
theorem gives_convertConditional {c : Conditional} {text : List Char}
    (hParts : ∀ s ∈ c.parts, ∀ u, Gives (branch s) u → P u)
    (h : Gives (convertConditional branch c) text) :
    ∃ name args, text = (Shape.call name args).written ∧ (Shape.call name args).All P := by
  have hClauses : ∀ s ∈ c.clauses.spans, ∀ u, Gives (branch s) u → P u := by
    intro s hs
    cases c with
    | ifBlock span clauses => exact hParts s hs
    | caseBlock span subject clauses => exact hParts s (List.mem_cons_of_mem _ hs)
  have hOtherwise : ∀ s ∈ c.clauses.otherwise, ∀ u, Gives (branch s) u → P u :=
    fun s hs => hClauses s (List.mem_append_right _ (by simpa using hs))
  cases c with
  | ifBlock span clauses =>
    obtain ⟨fallback, hFallback, h⟩ := h.of_bind
    obtain ⟨made, hMade, h⟩ := h.of_bind
    obtain ⟨hAll, hWritten⟩ := allOf_texts (gives_optionalBranch hOtherwise hFallback)
    have hBranches : ∀ b ∈ clauses.branches.reverse, ∀ u,
        Gives (branch b.condition) u ∨ Gives (branch b.value) u → P u :=
      fun b hb => parts_of_branch hClauses b (List.mem_reverse.1 hb)
    obtain ⟨args, rfl, hArgs⟩ :=
      gives_nestBranches hAll hWritten.symm (by simp [Clauses.branches]) hBranches hMade
    refine ⟨"IF", args, ?_, by decide, hArgs⟩
    split at h
    · obtain ⟨_, _, h⟩ := h.of_bind
      exact gives_pure_iff.1 h
    · exact gives_pure_iff.1 h
  | caseBlock span subject clauses =>
    obtain ⟨first, hFirst, h⟩ := h.of_bind
    obtain ⟨arms, hArms, h⟩ := h.of_bind
    obtain ⟨fallback, hFallback, h⟩ := h.of_bind
    have hTexts : ∀ u ∈ first :: arms ++ fallback.toList, P u := by
      rw [List.cons_append, List.forall_mem_cons, List.forall_mem_append]
      exact ⟨hParts subject List.mem_cons_self first hFirst,
        gives_armArguments (parts_of_branch hClauses) hArms,
        gives_optionalBranch hOtherwise hFallback⟩
    obtain ⟨hAll, hWritten⟩ := allOf_texts hTexts
    refine ⟨"SWITCH", (first :: arms ++ fallback.toList).map .text, ?_, by decide, hAll⟩
    rw [Shape.written, hWritten]
    split at h
    · obtain ⟨_, _, h⟩ := h.of_bind
      exact gives_pure_iff.1 h
    · exact gives_pure_iff.1 h

end Conditionals

end DaxMigration.Dax
