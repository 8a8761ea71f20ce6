import DaxMigration.Proofs.Dax.Sustaining

/-!
# Generated calls read back

The call made of a construct is found again in its text: the function, the number of its arguments
and the text of each, at every depth.
-/

namespace DaxMigration.Dax

open Formula Text

namespace Shape

mutual

/-- The lexemes are read as the shape: a text is all of them written out, and a call spans them and
has the arguments of the shape. -/
def Reads : Shape → List Lexeme → Prop
  | text cs, ls => render ls = cs
  | call name args, ls => ∃ spans, parseCall ls 0 = .ok ⟨⟨0, ls.length⟩, name.toList, spans⟩ ∧
      ReadsAll args (spans.map (·.slice ls))

def ReadsAll : List Shape → List (List Lexeme) → Prop
  | [], [] => True
  | s :: rest, row :: rows => s.Reads row ∧ ReadsAll rest rows
  | _, _ => False

end

inductive IsReadable : Shape → Prop
  | text {cs : List Char} (h : IsArgument cs) : IsReadable (.text cs)
  | call {name : String} {args : List Shape} (hName : name ∈ generatedFunctions)
      (hFilled : ∃ s ∈ args, s.written ≠ []) (hArgs : ∀ s ∈ args, s.IsReadable) :
      IsReadable (.call name args)

theorem IsReadable.isArgument {s : Shape} (h : s.IsReadable) : IsArgument s.written := by
  induction h with
  | text h => exact h
  | @call name args hName _ _ ih =>
    refine isArgument_callText hName ?_
    rw [writtenAll_eq]
    intro u hu
    obtain ⟨s, hs, rfl⟩ := List.mem_map.1 hu
    exact (ih s hs).toIsMatched

theorem readsAll_argumentRows {args : List Shape}
    (h : ∀ s ∈ args, ∀ w, s.Reads (indent w (tokenize s.written))) :
    ReadsAll args (argumentRows (writtenAll args)) := by
  have hRest : ∀ shapes : List Shape, (∀ s ∈ shapes, s.Reads (indent [' '] (tokenize s.written))) →
      ReadsAll shapes ((writtenAll shapes).map fun u => indent [' '] (tokenize u)) := by
    intro shapes hShapes
    induction shapes with
    | nil => trivial
    | cons s shapes ih =>
      obtain ⟨hFirst, hOthers⟩ := List.forall_mem_cons.1 hShapes
      exact ⟨hFirst, ih hOthers⟩
  cases args with
  | nil => trivial
  | cons s args =>
    obtain ⟨hFirst, hOthers⟩ := List.forall_mem_cons.1 h
    refine ⟨?_, hRest args fun s hs => hOthers s hs [' ']⟩
    rw [← indent_nil (tokenize s.written)]
    exact hFirst []

theorem isFunctionName_generated {name : String} (h : name ∈ generatedFunctions) :
    IsFunctionName name := by
  have hPlain : ∀ name ∈ generatedFunctions, ∀ c ∈ name.toList, isNameCharacter c = true := by decide
  have hRead : ∀ name ∈ generatedFunctions,
      tokenize name.toList = [⟨.identifier name.toList, name.toList, []⟩] := by decide +kernel
  exact ⟨hPlain name h, hRead name h⟩

/-- A shape is read from its text, also after white space. -/
theorem IsReadable.reads {s : Shape} (h : s.IsReadable) (w : List Char) :
    s.Reads (indent w (tokenize s.written)) := by
  induction h generalizing w with
  | @text cs h =>
    rw [Reads, render_indent, written]
    by_cases hEmpty : cs = []
    · rw [hEmpty, tokenize_nil]
      rfl
    · exact render_tokenize (h.isArgumentText hEmpty).settled
  | @call name args hName hFilled hArgs ih =>
    have hTexts : ∀ u ∈ writtenAll args, u = [] ∨ IsArgumentText u := by
      rw [writtenAll_eq]
      intro u hu
      obtain ⟨s, hs, rfl⟩ := List.mem_map.1 hu
      by_cases hEmpty : s.written = []
      · exact .inl hEmpty
      · exact .inr ((hArgs s hs).isArgument.isArgumentText hEmpty)
    have hSome : ∃ u ∈ writtenAll args, u ≠ [] := by
      obtain ⟨s, hs, hText⟩ := hFilled
      rw [writtenAll_eq]
      exact ⟨s.written, List.mem_map_of_mem hs, hText⟩
    obtain ⟨spans, hParse, hRows⟩ :=
      parseCall_callText (isFunctionName_generated hName) hSome hTexts w
    refine ⟨spans, hParse, ?_⟩
    rw [written, hRows]
    exact readsAll_argumentRows ih

theorem written_call_ne_nil (name : String) (args : List Shape) : (call name args).written ≠ [] := by
  simp [written, callText]

/-- A call is readable if its arguments are, among which is a call. -/
theorem isReadable_around {name : String} (hName : name ∈ generatedFunctions) {args : List Shape}
    (hArgs : ∀ s ∈ args, s.IsReadable) {inner : String} {others : List Shape}
    (hInner : call inner others ∈ args) : (call name args).IsReadable :=
  .call hName ⟨_, hInner, written_call_ne_nil inner others⟩ hArgs

theorem isReadable_single {name : String} (hName : name ∈ generatedFunctions) {cs : List Char}
    (h : IsArgument cs) (hFilled : cs ≠ []) : (call name [text cs]).IsReadable := by
  refine .call hName ⟨_, List.mem_singleton_self _, hFilled⟩ ?_
  simpa using IsReadable.text h

end Shape

/-! ## The calls of constructs -/

variable {t : Target}

theorem isReadable_table (t : Target) {name : String} (hName : name ∈ generatedFunctions) :
    (Shape.call name [.text t.tableText]).IsReadable :=
  Shape.isReadable_single hName (isArgument_texts t _ List.mem_cons_self)
    (passed_tableRef t.table).settled.filled

theorem isReadable_column (t : Target) {name : String} (hName : name ∈ generatedFunctions)
    (d : List Char) : (Shape.call name [.text (t.column d)]).IsReadable :=
  Shape.isReadable_single hName (isArgument_column t d) (renders_column t d).settled.filled

/-- The call for a block. -/
theorem isReadable_lodShape (t : Target) {inner : List Char} (h : IsArgument inner)
    (keyword : LodKeyword) (names : List (List Char)) :
    (lodShape t inner keyword names).IsReadable := by
  have hInner : (Shape.text inner).IsReadable := .text h
  cases keyword with
  | other => exact hInner
  | fixed =>
    cases names with
    | nil =>
      refine @Shape.isReadable_around _ (by decide) _ ?_ "ALL" _
        (List.mem_cons_of_mem _ List.mem_cons_self)
      simpa using ⟨hInner, isReadable_table t (by decide)⟩
    | cons d ds =>
      have hColumns : ∀ s ∈ Shape.text t.tableText :: (d :: ds).map fun d => .text (t.column d),
          s.IsReadable := by
        refine List.forall_mem_cons.2 ⟨.text (isArgument_texts t _ List.mem_cons_self), ?_⟩
        intro s hs
        obtain ⟨d, -, rfl⟩ := List.mem_map.1 hs
        exact .text (isArgument_column t d)
      have hFilter : (Shape.call "ALLEXCEPT"
          (.text t.tableText :: (d :: ds).map fun d => .text (t.column d))).IsReadable :=
        .call (by decide) ⟨_, List.mem_cons_self, (passed_tableRef t.table).settled.filled⟩ hColumns
      refine @Shape.isReadable_around _ (by decide) _ ?_ "ALLEXCEPT" _
        (List.mem_cons_of_mem _ List.mem_cons_self)
      simpa using ⟨hInner, hFilter⟩
  | including | excluding =>
    cases names with
    | nil => exact hInner
    | cons d ds =>
      refine Shape.isReadable_around (by decide) ?_ (List.mem_cons_of_mem _ List.mem_cons_self)
      refine List.forall_mem_cons.2 ⟨hInner, fun s hs => ?_⟩
      obtain ⟨d, -, rfl⟩ := List.mem_map.1 hs
      exact isReadable_column t (by decide) d

/-- A block that is given a filter stays one operand: its text is read as a single call from the first
lexeme to the last, which keeps the operators inside to itself. Without a filter the text is the
expression alone, whose operators stand open to what is around it. -/
theorem parseCall_lodShape (t : Target) {inner : List Char} (h : IsArgument inner)
    {keyword : LodKeyword} {names : List (List Char)}
    (hFilter : lodShape t inner keyword names ≠ .text inner) :
    ∃ spans, parseCall (tokenize (lodShape t inner keyword names).written) 0 =
      .ok ⟨⟨0, (tokenize (lodShape t inner keyword names).written).length⟩, "CALCULATE".toList, spans⟩ := by
  have hReads := (isReadable_lodShape t h keyword names).reads []
  obtain ⟨args, hCall⟩ : ∃ args, lodShape t inner keyword names = .call "CALCULATE" args := by
    cases keyword <;> cases names <;> first | exact ⟨_, rfl⟩ | exact absurd rfl hFilter
  rw [indent_nil] at hReads
  rw [hCall] at hReads ⊢
  obtain ⟨spans, hParse, -⟩ := hReads
  exact ⟨spans, hParse⟩

/-- The call for a table calculation. -/
theorem Prescribed.isReadable {Converts : List Lexeme → List Char → Prop} {function : TableCalc}
    {rows : List (List Lexeme)} {shape : Shape} (h : Prescribed t Converts function rows shape)
    (hRows : ∀ row ∈ rows, ∀ e, Converts row e → IsArgument e) : shape.IsReadable := by
  have hTable : (Shape.call "ALL" [.text t.tableText]).IsReadable := isReadable_table t (by decide)
  have hTexts := isArgument_texts t
  simp only [List.forall_mem_cons] at hTexts
  obtain ⟨-, -, hTest, hEmpty, hAscending, -⟩ := hTexts
  cases h with
  | rank h | rankOrdered h =>
    have hRow : (Shape.text _).IsReadable := .text (hRows _ List.mem_cons_self _ h)
    refine Shape.isReadable_around (by decide) ?_ List.mem_cons_self
    simpa using ⟨hTable, hRow⟩
  | rankAscending h =>
    have hRow : (Shape.text _).IsReadable := .text (hRows _ List.mem_cons_self _ h)
    refine Shape.isReadable_around (by decide) ?_ List.mem_cons_self
    simpa using ⟨hTable, hRow, .text hEmpty, .text hAscending⟩
  | runningSum h =>
    have hRow : (Shape.text _).IsReadable := .text (hRows _ List.mem_cons_self _ h)
    have hFilter : (Shape.call "FILTER"
        [.call "ALL" [.text t.tableText], .text t.upToHere]).IsReadable := by
      refine Shape.isReadable_around (by decide) ?_ List.mem_cons_self
      simpa using ⟨hTable, .text hTest⟩
    refine Shape.isReadable_around (by decide) ?_ (List.mem_cons_of_mem _ List.mem_cons_self)
    simpa using ⟨hRow, hFilter⟩
  | @lookup row offset e n h hOffset =>
    have hRow : (Shape.text e).IsReadable := .text (hRows _ List.mem_cons_self _ h)
    have hSteps : (Shape.text n).IsReadable :=
      .text (hRows _ (List.mem_cons_of_mem _ List.mem_cons_self) _ hOffset)
    have hSelected : (Shape.call "ALLSELECTED" [.text t.orderText]).IsReadable :=
      isReadable_column t (by decide) t.orderColumn
    have hOrder : (Shape.call "ORDERBY" [.text t.orderText]).IsReadable :=
      isReadable_column t (by decide) t.orderColumn
    have hMoved : (Shape.call "OFFSET" [.text n, .call "ALLSELECTED" [.text t.orderText],
        .call "ORDERBY" [.text t.orderText]]).IsReadable := by
      refine Shape.isReadable_around (by decide) ?_ (List.mem_cons_of_mem _ List.mem_cons_self)
      simpa using ⟨hSteps, hSelected, hOrder⟩
    refine Shape.isReadable_around (by decide) ?_ (List.mem_cons_of_mem _ List.mem_cons_self)
    simpa using ⟨hRow, hMoved⟩

end DaxMigration.Dax
