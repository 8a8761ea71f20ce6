import DaxMigration.Dax.Standard
import DaxMigration.Formula.Kind
import DaxMigration.Proofs.Formula.Rows

/-!
# Rules on one line

The standard rules take characters from the formula and from the target and add none that ends a
line. Only the upper case of a name is made of other characters than those that were read, and no
upper case ends a line.
-/

namespace DaxMigration

/-! ## Texts -/

namespace Text

variable {a b cs : List Char} {c q : Char}

def OneLine (cs : List Char) : Prop :=
  '\n' ∉ cs

instance (cs : List Char) : Decidable (OneLine cs) :=
  inferInstanceAs (Decidable (¬_))

@[simp]
theorem oneLine_nil : OneLine [] :=
  List.not_mem_nil

@[simp]
theorem oneLine_cons : OneLine (c :: cs) ↔ c ≠ '\n' ∧ OneLine cs := by
  simp [OneLine, eq_comm]

@[simp]
theorem oneLine_append : OneLine (a ++ b) ↔ OneLine a ∧ OneLine b := by
  simp [OneLine]

@[simp]
theorem oneLine_flatMap {α : Type} {xs : List α} {f : α → List Char} :
    OneLine (xs.flatMap f) ↔ ∀ x ∈ xs, OneLine (f x) := by
  simp [OneLine]

theorem OneLine.of_subset (h : OneLine b) (hSubset : a ⊆ b) : OneLine a :=
  fun hMem => h (hSubset hMem)

theorem dropTrailing_subset (p : Char → Bool) (cs : List Char) : dropTrailing p cs ⊆ cs := by
  induction cs with
  | nil => simp
  | cons c cs ih =>
    rw [dropTrailing_cons]
    split
    · simp
    · exact List.cons_subset_cons c ih

theorem OneLine.trim (h : OneLine cs) : OneLine (trim cs) :=
  h.of_subset fun _ hMem => (List.dropWhile_sublist _).subset (dropTrailing_subset _ _ hMem)

theorem OneLine.stripBoth (h : OneLine cs) (p : Char → Bool) : OneLine (stripBoth p cs) :=
  h.of_subset fun _ hMem => (List.dropWhile_sublist _).subset (dropTrailing_subset _ _ hMem)

@[simp]
theorem oneLine_double : OneLine (double q cs) ↔ OneLine cs := by
  induction cs with
  | nil => rfl
  | cons c cs ih =>
    rw [double]
    split
    · rename_i hMark
      simp [ih, hMark]
    · simp [ih]

/-! The upper case of a character ends a line only if the character does. -/

theorem ofNat_ne_newline {n : Nat} (h : 10 < n) : Char.ofNat n ≠ '\n' := by
  intro hSame
  by_cases hValid : n.isValidChar
  · rw [Char.ofNat, dif_pos hValid] at hSame
    have hNat : n = 10 := congrArg Char.toNat hSame
    omega
  · rw [Char.ofNat, dif_neg hValid] at hSame
    exact absurd hSame (by decide)

theorem lt_runImage {runs : List CaseRun} {n image : Nat} (hRuns : ∀ r ∈ runs, 10 < r.image)
    (h : runImage? runs n = some image) : 10 < image := by
  obtain ⟨r, hMem, hImage⟩ := List.exists_of_findSome?_eq_some h
  have hFirst := hRuns r hMem
  unfold CaseRun.image? at hImage
  split at hImage
  · have hSum : n - r.first + r.image = image := Option.some.inj hImage
    omega
  · cases hImage

theorem toUpper_ne_newline (hAscii : c.toNat < 0x80) (h : c ≠ '\n') : c.toUpper ≠ '\n' := by
  have hAll : ∀ n < 0x80, Char.ofNat n ≠ '\n' → (Char.ofNat n).toUpper ≠ '\n' := by decide
  have hThis := hAll c.toNat hAscii
  rw [Char.ofNat_toNat] at hThis
  exact hThis h

theorem oneLine_upperChar (h : c ≠ '\n') : OneLine (upperChar c) := by
  have hRuns : ∀ r ∈ upperRuns, 10 < r.image := by decide +kernel
  have hExpansions : ∀ e ∈ upperExpansions, ∀ n ∈ e.2, 10 < n := by decide
  unfold upperChar mapCase
  split
  · rename_i hAscii
    simp [toUpper_ne_newline hAscii h]
  · split
    · rename_i image hImage
      simp [ofNat_ne_newline (lt_runImage hRuns hImage)]
    · split
      · rename_i ns hLookup
        obtain ⟨before, after, hEntry, -⟩ := List.lookup_eq_some_iff.1 hLookup
        have hImages := hExpansions (c.toNat, ns) (by simp [hEntry])
        intro hMem
        obtain ⟨n, hn, hSame⟩ := List.mem_map.1 hMem
        exact ofNat_ne_newline (hImages n hn) hSame
      · simp [h]

theorem oneLine_upper (h : OneLine cs) : OneLine (upper cs) :=
  oneLine_flatMap.2 fun _ hMem => oneLine_upperChar fun hBreak => h (hBreak ▸ hMem)

end Text

/-! ## Lexemes -/

namespace Formula

open Text

def Token.OneLine : Token → Prop
  | .identifier name | .field name | .singleQuoted name => Text.OneLine name
  | _ => True

structure Lexeme.OneLine (l : Lexeme) : Prop where
  token : l.token.OneLine
  text : Text.OneLine l.text
  leading : Text.OneLine l.leading

theorem Lexeme.oneLine_verbatim {text leading : List Char} (hText : Text.OneLine text)
    (hLeading : Text.OneLine leading) : (Lexeme.verbatim text leading).OneLine :=
  ⟨trivial, hText, hLeading⟩

theorem Lexeme.OneLine.written {l : Lexeme} (h : l.OneLine) : Text.OneLine l.written :=
  oneLine_append.2 ⟨h.leading, h.text⟩

theorem oneLine_content {q : Char} {cs : List Char} (h : OneLine cs) :
    OneLine (readLiteral q cs).content := by
  have hTaken : OneLine ((readLiteral q cs).taken ++ (readLiteral q cs).rest) := by
    rwa [readLiteral_append]
  rw [taken_readLiteral, List.append_assoc, oneLine_append, oneLine_double] at hTaken
  exact hTaken.1

theorem Scan.oneLine_token {c : Char} {rest : List Char} (hFirst : c ≠ '\n') (h : OneLine rest) :
    (scan c rest).token.OneLine := by
  have hForm := form_scan c rest
  generalize scan c rest = s at hForm
  cases hForm with
  | sign hSign =>
    unfold signToken? at hSign
    split at hSign <;> cases hSign <;> trivial
  | pair hPair => cases isPair_of_pairToken hPair <;> trivial
  | line => trivial
  | block => trivial
  | literal hLiteral =>
    cases hLiteral with
    | string => trivial
    | singleQuoted => exact oneLine_content h
    | field => exact oneLine_content h
  | number => trivial
  | name =>
    have hName : OneLine (c :: rest.takeWhile isNameCharacter) :=
      oneLine_cons.2 ⟨hFirst, h.of_subset (List.takeWhile_sublist _).subset⟩
    simp only [Scan.name, nameToken]
    split
    · trivial
    · split
      · trivial
      · exact oneLine_upper hName
  | unknown => trivial

theorem oneLine_tokenize {cs : List Char} (h : OneLine cs) : ∀ l ∈ tokenize cs, l.OneLine := by
  fun_induction tokenize cs with
  | case1 => simp
  | case2 cs c rest hCons s ih =>
    have hAll := h
    rw [← List.takeWhile_append_dropWhile (p := isBlank) (l := cs), hCons, oneLine_append,
      oneLine_cons] at hAll
    obtain ⟨hLeading, hFirst, hRest⟩ := hAll
    have hParts := hRest
    rw [← Scan.scan_append c rest, oneLine_append] at hParts
    refine List.forall_mem_cons.2 ⟨?_, ih hParts.2⟩
    exact ⟨Scan.oneLine_token hFirst hRest, oneLine_cons.2 ⟨hFirst, hParts.1⟩, hLeading⟩

section

variable {ls : List Lexeme} (h : ∀ l ∈ ls, l.OneLine)
include h

theorem oneLine_written : OneLine (written ls) :=
  oneLine_flatMap.2 fun l hMem => (h l hMem).written

theorem oneLine_render : OneLine (render ls) := by
  cases ls with
  | nil => simp [render]
  | cons l rest =>
    obtain ⟨hFirst, hRest⟩ := List.forall_mem_cons.1 h
    exact (oneLine_append.2 ⟨hFirst.text, oneLine_written hRest⟩).trim

theorem oneLine_slice (s : Span) : ∀ l ∈ s.slice ls, l.OneLine :=
  fun l hMem => h l (List.take_subset _ _ (List.drop_subset _ _ hMem))

theorem oneLine_dimensionName (s : Span) : OneLine (dimensionName ls s) := by
  have hSlice := oneLine_slice h s
  unfold dimensionName
  split
  · rename_i name text leading hOnly
    have hMem : Lexeme.mk (.field name) text leading ∈ s.slice ls := by
      refine (List.filter_sublist (p := fun l => !l.isComment)).subset ?_
      rw [hOnly]
      exact List.mem_cons_self
    exact (hSlice _ hMem).token
  · exact (oneLine_render hSlice).stripBoth _

theorem oneLine_lodHead (s : Span) : OneLine (lodHead ls s).1.spelling := by
  unfold lodHead
  split
  · decide
  split
  · decide
  split
  · rename_i name hToken
    obtain ⟨l, hAt, hName⟩ := Option.map_eq_some_iff.1 hToken
    have hAll := (h l (List.mem_of_getElem? hAt)).token
    rw [hName] at hAll
    rw [LodKeyword.spelling_ofName]
    exact hAll
  · exact oneLine_render (oneLine_slice h s)

theorem oneLine_keyword {b : LodBlock} (hMem : b ∈ lodBlocks ls) : OneLine b.keyword.spelling := by
  obtain ⟨i, -, hAt⟩ := found_of_mem_outermost hMem
  have hFixed : OneLine LodKeyword.fixed.spelling := by decide
  unfold lodAt? at hAt
  split at hAt
  · have hParse : parseLod ls i = .ok b := by
      generalize parseLod ls i = outcome at hAt
      cases outcome with
      | ok found => exact congrArg Except.ok (Option.some.inj hAt)
      | error => cases hAt
    unfold parseLod at hParse
    split at hParse
    · cases hParse
    split at hParse
    · cases hParse
    simp only at hParse
    split at hParse
    · split at hParse
      · cases hParse
        exact hFixed
      · cases hParse
    · split at hParse
      · cases hParse
        exact oneLine_lodHead h _
      · cases hParse
  · cases hAt

end

end Formula

namespace Dax

open Formula Text

/-! ## Standard rules -/

structure Target.OneLine (t : Target) : Prop where
  table : Text.OneLine t.table
  orderColumn : Text.OneLine t.orderColumn
  function : ∀ name text, t.function? name = some text → Text.OneLine text

section

variable {t : Target} (ht : t.OneLine)
include ht

theorem Target.OneLine.tableText : Text.OneLine t.tableText := by
  unfold Target.tableText tableRef
  split
  · exact ht.table
  · simp [ht.table]

theorem Target.OneLine.column {name : List Char} (h : Text.OneLine name) :
    Text.OneLine (t.column name) := by
  simp [Target.column, bracketed, ht.tableText, h]

theorem Target.OneLine.orderText : Text.OneLine t.orderText :=
  ht.column ht.orderColumn

theorem oneLine_mapFunctions {ls : List Lexeme} (h : ∀ l ∈ ls, l.OneLine) :
    ∀ l ∈ mapFunctions t ls, l.OneLine := by
  induction ls with
  | nil => simp [mapFunctions]
  | cons l rest ih =>
    obtain ⟨hFirst, hRest⟩ := List.forall_mem_cons.1 h
    rw [mapFunctions]
    split
    · rename_i text hText
      obtain ⟨name, -, hName⟩ := Option.bind_eq_some_iff.1 hText
      have hMapped : Lexeme.OneLine { l with text } :=
        ⟨hFirst.token, ht.function name text hName, hFirst.leading⟩
      exact List.forall_mem_cons.2 ⟨hMapped, ih hRest⟩
    · exact List.forall_mem_cons.2 ⟨hFirst, ih hRest⟩

omit ht in
theorem oneLine_normalize {ls : List Lexeme} (h : ∀ l ∈ ls, l.OneLine) :
    ∀ l ∈ normalize ls, l.OneLine := by
  induction ls with
  | nil => simp [normalize]
  | cons l rest ih =>
    obtain ⟨hFirst, hRest⟩ := List.forall_mem_cons.1 h
    rw [normalize]
    refine List.forall_mem_cons.2 ⟨?_, ih hRest⟩
    split
    · exact ⟨hFirst.token, (by decide : Text.OneLine ['<', '>']), hFirst.leading⟩
    · exact ⟨trivial, (by decide : Text.OneLine ['=']), hFirst.leading⟩
    · rename_i s hToken
      have hName : Text.OneLine s := by
        have hAll := hFirst.token
        rwa [hToken] at hAll
      split
      · exact hFirst
      · exact ⟨trivial, by simp [hName], hFirst.leading⟩
    · exact hFirst

omit ht in
/-- What holds of the lexemes of a row, and of a field with its table if it holds of the field. -/
theorem forall_qualify {P : Lexeme → Prop} {ls : List Lexeme} (h : ∀ l ∈ ls, P l)
    (hField : ∀ (l : Lexeme) name, P l → l.token = .field name → P { l with text := t.column name })
    (previous : Option Token) : ∀ l ∈ qualify t previous ls, P l := by
  induction ls generalizing previous with
  | nil => exact h
  | cons l ls ih =>
    obtain ⟨hFirst, hRest⟩ := List.forall_mem_cons.1 h
    rw [qualify]
    refine List.forall_mem_cons.2 ⟨?_, ih hRest _⟩
    split
    · rename_i name hToken
      split
      · exact hFirst
      · exact hField l name hFirst hToken
    · exact hFirst

theorem oneLine_qualify {ls : List Lexeme} (h : ∀ l ∈ ls, l.OneLine) (previous : Option Token) :
    ∀ l ∈ qualify t previous ls, l.OneLine := by
  refine forall_qualify h (fun l name hLine hToken => ?_) previous
  have hName : Text.OneLine name := by
    have hAll := hLine.token
    rwa [hToken] at hAll
  exact ⟨hLine.token, ht.column hName, hLine.leading⟩

theorem oneLine_qualified {ls : List Lexeme} (h : ∀ l ∈ ls, l.OneLine) :
    Text.OneLine (qualified t ls) :=
  oneLine_render (oneLine_qualify ht (oneLine_normalize h) none)

end

/-! ### Quotients -/

def TermUnit.OneLine (u : TermUnit) : Prop :=
  Text.OneLine u.leading ∧ Text.OneLine u.text

theorem TermUnit.OneLine.written {u : TermUnit} (h : u.OneLine) : Text.OneLine u.written :=
  oneLine_append.2 h

theorem oneLine_join {us : List TermUnit} (h : ∀ u ∈ us, u.OneLine) : Text.OneLine (join us) :=
  oneLine_flatMap.2 fun u hMem => (h u hMem).written

theorem oneLine_applyOperator {acc : List Char} {operator : TermUnit} {factor : List TermUnit}
    (hAcc : Text.OneLine acc) (hOperator : operator.OneLine) (hFactor : ∀ u ∈ factor, u.OneLine) :
    Text.OneLine (applyOperator acc operator factor) := by
  have hJoin := oneLine_join hFactor
  simp only [applyOperator]
  split
  · simp [hAcc, hJoin.trim]
  · simp [hAcc, hOperator.written, hJoin]

theorem oneLine_foldFactors {factors : List (TermUnit × List TermUnit)}
    (h : ∀ f ∈ factors, f.1.OneLine ∧ ∀ u ∈ f.2, u.OneLine) {acc : List Char}
    (hAcc : Text.OneLine acc) :
    Text.OneLine (factors.foldl (fun acc f => applyOperator acc f.1 f.2) acc) := by
  induction factors generalizing acc with
  | nil => exact hAcc
  | cons f factors ih =>
    obtain ⟨hThis, hRest⟩ := List.forall_mem_cons.1 h
    exact ih hRest (oneLine_applyOperator hAcc hThis.1 hThis.2)

theorem oneLine_foldTerm {term : List TermUnit} (h : ∀ u ∈ term, u.OneLine) :
    Text.OneLine (foldTerm term) := by
  simp only [foldTerm]
  split
  · obtain ⟨hFirst, hFactors⟩ := forall_cutAt TermUnit.isOperator h
    refine oneLine_append.2 ⟨?_, oneLine_foldFactors hFactors (oneLine_join hFirst).trim⟩
    generalize (cutAt TermUnit.isOperator term).1 = first at hFirst
    cases first with
    | nil => exact oneLine_nil
    | cons u _ => exact (hFirst u List.mem_cons_self).1
  · exact oneLine_join h

theorem oneLine_foldTerms {us : List TermUnit} (h : ∀ u ∈ us, u.OneLine) :
    Text.OneLine (foldTerms us) := by
  obtain ⟨hFirst, hParts⟩ := forall_cutAt TermUnit.isBoundary h
  refine oneLine_append.2 ⟨oneLine_foldTerm hFirst, oneLine_flatMap.2 fun q hMem => ?_⟩
  obtain ⟨hBoundary, hTerm⟩ := hParts q hMem
  exact oneLine_append.2 ⟨hBoundary.written, oneLine_foldTerm hTerm⟩

mutual

theorem oneLine_unitOf (previous : Option UnitKind) (p : Piece)
    (h : ∀ l ∈ p.flatten, l.OneLine) : (unitOf previous p).OneLine := by
  cases p with
  | leaf l =>
    have hLexeme := h l (by simp [Piece.flatten])
    exact ⟨hLexeme.leading, hLexeme.text⟩
  | group opening inner closing =>
    have hOpening := h opening (by simp [Piece.flatten])
    have hClosing := h closing (by simp [Piece.flatten])
    have hInner := oneLine_units none inner fun l hMem => h l (by simp [Piece.flatten, hMem])
    refine ⟨hOpening.leading, ?_⟩
    simp only [unitOf, oneLine_append]
    exact ⟨⟨hOpening.text, oneLine_foldTerms hInner⟩, hClosing.written⟩

theorem oneLine_units (previous : Option UnitKind) (ps : List Piece)
    (h : ∀ l ∈ Piece.flattenAll ps, l.OneLine) : ∀ u ∈ units previous ps, u.OneLine := by
  cases ps with
  | nil => simp [units]
  | cons p rest =>
    rw [units]
    refine List.forall_mem_cons.2 ⟨?_, ?_⟩
    · exact oneLine_unitOf previous p fun l hMem => h l (by simp [Piece.flattenAll, hMem])
    · exact oneLine_units _ rest fun l hMem => h l (by simp [Piece.flattenAll, hMem])

end

theorem oneLine_convertDivision {ls : List Lexeme} (h : ∀ l ∈ ls, l.OneLine) :
    Text.OneLine (convertDivision ls) :=
  oneLine_foldTerms (oneLine_units none _ (by rwa [flatten_group]))

theorem oneLine_standard {t : Target} (ht : t.OneLine) {ls : List Lexeme}
    (h : ∀ l ∈ ls, l.OneLine) : Text.OneLine (standard t ls) :=
  (oneLine_convertDivision
    (oneLine_qualify ht (oneLine_normalize (oneLine_mapFunctions ht h)) none)).trim

end Dax

end DaxMigration
