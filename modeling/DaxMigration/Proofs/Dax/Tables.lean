import DaxMigration.Proofs.Dax.Divisionless
import DaxMigration.Proofs.Dax.Quoting
import DaxMigration.Proofs.Dax.ResolvedTexts

/-!
# Tables that are read back

A column is read as its table's text with a field behind it. A second pass leaves the field to the
table exactly if that text ends in what could name one; and the text is one name exactly if it
stands in quotes, or is spelled like a name and like no literal.
-/

namespace DaxMigration.Dax

open Formula Text

variable (t : Target)

def fieldOf (name : List Char) : Lexeme :=
  ⟨.field name, bracketed name, []⟩

theorem tokenize_column_append (name : List Char) :
    tokenize (t.column name) = tokenize t.tableText ++ [fieldOf name] := by
  have hTable : Settled t.tableText := (passed_tableRef t.table).settled
  have hParted : Scan.Parted (bracketed name) := Scan.parted_cons (by decide) _
  have hField : tokenize (bracketed name) = [fieldOf name] := tokenize_literal .field name
  rw [Target.column, tokenize_append hTable.calm hTable.last hParted, hField]

/-! ## The lexemes of a table -/

/-- No name of a table is respelled, nor one in quotes in front of its field. -/
theorem normalize_column (name : List Char) :
    normalize (tokenize (t.column name)) = tokenize (t.column name) := by
  have hField : ∀ {row : List Lexeme}, (∀ l ∈ row, isNamePart l.token = true) →
      normalize (row ++ [fieldOf name]) = row ++ [fieldOf name] := by
    intro row hRow
    induction row with
    | nil => rfl
    | cons l row ih =>
      obtain ⟨hFirst, hRest⟩ := List.forall_mem_cons.1 hRow
      rw [List.cons_append, normalize, ih hRest]
      cases hToken : l.token <;> first | rfl | simp [hToken, isNamePart] at hFirst
  rw [tokenize_column_append, Target.tableText]
  cases hPlain : isPlainName t.table with
  | true =>
    have hSame : tableRef t.table = t.table := by simp [tableRef, hPlain]
    rw [hSame]
    exact hField (isNamePart_of_plainName hPlain)
  | false =>
    rw [tokenize_tableRef hPlain]
    rfl

/-- The text of a table is read as parts of names, or as one text in quotes. -/
theorem tokens_tableText :
    ∀ l ∈ tokenize t.tableText, isNamePart l.token = true ∨ l.token = .singleQuoted t.table := by
  rw [Target.tableText]
  cases hPlain : isPlainName t.table with
  | true =>
    have hSame : tableRef t.table = t.table := by simp [tableRef, hPlain]
    rw [hSame]
    exact fun l hl => .inl (isNamePart_of_plainName hPlain l hl)
  | false =>
    rw [tokenize_tableRef hPlain]
    simp

theorem isField_of_mem_tableText : ∀ l ∈ tokenize t.tableText, l.token.isField = false := by
  intro l hl
  rcases tokens_tableText t l hl with hPart | hQuoted
  · cases hToken : l.token <;> first | rfl | simp [hToken, isNamePart] at hPart
  · rw [hQuoted]
    rfl

/-- The text of the table ends in what a field directly behind it is taken to belong to. -/
def Target.endsInName : Bool :=
  ((tokenize t.tableText).getLast?.map Lexeme.token).any isTableName

theorem qualify_concat_field {row : List Lexeme} (hRow : ∀ l ∈ row, l.token.isField = false)
    (previous : Option Token) (name : List Char) :
    qualify t previous (row ++ [fieldOf name]) = row ++
      [if ((row.getLast?.map Lexeme.token).or previous).any isTableName then fieldOf name
        else { fieldOf name with text := t.column name }] := by
  induction row generalizing previous with
  | nil => rfl
  | cons l row ih =>
    obtain ⟨hFirst, hRest⟩ := List.forall_mem_cons.1 hRow
    have hLast : ((l :: row).getLast?.map Lexeme.token).or previous =
        (row.getLast?.map Lexeme.token).or (some l.token) := by
      cases row with
      | nil => rfl
      | cons m row => simp [List.getLast?_cons]
    rw [List.cons_append, qualify, ih hRest, hLast, List.cons_append]
    cases hToken : l.token <;> first | rfl | simp [hToken, Token.isField] at hFirst

/-- Spelling and qualification over a column that they wrote: the field is left to its table, or the
table is written in front of it once more. -/
theorem qualified_column (name : List Char) : qualified t (tokenize (t.column name)) =
    if t.endsInName then t.column name else t.tableText ++ t.column name := by
  have hTable : Settled t.tableText := (passed_tableRef t.table).settled
  have hBlank := (isRead_tokenize t.tableText).blank
  have hText : ∀ l : Lexeme, l.leading = [] → Settled l.text →
      render (tokenize t.tableText ++ [l]) = t.tableText ++ l.text := by
    intro l hAttached hSettled
    have hAll : ∀ m ∈ tokenize t.tableText ++ [l], allBlank m.leading = true :=
      List.forall_mem_append.2 ⟨hBlank, by simp [hAttached, allBlank]⟩
    rw [render_eq_trim hAll, written_append, written_tokenize_of_settled hTable]
    simp only [written_cons, written_nil, hAttached, List.nil_append, List.append_nil]
    refine trim_eq_self (fun c hc => ?_) fun c hc => ?_
    · rw [List.head?_append_of_ne_nil _ hTable.filled] at hc
      exact hTable.head c hc
    · rw [List.getLast?_append_of_ne_nil _ hSettled.filled] at hc
      exact hSettled.last c hc
  rw [qualified, normalize_column, tokenize_column_append,
    qualify_concat_field t (isField_of_mem_tableText t), Option.or_none]
  change render (_ ++ [if t.endsInName then _ else _]) = _
  split
  · exact hText _ rfl (settled_literal .field name)
  · exact hText _ rfl (renders_column t name).settled

theorem exists_lparen_of_isCallAt {ls : List Lexeme} {i : Nat} (h : isCallAt ls i = true) :
    ∃ l ∈ ls, l.token = .lparen := by
  unfold isCallAt at h
  split at h
  · rename_i l rest hDrop
    have hParen : (rest.dropWhile Lexeme.isComment).head?.map Lexeme.token = some .lparen := by
      simpa [followedByParen] using (Bool.and_eq_true_iff.1 h).2
    obtain ⟨m, hHead, hToken⟩ := Option.map_eq_some_iff.1 hParen
    have hRest : m ∈ rest := (List.dropWhile_sublist _).subset (List.mem_of_mem_head? hHead)
    exact ⟨m, List.mem_of_mem_drop (hDrop ▸ List.mem_cons_of_mem l hRest), hToken⟩
  · cases h

/-- All standard rules together do no more to a column. -/
theorem standard_column (name : List Char) :
    standard t (tokenize (t.column name)) = qualified t (tokenize (t.column name)) := by
  have hSigns : ∀ l ∈ tokenize (t.column name), l.token ≠ .slash ∧ l.token ≠ .lparen := by
    rw [tokenize_column_append]
    refine List.forall_mem_append.2 ⟨fun l hl => ?_, by simp [fieldOf]⟩
    rcases tokens_tableText t l hl with hPart | hQuoted
    · constructor <;> intro hToken <;> simp [hToken, isNamePart] at hPart
    · simp [hQuoted]
  refine standard_eq_qualified (isRead_tokenize _).blank (fun l hl => (hSigns l hl).1) ?_
  intro i l called text _ hCall
  obtain ⟨m, hm, hParen⟩ := exists_lparen_of_isCallAt hCall
  exact absurd hParen (hSigns m hm).2

/-- A second pass leaves a column as it is exactly if the table's text ends in a name. -/
theorem standard_column_eq_iff (name : List Char) :
    standard t (tokenize (t.column name)) = t.column name ↔ t.endsInName = true := by
  have hFilled : t.tableText ≠ [] := (passed_tableRef t.table).settled.filled
  rw [standard_column, qualified_column]
  cases t.endsInName with
  | true => simp
  | false => simp [hFilled]

/-! ## Tables that are one name -/

def Target.IsNameable : Prop :=
  isPlainName t.table = true →
    isNameText t.table = true ∧ (nameToken t.table).isIdentifier = true

instance : Decidable t.IsNameable :=
  inferInstanceAs (Decidable (_ → _))

theorem tokenize_tableText_of_isNameable (h : t.IsNameable) :
    ∃ l, isTableName l.token = true ∧ tokenize t.tableText = [l] := by
  rw [Target.tableText]
  cases hPlain : isPlainName t.table with
  | true =>
    obtain ⟨hText, hName⟩ := h hPlain
    refine ⟨⟨nameToken t.table, t.table, []⟩, ?_, ?_⟩
    · show isTableName (nameToken t.table) = true
      unfold Token.isIdentifier at hName
      split at hName
      · rename_i hToken
        rw [hToken]
        rfl
      · cases hName
    · have hSame : tableRef t.table = t.table := by simp [tableRef, hPlain]
      rw [hSame]
      exact (whole_name hText []).tokenize_eq rfl
  | false => exact ⟨_, rfl, tokenize_tableRef hPlain⟩

/-- A table that is read as one lexeme is spelled as that lexeme is. -/
theorem isNameable_of_tokenize {l : Lexeme} (hName : isTableName l.token = true)
    (h : tokenize t.tableText = [l]) : t.IsNameable := by
  intro hPlain
  have hTable : Settled t.tableText := (passed_tableRef t.table).settled
  have hSame : t.tableText = t.table := by simp [Target.tableText, tableRef, hPlain]
  have hMem : l ∈ tokenize t.tableText := by simp [h]
  have hText : l.text = t.table := by
    have hWritten := written_tokenize_of_settled hTable
    rwa [h, written_cons, written_nil, leading_of_settled hTable h, List.nil_append,
      List.append_nil, hSame] at hWritten
  have hWhole : Whole l := whole_of_mem_tokenize hMem (by rw [hText, ← hSame]; exact hTable.calm)
  rw [hSame] at hMem
  have hPart := isNamePart_of_plainName hPlain l hMem
  cases hToken : l.token with
  | identifier name =>
    obtain ⟨hSpelled, hRead⟩ := hWhole.nameText hToken
    rw [hText] at hSpelled hRead
    exact ⟨hSpelled, by rw [hRead, hToken]; rfl⟩
  | singleQuoted => simp [hToken, isNamePart] at hPart
  | _ => simp [hToken, isTableName] at hName

/-- A column is read as two lexemes, a name for the table and a field behind it, exactly if its
table is nameable. -/
theorem tokenize_column_iff (name : List Char) :
    (∃ l, isTableName l.token = true ∧ tokenize (t.column name) = [l, fieldOf name]) ↔
      t.IsNameable := by
  constructor
  · rintro ⟨l, hName, hRead⟩
    refine isNameable_of_tokenize t hName ?_
    rw [tokenize_column_append] at hRead
    exact (List.append_inj' (hRead.trans (List.singleton_append).symm) rfl).1
  · intro h
    obtain ⟨l, hName, hRead⟩ := tokenize_tableText_of_isNameable t h
    exact ⟨l, hName, by rw [tokenize_column_append, hRead, List.singleton_append]⟩

/-- What is read as a table and its field is left alone by a second pass. -/
theorem standard_column_of_isNameable (h : t.IsNameable) (name : List Char) :
    standard t (tokenize (t.column name)) = t.column name := by
  obtain ⟨l, hName, hRead⟩ := tokenize_tableText_of_isNameable t h
  refine (standard_column_eq_iff t name).2 ?_
  simp [Target.endsInName, hRead, hName]

-- A reserved spelling, and a letter of a name that is none to the reader.
example : ∀ table ∈ ["TRUE".toList, "a²".toList],
    ¬(⟨fun _ => none, table, []⟩ : Target).IsNameable ∧
      (⟨fun _ => none, table, []⟩ : Target).endsInName = false := by decide +kernel

end DaxMigration.Dax
