import DaxMigration.Proofs.Dax.Expanding
import DaxMigration.Proofs.Dax.Recovered
import DaxMigration.Proofs.Formula.Junctures

/-!
# Resolved texts

Converted text in which no construct is left: the generated calls, around texts without constructs,
and the references that they hold. Such a text stands in the place of an operand.
-/

namespace DaxMigration.Dax

open Formula Text

structure ResolvedText (text : List Char) : Prop where
  settled : text = [] ∨ Settled text
  tokens : Resolved true 0 (tokensOf text)

structure OperandText (text : List Char) : Prop where
  firm : Firm (.verbatim text [])
  tokens : Resolved true 0 (tokensOf text)
  ends : ∀ name, (tokensOf text).getLast? ≠ some (.identifier name)
  begins : ∀ d ∈ text.head?, d ∉ ['=', '>', '/', '*']

theorem OperandText.resolved {text : List Char} (h : OperandText text) : ResolvedText text :=
  ⟨.inr h.firm.settled, h.tokens⟩

theorem OperandText.filled {text : List Char} (h : OperandText text) : tokensOf text ≠ [] := by
  obtain ⟨l, ls, hCons, -⟩ := head_tokenize_of_settled h.firm.settled
  simp [tokensOf, show tokenize text = l :: ls from hCons]

theorem OperandText.expands {text : List Char} (h : OperandText text) {t : Token}
    (hAtom : t.isAtom = true)
    (hField : t.isField = true → (tokensOf text).head? ≠ some .lparen) : Expands true t (tokensOf text) :=
  .spliced hAtom h.filled h.tokens h.ends fun hThis => ⟨rfl, hField hThis⟩

/-! ## Calls -/

def listed : List (List Token) → List Token
  | [] => []
  | [row] => row
  | row :: next :: rows => row ++ .comma :: listed (next :: rows)

theorem resolved_listed {bare : Bool} {rows : List (List Token)} (h : ∀ row ∈ rows, Resolved bare 0 row) :
    Resolved bare (rows.length - 1) (listed rows) := by
  induction rows with
  | nil => exact .nil
  | cons row rows ih =>
    obtain ⟨hRow, hRows⟩ := List.forall_mem_cons.1 h
    cases rows with
    | nil => exact hRow
    | cons next rows =>
      have hRest := hRow.append (by simp) (.comma (ih hRows))
      rwa [Nat.zero_add] at hRest

theorem tokensOf_sign {c : Char} {t : Token} (hBlank : isBlank c = false)
    (hScan : ∀ rest, Scan.scan c rest = ⟨⟨[], rest⟩, t⟩) (cs : List Char) :
    tokensOf (c :: cs) = t :: tokensOf cs := by
  rw [tokensOf, tokenize_separator hBlank hScan]
  rfl

theorem tokensOf_commaSeparated {texts : List (List Char)} (h : ∀ u ∈ texts, u = [] ∨ Settled u)
    (rest : List Char) : tokensOf (commaSeparated texts ++ ')' :: rest) =
      listed (texts.map tokensOf) ++ .rparen :: tokensOf rest := by
  have hClose : ∀ cs, tokensOf (')' :: cs) = .rparen :: tokensOf cs :=
    tokensOf_sign (by decide) fun _ => rfl
  have hComma : ∀ cs, tokensOf (',' :: ' ' :: cs) = .comma :: tokensOf cs := by
    intro cs
    rw [tokensOf_sign (by decide) (fun _ => rfl), show ' ' :: cs = [' '] ++ cs from rfl,
      tokensOf_blank_append (by decide)]
  induction texts with
  | nil => exact hClose rest
  | cons text texts ih =>
    obtain ⟨hText, hTexts⟩ := List.forall_mem_cons.1 h
    cases texts with
    | nil =>
      have hAlone : commaSeparated [text] = text := by simp [commaSeparated, List.intercalate]
      rw [hAlone, tokensOf_append hText (Scan.parted_cons (by decide) _), hClose]
      rfl
    | cons next texts =>
      rw [commaSeparated_cons, List.append_assoc, List.cons_append, List.cons_append,
        tokensOf_append hText (Scan.parted_cons (by decide) _), hComma, ih hTexts]
      simp [listed]

/-- A resolved text has its brackets closed. -/
theorem ResolvedText.even {text : List Char} (h : ResolvedText text) : text = [] ∨ IsEvenText text := by
  refine h.settled.imp id fun hSettled => ⟨hSettled, ?_⟩
  rw [Mode.delimiters_eq_filter, level_filter]
  exact h.tokens.level_eq 0

section Calls

variable {name : String} (hName : name ∈ generatedFunctions) {texts : List (List Char)}

include hName

theorem tokensOf_callText (h : ∀ u ∈ texts, u = [] ∨ Settled u) (rest : List Char) :
    tokensOf (callText name texts ++ rest) = .identifier name.toList :: .lparen ::
      (listed (texts.map tokensOf) ++ .rparen :: tokensOf rest) := by
  have hFunction := Shape.isFunctionName_generated hName
  have hAlone : tokensOf name.toList = [.identifier name.toList] := by
    rw [tokensOf, hFunction.read]
    rfl
  have hText : callText name texts ++ rest = name.toList ++ '(' :: (commaSeparated texts ++ ')' :: rest) := by
    simp [callText]
  rw [hText, tokensOf_append (.inr hFunction.settled) (Scan.parted_cons (by decide) _), hAlone,
    tokensOf_sign (by decide) (fun _ => rfl), tokensOf_commaSeparated h]
  rfl

/-- No generated function is a table calculation. -/
theorem inert_generated : Inert (.identifier name.toList) := by
  have hNone : ∀ name ∈ generatedFunctions, Formula.TableCalc.ofName? name.toList = none := by decide
  exact inert_identifier (hNone name hName)

theorem tokens_callText (h : ∀ u ∈ texts, ResolvedText u) : Resolved true 0 (tokensOf (callText name texts)) := by
  have hRead := tokensOf_callText hName (fun u hu => (h u hu).settled) []
  have hRows : ∀ row ∈ texts.map tokensOf, Resolved true 0 row := by
    intro row hRow
    obtain ⟨u, hu, rfl⟩ := List.mem_map.1 hRow
    exact (h u hu).tokens
  rw [List.append_nil, tokensOf_nil] at hRead
  rw [hRead]
  exact .inert (inert_generated hName) (.group (resolved_listed hRows) .nil)

/-- A generated call stands in the place of an operand. -/
theorem operandText_callText (h : ∀ u ∈ texts, ResolvedText u) : OperandText (callText name texts) where
  firm := by
    have hFunction := Shape.isFunctionName_generated hName
    have hEven : ∀ u ∈ texts, u = [] ∨ IsEvenText u := fun u hu => (h u hu).even
    have hSettled : ∀ u ∈ texts, u = [] ∨ Settled u := fun u hu => (h u hu).settled
    refine ⟨(isArgumentText_callText hFunction hEven).settled, rfl, fun {rest} _ => ?_, fun {rest} _ => ?_⟩
    · have hAlone := tokensOf_callText hName hSettled []
      rw [List.append_nil, tokensOf_nil] at hAlone
      show tokensOf (callText name texts ++ rest) = tokensOf (callText name texts) ++ tokensOf rest
      rw [tokensOf_callText hName hSettled, hAlone]
      simp
    · have hPlain : ∀ c ∈ name.toList, Mode.IsPlain c :=
        fun c hc => Mode.isPlain_of_isNameCharacter (hFunction.plain c hc)
      have hAfter : Mode.code.after (callText name texts) = .code := by
        rw [callText, List.append_assoc, Mode.after_append, Mode.after_of_plain hPlain]
        exact (arguments_spec hEven).1
      show (Mode.code.after (callText name texts)).Resumes rest
      rw [hAfter]
      exact Mode.resumes_code rest
  tokens := tokens_callText hName h
  ends word := by
    have hRead := tokensOf_callText hName (fun u hu => (h u hu).settled) []
    rw [List.append_nil, tokensOf_nil] at hRead
    rw [hRead, ← List.cons_append, ← List.cons_append, List.getLast?_append]
    simp
  begins := by
    have hFirst : ∀ name ∈ generatedFunctions, ∃ c cs, name.toList = c :: cs ∧ c ∉ ['=', '>', '/', '*'] := by
      intro name hMem
      have hLetters : ∀ name ∈ generatedFunctions,
          name.toList ≠ [] ∧ ∀ c ∈ name.toList.head?, c ∉ ['=', '>', '/', '*'] := by decide
      obtain ⟨hFilled, hHead⟩ := hLetters name hMem
      obtain ⟨c, cs, hName⟩ := List.exists_cons_of_ne_nil hFilled
      exact ⟨c, cs, hName, hHead c (by rw [hName]; rfl)⟩
    obtain ⟨c, cs, hCons, hNot⟩ := hFirst name hName
    simpa [callText, hCons] using hNot

end Calls

/-! ## References -/

/-- A token that says nothing about constructs where no bracket follows. -/
def Leaf (t : Token) : Prop :=
  Inert t ∨ t.isIdentifier = true

theorem not_leaf_lparen : ¬Leaf .lparen := by
  rintro (hInert | hName)
  · cases hInert.inner.opens
  · cases hName

theorem resolved_of_leaves {ts : List Token} (h : ∀ t ∈ ts, Leaf t) : Resolved true 0 ts := by
  induction ts with
  | nil => exact .nil
  | cons t ts ih =>
    obtain ⟨hFirst, hRest⟩ := List.forall_mem_cons.1 h
    rcases hFirst with hInert | hName
    · exact .inert hInert (ih hRest)
    · cases t with
      | identifier name =>
        exact .alone rfl (fun hParen => not_leaf_lparen (hRest _ (List.mem_of_mem_head? hParen))) (ih hRest)
      | _ => cases hName

def isNamePart : Token → Bool
  | .identifier _ | .boolean _ | .number _ | .illegal _ => true
  | _ => false

theorem isNamePart_nameToken (name : List Char) : isNamePart (nameToken name) = true := by
  rcases nameToken_cases name with ⟨value, hSame⟩ | ⟨word, hSame⟩ <;> rw [hSame] <;> rfl

theorem leaf_of_isNamePart {t : Token} (h : isNamePart t = true) : Leaf t := by
  cases t with
  | identifier => exact .inr rfl
  | boolean | number => exact .inl (inert_of_isAtom rfl)
  | illegal => exact .inl ⟨⟨rfl, rfl⟩, by simp, rfl, by simp⟩
  | _ => cases h

/-- A plain name may be read as several tokens, but none of them is a sign or a literal in marks. -/
theorem isNamePart_of_plainName {name : List Char} (h : isPlainName name = true) :
    ∀ l ∈ tokenize name, isNamePart l.token = true := by
  have hAll : ∀ c ∈ name, (isAlphanumeric c || c == '_') = true :=
    List.all_eq_true.1 (Bool.and_eq_true_iff.1 h).2
  intro l hl
  obtain ⟨c, rest, hToken, hText, -⟩ := scan_of_mem_tokenize hl
  obtain ⟨trailing, -, hWritten⟩ := written_tokenize name
  have hMem : c ∈ name := by
    rw [← hWritten]
    refine List.mem_append_left _ (List.mem_flatMap.2 ⟨l, hl, ?_⟩)
    rw [Lexeme.written, hText]
    exact List.mem_append_right _ List.mem_cons_self
  have hMark : c ∉ Scan.marks :=
    Scan.not_mem_marks (p := fun c => isAlphanumeric c || c == '_') (by decide) (hAll c hMem)
  rw [hToken, Scan.scan_of_not_mem hMark]
  split
  · rfl
  split
  · exact isNamePart_nameToken _
  · rfl

variable (t : Target)

theorem leaves_tableText : ∀ u ∈ tokensOf t.tableText, Leaf u := by
  rw [Target.tableText, tableRef]
  split
  · intro u hu
    obtain ⟨l, hl, rfl⟩ := List.mem_map.1 hu
    exact leaf_of_isNamePart (isNamePart_of_plainName ‹_› l hl)
  · have hRead := (whole_literal .singleQuoted t.table []).tokensOf_text
    refine (show tokensOf _ = [Token.singleQuoted t.table] from hRead) ▸ ?_
    simpa using .inl (inert_of_isAtom rfl)

theorem resolvedText_tableText : ResolvedText t.tableText where
  settled := .inr (passed_tableRef t.table).settled
  tokens := resolved_of_leaves (leaves_tableText t)

theorem tokensOf_column (name : List Char) {rest : List Char}
    (h : ∀ d ∈ rest.head?, separates d = true) : tokensOf (t.column name ++ rest) =
      tokensOf t.tableText ++ .field name :: tokensOf rest := by
  have hWhole := whole_literal .field name []
  have hTable : Settled t.tableText := (passed_tableRef t.table).settled
  have hEnds : ∀ d ∈ rest.head?, (Token.field name).goesOn d = false :=
    fun d hd => Token.goesOn_of_separates rfl (h d hd)
  have hParted : Scan.Parted (bracketed name ++ rest) := Scan.parted_cons (by decide) _
  rw [Target.column, List.append_assoc, tokensOf_append (.inr hTable) hParted]
  exact congrArg (tokensOf t.tableText ++ ·) (hWhole.reads hEnds).1

/-- A reference begins with its table. -/
theorem head_tokensOf_column (name : List Char) : (tokensOf (t.column name)).head? ≠ some .lparen := by
  have hRead := @tokensOf_column t name [] (by simp)
  rw [List.append_nil, tokensOf_nil] at hRead
  rw [hRead]
  intro hParen
  rcases List.mem_append.1 (List.mem_of_mem_head? hParen) with hTable | hField
  · exact not_leaf_lparen (leaves_tableText t _ hTable)
  · simp at hField

theorem operandText_column (name : List Char) : OperandText (t.column name) where
  firm := by
    have hRenders := renders_column t name
    refine ⟨hRenders.settled, rfl, fun {rest} hRest => ?_, fun {rest} hRest => ?_⟩
    · have hAlone := @tokensOf_column t name [] (by simp)
      rw [List.append_nil, tokensOf_nil] at hAlone
      show tokensOf (t.column name ++ rest) = tokensOf (t.column name) ++ tokensOf rest
      rw [tokensOf_column t name fun d hd => Token.separates_of_admits rfl (hRest d hd), hAlone]
      simp
    · have hEnds : ∀ d ∈ rest.head?, (Token.field name).goesOn d = false :=
        fun d hd => Token.goesOn_of_separates rfl (Token.separates_of_admits rfl (hRest d hd))
      have hResumes := ((whole_literal .field name []).reads hEnds).2
      rw [show Mode.code.after _ = _ from after_literal .field name] at hResumes
      show (Mode.code.after (t.column name)).Resumes rest
      rw [hRenders.after]
      exact hResumes
  tokens := by
    have hRead := @tokensOf_column t name [] (by simp)
    rw [List.append_nil, tokensOf_nil] at hRead
    rw [hRead]
    exact (resolvedText_tableText t).tokens.append (by simp) (.inert (inert_of_isAtom rfl) .nil)
  ends word := by
    have hRead := @tokensOf_column t name [] (by simp)
    rw [List.append_nil, tokensOf_nil] at hRead
    rw [hRead, List.getLast?_append]
    simp
  begins := by
    have hFilled := (passed_tableRef t.table).settled.filled
    obtain ⟨c, cs, hCons⟩ := List.exists_cons_of_ne_nil hFilled
    suffices hFirst : c ∉ ['=', '>', '/', '*'] by
      simpa [Target.column, Target.tableText, hCons] using hFirst
    have hHead : ∀ d ∈ (tableRef t.table).head?, d = '\'' ∨ (isAlphabetic d || d == '_') = true := by
      rw [tableRef]
      split
      · rename_i hName
        intro d hd
        have hLetter := (Bool.and_eq_true_iff.1 hName).1
        rw [Option.mem_def.1 hd] at hLetter
        exact .inr hLetter
      · simp
    have hSigns : ∀ d ∈ ['=', '>', '/', '*'], d ≠ '\'' ∧ (isAlphabetic d || d == '_') = false := by decide
    intro hMem
    obtain ⟨hQuote, hLetter⟩ := hSigns c hMem
    rcases hHead c (by rw [hCons]; rfl) with hSame | hSame
    · exact hQuote hSame
    · rw [hLetter] at hSame
      cases hSame

theorem resolvedText_upToHere : ResolvedText t.upToHere where
  settled := by
    have hArgument : IsArgument t.upToHere := isArgument_texts t _ (by simp)
    by_cases hEmpty : t.upToHere = []
    · exact .inl hEmpty
    · exact .inr (hArgument.isArgumentText hEmpty).settled
  tokens := by
    have hOrder : OperandText t.orderText := operandText_column t t.orderColumn
    have hSettled : Settled t.orderText := hOrder.firm.settled
    have hEarlier : Resolved true 0 (tokensOf (callText "EARLIER" [t.orderText])) :=
      tokens_callText (by decide) (by simpa using hOrder.resolved)
    have hSign : ∀ cs, tokensOf (' ' :: '<' :: '=' :: ' ' :: cs) = .lessEqual :: tokensOf cs := by
      intro cs
      have hScan : tokensOf ('<' :: '=' :: ' ' :: cs) = .lessEqual :: tokensOf (' ' :: cs) := by
        have hDrop : ('<' :: '=' :: ' ' :: cs).dropWhile isBlank = '<' :: '=' :: ' ' :: cs :=
          List.dropWhile_cons_of_neg (by decide)
        rw [tokensOf, tokenize_of_cons hDrop]
        rfl
      rw [show ' ' :: '<' :: '=' :: ' ' :: cs = [' '] ++ '<' :: '=' :: ' ' :: cs from rfl,
        tokensOf_blank_append (by decide), hScan, show ' ' :: cs = [' '] ++ cs from rfl,
        tokensOf_blank_append (by decide)]
    have hText : t.upToHere = t.orderText ++ ' ' :: '<' :: '=' :: ' ' :: callText "EARLIER" [t.orderText] := by
      simp [Target.upToHere]
    rw [hText, tokensOf_append (.inr hSettled) (Scan.parted_cons (by decide) _), hSign]
    exact hOrder.tokens.append (by simp) (.inert ⟨⟨rfl, rfl⟩, by simp, rfl, by simp⟩ hEarlier)

theorem resolvedText_texts :
    ∀ u ∈ [t.tableText, t.orderText, t.upToHere, [], "ASC".toList], ResolvedText u := by
  have hEmpty : ResolvedText [] := ⟨.inl rfl, by rw [tokensOf_nil]; exact .nil⟩
  have hWord : ResolvedText "ASC".toList := by
    have hRead : tokensOf "ASC".toList = [.identifier "ASC".toList] := by decide +kernel
    refine ⟨.inr (settled_of_plain (by decide) (by decide) (by decide)), ?_⟩
    rw [hRead]
    exact .alone rfl (by simp) .nil
  simp only [List.forall_mem_cons]
  exact ⟨resolvedText_tableText t, (operandText_column t t.orderColumn).resolved,
    resolvedText_upToHere t, hEmpty, hWord, by simp⟩

/-! ## Constructs -/

variable {t}

theorem resolvedText_written {s : Shape} (h : s.All ResolvedText) : ResolvedText s.written :=
  h.written fun _ hName _ hTexts => (operandText_callText hName hTexts).resolved

theorem operandText_call {name : String} {args : List Shape} (h : (Shape.call name args).All ResolvedText) :
    OperandText (Shape.call name args).written := by
  refine operandText_callText h.1 ?_
  rw [Shape.writtenAll_eq]
  intro u hu
  obtain ⟨s, hs, rfl⟩ := List.mem_map.1 hu
  exact resolvedText_written (Shape.allOf_iff.1 h.2 s hs)

/-- A block is converted to an operand. -/
theorem operandText_lodShape {inner : List Char} (h : OperandText inner) (keyword : LodKeyword)
    (names : List (List Char)) : OperandText (lodShape t inner keyword names).written := by
  have hAll := all_lodShape (t := t) h.resolved (resolvedText_tableText t)
    (fun d => (operandText_column t d).resolved) keyword names
  cases hShape : lodShape t inner keyword names with
  | text cs =>
    have hSame : cs = inner := by
      cases keyword <;> cases names <;> simp_all [lodShape]
    rw [hSame]
    exact h
  | call name args =>
    rw [hShape] at hAll
    exact operandText_call hAll

/-- A table calculation is converted to an operand. -/
theorem Prescribed.operandText {Converts : List Lexeme → List Char → Prop} {function : TableCalc}
    {rows : List (List Lexeme)} {shape : Shape} (h : Prescribed t Converts function rows shape)
    (hRows : ∀ row ∈ rows, ∀ e, Converts row e → OperandText e) : OperandText shape.written := by
  have hAll := h.all (fun row hRow e he => (hRows row hRow e he).resolved) (resolvedText_texts t)
  cases h <;> exact operandText_call hAll

end DaxMigration.Dax
