import DaxMigration.Proofs.Dax.Neighbours
import DaxMigration.Proofs.Dax.Respelling
import DaxMigration.Proofs.Dax.Weights

/-!
# Rules for single lexemes

The rules for single lexemes respell the lexemes of an expression one by one. A field with its table
is written as one lexeme; the row that the text is read as has two lexemes for it.
-/

namespace DaxMigration.Dax

open Formula Text Divisible

/-! ## Lexemes as they are read -/

def unglue (t : Target) (l : Lexeme) : List Lexeme :=
  match l.token with
  | .field name => [⟨t.tableToken, t.tableText, l.leading⟩, ⟨.field name, bracketed name, []⟩]
  | .identifier _ => [⟨nameToken l.text, l.text, l.leading⟩]
  | _ => [l]

theorem isFactorSign_nameToken (name : List Char) : isFactorSign (nameToken name) = false := by
  rcases nameToken_cases name with ⟨value, hSame⟩ | ⟨word, hSame⟩ <;> rw [hSame] <;> rfl

theorem isFactorSign_of_isTable {s : Token} (h : IsTable s) : isFactorSign s = false := by
  cases h <;> rfl

variable {t : Target}

/-- The first of the lexemes keeps the white space, and is an operator only if the lexeme is. -/
theorem unglue_eq (ht : t.IsReadable) (l : Lexeme) : ∃ m ms, unglue t l = m :: ms ∧
    m.leading = l.leading ∧ isFactorSign m.token = isFactorSign l.token ∧
    ∀ leading, unglue t { l with leading := leading } = { m with leading := leading } :: ms := by
  unfold unglue
  split
  · rename_i name hToken
    refine ⟨_, _, rfl, rfl, ?_, fun leading => ?_⟩
    · rw [hToken, isFactorSign_of_isTable ht.table]
      rfl
    · rw [hToken]
  · rename_i name hToken
    refine ⟨_, _, rfl, rfl, ?_, fun leading => ?_⟩
    · rw [hToken, isFactorSign_nameToken]
      rfl
    · rw [hToken]
  · exact ⟨l, [], rfl, rfl, rfl, fun leading => rfl⟩

theorem leadOf_unglue (ht : t.IsReadable) (ls : List Lexeme) :
    leadOf (ls.flatMap (unglue t)) = leadOf ls := by
  cases ls with
  | nil => rfl
  | cons l ls =>
    obtain ⟨m, ms, hSame, hLeading, hSign, _⟩ := unglue_eq ht l
    simp [hSame, leadOf, hSign, hLeading]

theorem unlead_unglue (ht : t.IsReadable) (ls : List Lexeme) :
    unlead (ls.flatMap (unglue t)) = (unlead ls).flatMap (unglue t) := by
  cases ls with
  | nil => rfl
  | cons l ls =>
    obtain ⟨m, ms, hSame, _, hSign, hMoved⟩ := unglue_eq ht l
    by_cases h : isFactorSign l.token <;> simp [hSame, unlead, hSign, h, hMoved]

theorem spaced_unglue (ht : t.IsReadable) (ls : List Lexeme) :
    spaced (ls.flatMap (unglue t)) = (spaced ls).flatMap (unglue t) := by
  cases ls with
  | nil => rfl
  | cons l ls =>
    obtain ⟨m, ms, hSame, _, _, hMoved⟩ := unglue_eq ht l
    simp [hSame, spaced, hMoved]

theorem unglue_divideName (leading : List Char) :
    unglue t (divideName leading) = [divideName leading] := by
  have hToken : nameToken "DIVIDE".toList = .identifier "DIVIDE".toList := by decide
  show [Lexeme.mk (nameToken "DIVIDE".toList) "DIVIDE".toList leading] = _
  rw [hToken]
  rfl

theorem isTranslation_unglue (ht : t.IsReadable) : IsTranslation (unglue t) where
  filled l := by
    obtain ⟨m, ms, hSame, _⟩ := unglue_eq ht l
    simp [hSame]
  quotient left right := by
    have hSigns : unglue t openSign = [openSign] ∧ unglue t commaSign = [commaSign] ∧
        unglue t zeroSign = [zeroSign] ∧ unglue t closeSign = [closeSign] := ⟨rfl, rfl, rfl, rfl⟩
    obtain ⟨hOpen, hComma, hZero, hClose⟩ := hSigns
    simp [quotient, leadOf_unglue ht, unlead_unglue ht, spaced_unglue ht, unglue_divideName, hOpen,
      hComma, hZero, hClose]

def tokenOf (l : Lexeme) : List Token := [l.token]

theorem flatMap_tokenOf (ls : List Lexeme) : ls.flatMap tokenOf = ls.map Lexeme.token := by
  induction ls with
  | nil => rfl
  | cons l ls ih => simp [tokenOf, ih]

theorem isTranslation_tokenOf : IsTranslation tokenOf where
  filled l := by simp [tokenOf]
  quotient left right := by
    have hUnlead : (unlead left).map Lexeme.token = left.map Lexeme.token := by
      cases left with
      | nil => rfl
      | cons l ls => by_cases h : isFactorSign l.token <;> simp [unlead, h]
    have hSpaced : (spaced right).map Lexeme.token = right.map Lexeme.token := by
      cases right <;> rfl
    simp only [flatMap_tokenOf, quotient, List.map_append, List.map_cons, List.map_nil, hUnlead,
      hSpaced]
    rfl

theorem divided_map_token (ls : List Lexeme) :
    (divided ls).map Lexeme.token = divided (ls.map Lexeme.token) ∧
      ((Pass.start.run ls).frames = [] ↔
        (Pass.start.run (ls.map Lexeme.token)).frames = []) := by
  have hAll : ∀ l ∈ ls, Translates tokenOf l := fun l _ => .one rfl (.refl _)
  have hDivided := divided_flatMap isTranslation_tokenOf hAll
  rw [flatMap_tokenOf, flatMap_tokenOf] at hDivided
  exact ⟨hDivided.1.symm, hDivided.2⟩

/-! ## Respelled lexemes -/

/-- A lexeme that is read on its own, from a text that stands on its own. -/
structure Clear (l : Lexeme) : Prop where
  whole : Whole l
  solid : Solid l
  terminated : l.isTerminated = true

theorem Clear.with_leading {l : Lexeme} (h : Clear l) {leading : List Char}
    (hBlank : allBlank leading = true) : Clear { l with leading := leading } :=
  ⟨⟨h.whole.scanned, h.whole.calm⟩, h.solid.with_leading hBlank, h.terminated⟩

theorem Clear.settled {l : Lexeme} (h : Clear l) (hComment : l.isComment = false) :
    Settled l.text :=
  ⟨h.whole.calm, h.whole.quiet hComment, h.solid.trimmed.filled, h.solid.trimmed.head,
    h.solid.trimmed.last⟩

structure Respelt (t : Target) (l l' : Lexeme) : Prop where
  solid : Solid l'
  leading : l'.leading = l.leading
  text : written (unglue t l') = l'.written
  tokens : (unglue t l').map Lexeme.token = Token.respelled t l.token
  clear : ∀ m ∈ unglue t l', Clear m
  translates : Translates (unglue t) l'
  word : ∀ m ∈ unglue t l', m.token.isKeyword = true → m.token = l.token

theorem Respelt.of_single {l l' : Lexeme} (hSame : unglue t l' = [l'])
    (hToken : Token.respelled t l.token = [l'.token]) (hLeading : l'.leading = l.leading)
    (hWord : l'.token.isKeyword = true → l'.token = l.token) (hClear : Clear l') :
    Respelt t l l' where
  solid := hClear.solid
  leading := hLeading
  text := by simp [hSame, Lexeme.written]
  tokens := by simp [hSame, hToken]
  clear := by simpa [hSame] using hClear
  translates := .one hSame (.refl _)
  word := by simpa [hSame] using hWord

theorem respelt_name (ht : t.IsReadable) {l : Lexeme} (hClear : Clear l) {name text : List Char}
    (hToken : l.token = .identifier name)
    (hName : isKeyword name = false ∨ (Token.identifier name).isOperatorWord = true)
    (hText : isNameText text = true) (hSame : nameToken text = .identifier (rename t name)) :
    Respelt t l { l with text := text } := by
  have hUnglue : unglue t { l with text := text } = [⟨nameToken text, text, l.leading⟩] := by
    unfold unglue
    rw [hToken]
  have hSettled := settled_name hText
  have hKept : isKeyword name = true → rename t name = name := by
    intro hKeyword
    have hWord := respelled_word ht (hName.resolve_left (by simp [hKeyword]))
    simpa [Token.respelled] using hWord
  have hSolid : ∀ token, Solid ⟨token, text, l.leading⟩ := fun token =>
    ⟨hSettled.trimmed, hClear.solid.blank⟩
  refine ⟨hSolid _, rfl, ?_, ?_, ?_, ?_, ?_⟩
  · simp [hUnglue, Lexeme.written]
  · rw [hUnglue, hToken]
    simp [Token.respelled, hSame]
  · intro m hm
    obtain rfl : m = ⟨nameToken text, text, l.leading⟩ := by simpa [hUnglue] using hm
    exact ⟨whole_name hText l.leading, hSolid _, by
      rw [hSame]
      rfl⟩
  · cases hKeyword : isKeyword name with
    | true =>
      refine .one hUnglue ?_
      show Alike l.token (nameToken text)
      rw [hToken, hSame, hKept hKeyword]
      exact .refl _
    | false =>
      refine .operand ?_ fun m hm => ?_
      · show IsPlainToken l.token
        rw [hToken]
        exact isPlainToken_name hKeyword
      · obtain rfl : m = ⟨nameToken text, text, l.leading⟩ := by simpa [hUnglue] using hm
        show IsPlainToken (nameToken text)
        rw [hSame]
        exact isPlainToken_name (isKeyword_rename ht hKeyword)
  · intro m hm hKeyword
    obtain rfl : m = ⟨nameToken text, text, l.leading⟩ := by simpa [hUnglue] using hm
    simp only [hSame] at hKeyword ⊢
    rw [hToken]
    cases hOriginal : isKeyword name with
    | true => rw [hKept hOriginal]
    | false =>
      have hNone := isKeyword_rename ht hOriginal
      rw [show isKeyword (rename t name) = true from hKeyword] at hNone
      cases hNone

theorem clear_table (ht : t.IsReadable) {leading : List Char} (hBlank : allBlank leading = true) :
    Clear ⟨t.tableToken, t.tableText, leading⟩ where
  whole := ⟨ht.whole.scanned, ht.whole.calm⟩
  solid := ⟨(passed_tableRef t.table).settled.trimmed, hBlank⟩
  terminated := by
    unfold Target.tableToken Target.tableText tableRef
    split
    · simp only [nameToken]
      split
      · rfl
      split <;> rfl
    · simp [Lexeme.isTerminated]

theorem clear_literal {c q : Char} {token : List Char → Token} (h : Scan.IsLiteral c q token)
    (s : List Char) {leading : List Char} (hBlank : allBlank leading = true) :
    Clear ⟨token s, c :: (double q s ++ [q]), leading⟩ where
  whole := whole_literal h s leading
  solid := ⟨(settled_literal h s).trimmed, hBlank⟩
  terminated := by cases h <;> simp [Lexeme.isTerminated]

theorem respelt_field (ht : t.IsReadable) {l : Lexeme} (hClear : Clear l) {name : List Char}
    (hToken : l.token = .field name) : Respelt t l { l with text := t.column name } := by
  have hUnglue : unglue t { l with text := t.column name } =
      [⟨t.tableToken, t.tableText, l.leading⟩, ⟨.field name, bracketed name, []⟩] := by
    unfold unglue
    rw [hToken]
  have hTable := clear_table ht hClear.solid.blank
  have hField : Clear ⟨.field name, bracketed name, []⟩ := clear_literal .field name rfl
  have hPlain : IsPlainToken (.field name) := isPlainToken_literal rfl
  refine ⟨⟨(renders_column t name).settled.trimmed, hClear.solid.blank⟩, rfl, ?_, ?_, ?_, ?_, ?_⟩
  · rw [hUnglue]
    simp [Lexeme.written, Target.column]
  · rw [hUnglue, hToken]
    rfl
  · simpa [hUnglue] using ⟨hTable, hField⟩
  · refine .operand ?_ ?_
    · show IsPlainToken l.token
      rw [hToken]
      exact hPlain
    · simpa [hUnglue] using ⟨isPlainToken_table ht.table, hPlain⟩
  · intro m hm hKeyword
    rw [hUnglue] at hm
    rcases List.mem_cons.1 hm with rfl | hm
    · rw [isKeyword_of_isTable ht.table] at hKeyword
      cases hKeyword
    · rw [List.mem_singleton.1 hm] at hKeyword
      cases hKeyword

theorem clear_equals {leading : List Char} (hBlank : allBlank leading = true) :
    Clear ⟨.equals, ['='], leading⟩ where
  whole := ⟨⟨'=', [], rfl, by decide, rfl⟩, renders_equals.settled.calm⟩
  solid := ⟨renders_equals.settled.trimmed, hBlank⟩
  terminated := rfl

theorem clear_notEqual {leading : List Char} (hBlank : allBlank leading = true) :
    Clear ⟨.notEqual, ['<', '>'], leading⟩ where
  whole := ⟨⟨'<', ['>'], rfl, by decide, rfl⟩, renders_notEqual.settled.calm⟩
  solid := ⟨renders_notEqual.settled.trimmed, hBlank⟩
  terminated := rfl

/-! ## Respelled rows -/

theorem head_mapFunctions (t : Target) (ls : List Lexeme) :
    (mapFunctions t ls).head?.map (fun l => (l.token, l.leading)) =
      ls.head?.map fun l => (l.token, l.leading) := by
  cases ls with
  | nil => rfl
  | cons l ls =>
    rw [mapFunctions]
    split <;> rfl

theorem namesTable_mapFunctions (t : Target) (ls : List Lexeme) :
    namesTable (mapFunctions t ls) = namesTable ls := by
  cases ls with
  | nil => rfl
  | cons l ls =>
    rw [mapFunctions]
    split <;> rfl

theorem namesTable_of_head {ls : List Lexeme} (h : ∀ m ∈ ls.head?, m.token.isField = false) :
    namesTable ls = false := by
  cases ls with
  | nil => rfl
  | cons l ls => simp [namesTable, h l rfl]

theorem mapFunctions_of_not_identifier {l : Lexeme} (h : l.token.isIdentifier = false)
    (ls : List Lexeme) : mapFunctions t (l :: ls) = l :: mapFunctions t ls := by
  have hNone : calledName? l ls = none := by
    unfold calledName?
    split
    · rename_i name hToken
      rw [hToken] at h
      cases h
    · rfl
  rw [mapFunctions, hNone]
  rfl

def uncommented (ls : List Lexeme) : List Lexeme :=
  ls.filter fun l => !l.isComment

theorem uncommented_eq_self {ls : List Lexeme} (h : ∀ l ∈ ls, l.isComment = false) :
    uncommented ls = ls :=
  List.filter_eq_self.2 fun l hl => by simp [h l hl]

theorem uncommented_of_comment {l : Lexeme} (h : l.isComment = true) (ls : List Lexeme) :
    uncommented (l :: ls) = uncommented ls :=
  List.filter_cons_of_neg (by simp [h])

theorem uncommented_of_not_comment {l : Lexeme} (h : l.isComment = false) (ls : List Lexeme) :
    uncommented (l :: ls) = l :: uncommented ls :=
  List.filter_cons_of_pos (by simp [h])

theorem followedByParen_uncommented (ls : List Lexeme) :
    followedByParen (uncommented ls) = followedByParen ls := by
  induction ls with
  | nil => rfl
  | cons l ls ih =>
    cases hComment : l.isComment with
    | true =>
      rw [uncommented_of_comment hComment, ih]
      simp [followedByParen, hComment]
    | false =>
      rw [uncommented_of_not_comment hComment]
      simp [followedByParen, hComment]

structure Stands (l : Lexeme) (rest : List Lexeme) : Prop where
  clear : Clear l
  follows : l.isComment = false → ∀ m ∈ (uncommented rest).head?, Follows none l.token m.token
  setOff : ∀ m ∈ rest.head?, SetOff l m
  ends : l.isComment = false → uncommented rest = [] → l.token.endsOperand = true

/-- A field that stands next is no comment. -/
theorem head_uncommented {rest : List Lexeme} {m : Lexeme} (hm : m ∈ rest.head?)
    (hField : m.token.isField = true) : m ∈ (uncommented rest).head? := by
  cases rest with
  | nil => cases hm
  | cons k rest =>
    obtain rfl : k = m := by simpa using hm
    have hComment : k.isComment = false := by
      cases hToken : k.token <;> simp_all [Token.isField, Lexeme.isComment, Token.isComment]
    rw [uncommented_of_not_comment hComment]
    rfl

/-- A name of an expression is called or an operator. -/
theorem Stands.name {l : Lexeme} {rest : List Lexeme} (h : Stands l rest) {name : List Char}
    (hToken : l.token = .identifier name) :
    isKeyword name = false ∧ followedByParen rest = true ∨
      (Token.identifier name).isOperatorWord = true := by
  have hComment : l.isComment = false := by simp [Lexeme.isComment, hToken, Token.isComment]
  have hEnds := h.ends hComment
  have hFollows := h.follows hComment
  have hNone : ∀ m ∈ uncommented rest, m.isComment = false := by
    intro m hm
    simpa using (List.mem_filter.1 hm).2
  rw [← followedByParen_uncommented]
  cases hRest : uncommented rest with
  | nil =>
    replace hEnds := hEnds hRest
    rw [hToken] at hEnds
    cases hEnds
  | cons m rest =>
    replace hFollows := hFollows m (by rw [hRest]; rfl)
    rw [hToken] at hFollows
    have hNext : m.isComment = false := hNone m (by rw [hRest]; exact List.mem_cons_self)
    generalize hSame : m.token = u at hFollows
    cases hFollows with
    | operator hEnd | connective hEnd | close hEnd => cases hEnd
    | operand hOperator => cases hOperator
    | word hWord => exact .inr hWord
    | name hName =>
      refine .inl ⟨hName, ?_⟩
      simp [followedByParen, hNext, hSame]
    | member hTable => cases hTable

/-- No field stands directly after a lexeme that could name its table. -/
theorem Stands.field {l : Lexeme} {rest : List Lexeme} (h : Stands l rest)
    (hName : isTableName l.token = true) :
    ∀ m ∈ rest.head?, m.token.isField = true → m.isAttached = false := by
  intro m hm hField
  have hComment : l.isComment = false := by
    cases hToken : l.token <;> simp_all [isTableName, Lexeme.isComment, Token.isComment]
  have hFollows := h.follows hComment m (head_uncommented hm hField)
  have hSetOff := (h.setOff m hm).keyword
  generalize l.token = s at hFollows hName hSetOff
  generalize m.token = u at hFollows hField
  cases hFollows with
  | operator _ hOperator => cases u <;> simp [Token.isField, Token.isOperator] at hField hOperator
  | connective _ hWord => cases u <;> simp [Token.isField, Token.isConnective] at hField hWord
  | close => cases hField
  | operand hOperator => cases s <;> simp [isTableName, Token.isOperator] at hName hOperator
  | word hWord => exact hSetOff (isKeyword_of_isOperatorWord hWord)
  | inner | empty => cases hName
  | name => cases hField
  | member hTable => cases hTable

theorem Stands.quoted {l : Lexeme} {rest : List Lexeme} (h : Stands l rest) {s : List Char}
    (hToken : l.token = .singleQuoted s) : ∀ m ∈ rest.head?, m.token.isField = false := by
  intro m hm
  refine Bool.eq_false_iff.2 fun hField => ?_
  have hComment : l.isComment = false := by simp [Lexeme.isComment, hToken, Token.isComment]
  have hFollows := h.follows hComment m (head_uncommented hm hField)
  rw [hToken] at hFollows
  generalize m.token = u at hFollows hField
  cases hFollows with
  | operator _ hOperator => cases u <;> simp_all [Token.isField, Token.isOperator]
  | connective _ hWord => cases u <;> simp_all [Token.isField, Token.isConnective]
  | close => cases hField
  | operand hOperator => cases hOperator
  | word hWord => cases hWord
  | member hTable => cases hTable

theorem mapFunctions_name (ht : t.IsReadable) {l : Lexeme} {rest : List Lexeme} (h : Stands l rest)
    {name : List Char} (hToken : l.token = .identifier name) :
    ∃ text, mapFunctions t (l :: rest) = { l with text := text } :: mapFunctions t rest ∧
      isNameText text = true ∧ nameToken text = .identifier (rename t name) := by
  obtain ⟨hText, hSame⟩ := h.clear.whole.nameText hToken
  rw [hToken] at hSame
  have hCalled : calledName? l rest = if followedByParen rest then some name else none := by
    unfold calledName?
    rw [hToken]
  rw [mapFunctions, hCalled]
  cases hFunction : t.function? name with
  | none =>
    have hRename : rename t name = name := by simp [rename, hFunction]
    refine ⟨l.text, ?_, hText, by rw [hSame, hRename]⟩
    cases followedByParen rest <;> simp [hFunction]
  | some text =>
    cases hParen : followedByParen rest with
    | true =>
      obtain ⟨hNew, hToken'⟩ := ht.function hFunction
      exact ⟨text, by simp [hFunction], hNew, by rw [hToken']; simp [rename, hFunction]⟩
    | false =>
      have hWord : (Token.identifier name).isOperatorWord = true :=
        (h.name hToken).resolve_left (by simp [hParen])
      have hRename : rename t name = name := by
        simpa [Token.respelled] using respelled_word ht hWord
      exact ⟨l.text, by simp, hText, by rw [hSame, hRename]⟩

def isKept : Token → Bool
  | .identifier _ | .field _ | .singleQuoted _ | .notEqual | .doubleEquals => false
  | _ => true

theorem respelt_of_isKept {l : Lexeme} (hClear : Clear l) (hKept : isKept l.token = true) :
    Respelt t l l := by
  refine .of_single ?_ ?_ rfl (fun _ => rfl) hClear
  · unfold unglue
    split <;> simp_all [isKept]
  · unfold Token.respelled
    split <;> simp_all [isKept]

/-- The rules for single lexemes at the first of a row. -/
theorem respelt_cons (ht : t.IsReadable) {l : Lexeme} {rest : List Lexeme} (h : Stands l rest)
    {previous : Option Token}
    (hPrevious : ∀ s ∈ previous, isTableName s = true → l.token.isField = true →
      l.isAttached = false) :
    ∃ l' s, qualify t previous (normalize (mapFunctions t (l :: rest))) =
        l' :: qualify t (some s) (normalize (mapFunctions t rest)) ∧ Respelt t l l' ∧
      (isTableName s = true → isTableName l.token = true) := by
  have hBlank := h.clear.solid.blank
  cases hIdentifier : l.token.isIdentifier with
  | true =>
    obtain ⟨name, hToken⟩ : ∃ name, l.token = .identifier name := by
      unfold Token.isIdentifier at hIdentifier
      split at hIdentifier
      · exact ⟨_, ‹_›⟩
      · cases hIdentifier
    obtain ⟨text, hMap, hText, hSame⟩ := mapFunctions_name ht h hToken
    have hName := (h.name hToken).imp_left And.left
    refine ⟨{ l with text := text }, l.token, ?_, respelt_name ht h.clear hToken hName hText hSame,
      id⟩
    rw [hMap, normalize, hToken]
    simp only [qualify]
  | false =>
    rw [mapFunctions_of_not_identifier hIdentifier, normalize]
    cases hToken : l.token with
    | identifier name =>
      rw [hToken] at hIdentifier
      cases hIdentifier
    | field name =>
      have hBare : (l.isAttached && previous.any isTableName) = false := by
        cases previous with
        | none => simp
        | some s =>
          cases hTable : isTableName s with
          | false => simp [hTable]
          | true => simp [hPrevious s rfl hTable (by rw [hToken]; rfl)]
      refine ⟨{ l with text := t.column name }, l.token, ?_, respelt_field ht h.clear hToken, ?_⟩
      · simp only [qualify, hToken, hBare]
        rfl
      · rw [hToken]
        exact id
    | singleQuoted s =>
      have hNames := (namesTable_mapFunctions t rest).trans (namesTable_of_head (h.quoted hToken))
      refine ⟨⟨.string s, '"' :: double '"' s ++ ['"'], l.leading⟩, .string s, ?_, ?_,
        by simp [isTableName]⟩
      · simp only [hNames]
        rfl
      · exact .of_single rfl (by rw [hToken]; rfl) rfl (by simp [Token.isKeyword])
          (clear_literal .string s hBlank)
    | notEqual =>
      refine ⟨⟨.notEqual, ['<', '>'], l.leading⟩, .notEqual, ?_, ?_, by simp [isTableName]⟩
      · simp only [qualify]
      · exact .of_single rfl (by rw [hToken]; rfl) rfl (by simp [Token.isKeyword])
          (clear_notEqual hBlank)
    | doubleEquals =>
      refine ⟨⟨.equals, ['='], l.leading⟩, .equals, rfl, ?_, by simp [isTableName]⟩
      exact .of_single rfl (by rw [hToken]; rfl) rfl (by simp [Token.isKeyword])
        (clear_equals hBlank)
    | _ =>
      refine ⟨l, l.token, ?_, respelt_of_isKept h.clear (by rw [hToken]; rfl), ?_⟩
      · simp only [qualify, hToken]
      · rw [hToken]
        exact id

def respelled (t : Target) (ls : List Lexeme) : List Lexeme :=
  qualify t none (normalize (mapFunctions t ls))

theorem standard_eq (t : Target) (ls : List Lexeme) :
    standard t ls = trim (convertDivision (respelled t ls)) := rfl

abbrev AlikeRows (ls ls' : List Lexeme) : Prop :=
  List.Forall₂ (fun l l' => Alike l.token l'.token) ls ls'

theorem exists_mapFunctions_cons (t : Target) (l : Lexeme) (ls : List Lexeme) :
    ∃ l', l'.token = l.token ∧ mapFunctions t (l :: ls) = l' :: mapFunctions t ls := by
  rw [mapFunctions]
  split
  · exact ⟨_, by rfl, rfl⟩
  · exact ⟨l, rfl, rfl⟩

theorem exists_normalize_cons (l : Lexeme) (ls : List Lexeme) :
    ∃ l', Alike l.token l'.token ∧ normalize (l :: ls) = l' :: normalize ls := by
  refine ⟨_, ?_, rfl⟩
  split
  · exact .refl _
  · rename_i hToken
    rw [hToken]
    exact ⟨rfl, rfl, rfl, fun _ => rfl, by simp⟩
  · rename_i s hToken
    split
    · exact .refl _
    · rw [hToken]
      exact ⟨rfl, rfl, rfl, fun k => by simp [unitKind, Token.isWord, Token.isDivisionBoundary], by simp⟩
  · exact .refl _

theorem exists_qualify_cons (t : Target) (previous : Option Token) (l : Lexeme) (ls : List Lexeme) :
    ∃ l', l'.token = l.token ∧ qualify t previous (l :: ls) = l' :: qualify t (some l.token) ls := by
  refine ⟨_, ?_, rfl⟩
  split
  · split <;> rfl
  · rfl

/-- The rules for single lexemes change no token to one that plays another part. -/
theorem alike_respelled (t : Target) (ls : List Lexeme) : AlikeRows ls (respelled t ls) := by
  unfold respelled
  -- the token in front is another one at each lexeme
  generalize (none : Option Token) = previous
  induction ls generalizing previous with
  | nil => exact .nil
  | cons l ls ih =>
    obtain ⟨mapped, hMapped, hFunctions⟩ := exists_mapFunctions_cons t l ls
    obtain ⟨spelled, hSpelled, hNormal⟩ := exists_normalize_cons mapped (mapFunctions t ls)
    obtain ⟨last, hLast, hQualified⟩ := exists_qualify_cons t previous spelled
      (normalize (mapFunctions t ls))
    rw [hFunctions, hNormal, hQualified]
    refine .cons ?_ (ih _)
    rwa [hLast, ← hMapped]

/-- A row of an expression whose literals are closed and whose keywords are set off. Comments may
stand between its lexemes. -/
structure IsWritten (ls : List Lexeme) : Prop where
  clear : ∀ l ∈ ls, Clear l
  follows : (uncommented ls).IsChain fun l m => Follows none l.token m.token
  setOff : ls.IsChain SetOff
  ends : ∀ l ∈ (uncommented ls).getLast?, l.token.endsOperand = true

theorem IsWritten.stands {l : Lexeme} {ls : List Lexeme} (h : IsWritten (l :: ls)) : Stands l ls where
  clear := h.clear l List.mem_cons_self
  follows hComment := by
    have hFollows := h.follows
    rw [uncommented_of_not_comment hComment] at hFollows
    exact (List.isChain_cons.1 hFollows).1
  setOff := (List.isChain_cons.1 h.setOff).1
  ends hComment hLast := by
    refine h.ends l ?_
    rw [uncommented_of_not_comment hComment, hLast]
    rfl

theorem IsWritten.tail {l : Lexeme} {ls : List Lexeme} (h : IsWritten (l :: ls)) : IsWritten ls where
  clear m hm := h.clear m (List.mem_cons_of_mem _ hm)
  follows := h.follows.suffix ((List.suffix_cons l ls).filter _)
  setOff := h.setOff.tail
  ends m hm := by
    refine h.ends m ?_
    obtain ⟨front, hSplit⟩ := (List.suffix_cons l ls).filter fun l => !l.isComment
    rw [uncommented, ← hSplit, List.getLast?_append, ← uncommented, Option.mem_def.1 hm]
    rfl

/-- The rules for single lexemes on a row. -/
theorem respelt_row (ht : t.IsReadable) {ls : List Lexeme} (h : IsWritten ls)
    {previous : Option Token} (hPrevious : ∀ s ∈ previous, isTableName s = true →
      ∀ l ∈ ls.head?, l.token.isField = true → l.isAttached = false) :
    List.Forall₂ (Respelt t) ls (qualify t previous (normalize (mapFunctions t ls))) := by
  induction ls generalizing previous with
  | nil => exact .nil
  | cons l ls ih =>
    obtain ⟨l', s, hSame, hRespelt, hTable⟩ :=
      respelt_cons ht h.stands fun s hs hName => hPrevious s hs hName l rfl
    rw [hSame]
    refine .cons hRespelt (ih h.tail ?_)
    rintro s' hs' hName
    obtain rfl : s = s' := by simpa using hs'
    exact h.stands.field (hTable hName)

end DaxMigration.Dax
