import DaxMigration.Proofs.Dax.Precedence
import DaxMigration.Proofs.Dax.Resolving
import DaxMigration.Proofs.Dax.ResolvedTexts
import DaxMigration.Proofs.Dax.Touching

/-!
# The standard rules on resolved rows

What the standard rules write of a row without constructs is read as a row without constructs, also
where texts stand in the row that were converted before.
-/

namespace DaxMigration.Dax

open Formula Text

/-- Functions have names, with dots or without, and none has that of a table calculation but its own, in
whatever case. -/
structure Target.IsForeign (t : Target) : Prop where
  name {name text : List Char} (h : t.function? name = some text) : IsDotted text
  foreign {word text : List Char} (h : t.function? (upper word) = some text) :
    tokensOf text = [.identifier (upper word)] ∨ ∀ u ∈ tokensOf text, Inert u

variable {t : Target}

inductive Recast (t : Target) (l : Lexeme) : Lexeme → Prop
  | same : Recast t l l
  | name {name text : List Char} (hToken : l.token = .identifier name)
      (hText : t.function? name = some text) : Recast t l { l with text := text }
  | notEqual (hToken : l.token = .notEqual) : Recast t l { l with text := ['<', '>'] }
  | equals (hToken : l.token = .doubleEquals) :
      Recast t l { l with token := .equals, text := ['='] }
  | literal {s : List Char} (hToken : l.token = .singleQuoted s) :
      Recast t l { l with token := .string s, text := '"' :: double '"' s ++ ['"'] }
  | column {name : List Char} (hToken : l.token = .field name) :
      Recast t l { l with text := t.column name }

theorem recast_mapFunctions (l : Lexeme) (rest : List Lexeme) :
    ∃ l', mapFunctions t (l :: rest) = l' :: mapFunctions t rest ∧
      (l' = l ∨ ∃ name text, l.token = .identifier name ∧ t.function? name = some text ∧
        l' = { l with text := text }) := by
  rw [mapFunctions]
  split
  · rename_i text hText
    obtain ⟨name, hName, hText⟩ := Option.bind_eq_some_iff.1 hText
    refine ⟨_, rfl, .inr ⟨name, text, ?_, hText, rfl⟩⟩
    unfold calledName? at hName
    split at hName
    · rename_i hToken
      split at hName
      · rw [hToken, Option.some.inj hName]
      · cases hName
    · cases hName
  · exact ⟨l, rfl, .inl rfl⟩

/-- Every lexeme of a row is recast on its own, but a table and the field directly behind it stay as
they are. Behind the name of a table, `table` says so. -/
inductive RecastRow (t : Target) : (table : Bool) → List Lexeme → List Lexeme → Prop
  | nil {table : Bool} : RecastRow t table [] []
  | cons {table : Bool} {l l' : Lexeme} {ls ls' : List Lexeme} (h : Recast t l l')
      (hTable : isTableName l.token = true → namesTable ls = true → l'.token = l.token)
      (hField : table = true → l.token.isField = true → l.isAttached = true → l' = l)
      (hRest : RecastRow t (isTableName l.token) ls ls') : RecastRow t table (l :: ls) (l' :: ls')

theorem RecastRow.forall₂ {table : Bool} {ls ls' : List Lexeme} (h : RecastRow t table ls ls') :
    List.Forall₂ (Recast t) ls ls' := by
  induction h with
  | nil => exact .nil
  | cons hFirst _ _ _ ih => exact .cons hFirst ih

theorem recast_row {table : Bool} {previous : Option Token} {ls : List Lexeme}
    (hPrevious : table = true → namesTable ls = true → previous.any isTableName = true) :
    RecastRow t table ls (qualify t previous (normalize (mapFunctions t ls))) := by
  induction ls generalizing table previous with
  | nil => exact .nil
  | cons l ls ih =>
    obtain ⟨l', hMapped, hFirst⟩ := @recast_mapFunctions t l ls
    rw [hMapped, normalize, qualify]
    rcases hFirst with rfl | ⟨name, text, hToken, hText, rfl⟩
    · obtain ⟨token, text, leading⟩ := l'
      cases token with
      | notEqual => exact .cons (.notEqual rfl) (fun _ _ => rfl) (by rintro - ⟨⟩) (ih (by rintro ⟨⟩))
      | doubleEquals => exact .cons (.equals rfl) (by rintro ⟨⟩) (by rintro - ⟨⟩) (ih (by rintro ⟨⟩))
      | singleQuoted s =>
        rw [namesTable_mapFunctions]
        by_cases hTable : namesTable ls = true
        · simp only [hTable, if_true]
          exact .cons .same (fun _ _ => rfl) (by rintro - ⟨⟩) (ih fun _ _ => rfl)
        · simp only [hTable, Bool.false_eq_true, if_false]
          exact .cons (.literal rfl) (fun _ hThis => absurd hThis hTable) (by rintro - ⟨⟩)
            (ih fun _ hThis => absurd hThis hTable)
      | field name =>
        by_cases hKept : ((Lexeme.mk (.field name) text leading).isAttached &&
            previous.any isTableName) = true
        · simp only [hKept, if_true]
          exact .cons .same (fun _ _ => rfl) (fun _ _ _ => rfl) (ih (by rintro ⟨⟩))
        · simp only [hKept, Bool.false_eq_true, if_false]
          refine .cons (.column rfl) (by rintro ⟨⟩) (fun hTable _ hAttached => absurd ?_ hKept) (ih (by rintro ⟨⟩))
          rw [hAttached, hPrevious hTable (by rw [namesTable, hAttached]; rfl)]
          rfl
      | identifier => exact .cons .same (fun _ _ => rfl) (by rintro - ⟨⟩) (ih fun _ _ => rfl)
      | _ => exact .cons .same (by rintro ⟨⟩) (by rintro - ⟨⟩) (ih (by rintro ⟨⟩))
    · obtain ⟨token, source, leading⟩ := l
      obtain rfl : token = .identifier name := hToken
      exact .cons (.name rfl hText) (fun _ _ => rfl) (by rintro - ⟨⟩) (ih fun _ _ => rfl)

namespace Recast

variable {l l' m m' : Lexeme}

theorem leading (h : Recast t l l') : l'.leading = l.leading := by
  cases h <;> rfl

/-- What does not tell an equals sign from a doubled one, or one sort of quotes from the other. -/
theorem keeps {α : Type} (h : Recast t l l') (p : Token → α) (hSign : p .equals = p .doubleEquals)
    (hText : ∀ s, p (.string s) = p (.singleQuoted s)) : p l'.token = p l.token := by
  cases h with
  | same | name | notEqual | column => rfl
  | equals hToken => rw [hToken, hSign]
  | literal hToken => rw [hToken, hText]

theorem token_eq (h : Recast t l l') {u : Token} (hSign : u ≠ .doubleEquals)
    (hText : ∀ s, u ≠ .singleQuoted s) (hToken : l.token = u) : l'.token = u := by
  cases h with
  | same | name | notEqual | column => exact hToken
  | equals hOther => exact absurd (hToken.symm.trans hOther) hSign
  | literal hOther => exact absurd (hToken.symm.trans hOther) (hText _)

theorem adjoins (hl : Recast t l l') (hm : Recast t m m')
    (hColumn : isTableName l.token = true → m.token.isField = true → m.isAttached = true →
      l'.token = l.token ∧ m' = m) (h : Adjoins l m) : Adjoins l' m' := by
  have hAttached : m'.isAttached = m.isAttached := by simp only [Lexeme.isAttached, hm.leading]
  have hEnds := hl.keeps ends rfl fun _ => rfl
  have hStarts := hm.keeps starts rfl fun _ => rfl
  cases h with
  | ended hEnd hNext =>
    refine .ended (hEnds.trans hEnd) (hNext.imp (fun hOperator => ?_) fun hClose => ?_)
    · exact (hm.keeps Token.isOperator rfl fun _ => rfl).trans hOperator
    · exact hm.token_eq (by simp) (by simp) hClose
  | connective hEnd hApart => exact .connective (hEnds.trans hEnd) (hAttached.trans hApart)
  | operand hSign hStart =>
    refine .operand (hSign.imp (fun hOperator => ?_) fun hOpening => ?_) (hStarts.trans hStart)
    · exact (hl.keeps Token.isOperator rfl fun _ => rfl).trans hOperator
    · exact hl.token_eq (by simp) (by simp) hOpening
  | word hApart hStart => exact .word (hAttached.trans hApart) (hStarts.trans hStart)
  | name hFirst hName hOpening =>
    exact .name (hl.token_eq (by simp) (by simp) hFirst) hName (hm.token_eq (by simp) (by simp) hOpening)
  | empty hOpening hClosing =>
    exact .empty (hl.token_eq (by simp) (by simp) hOpening) (hm.token_eq (by simp) (by simp) hClosing)
  | column hTable hField hAttached hText =>
    have hName : isTableName l.token = true := by
      generalize l.token = u at hTable
      cases hTable <;> rfl
    obtain ⟨hSame, rfl⟩ := hColumn hName hField hAttached
    exact .column (hSame ▸ hTable) hField hAttached hText

/-- The token itself, or one that says as little about constructs. -/
theorem expands (h : Recast t l l') : Expands false l.token [l'.token] := by
  cases h with
  | same | name | notEqual | column => exact .same _
  | equals hToken =>
    rw [hToken]
    refine .inert ⟨rfl, rfl⟩ (by simp) rfl (by simp) ?_
    simpa using Inert.mk (t := .equals) ⟨rfl, rfl⟩ (by simp) rfl (by simp)
  | literal hToken =>
    rw [hToken]
    refine .inert ⟨rfl, rfl⟩ (by simp) rfl (by simp) ?_
    simpa using inert_of_isAtom rfl

end Recast

theorem isSeated_recast {table : Bool} {ls ls' : List Lexeme} (h : RecastRow t table ls ls')
    (hRow : IsSeated ls) : IsSeated ls' := by
  have hEnds : ∀ l ∈ ls'.getLast?, ends l.token = true := by
    have hLast := hRow.last
    clear hRow
    induction h with
    | nil => simp
    | @cons _ l l' ls ls' hFirst _ _ hRest ih =>
      cases hRest with
      | nil =>
        have hEnd := hFirst.keeps ends rfl fun _ => rfl
        simpa [hEnd] using hLast
      | cons hNext _ _ hRest =>
        rw [List.getLast?_cons_cons] at hLast ⊢
        exact ih hLast
  have hChain : ls'.IsChain Adjoins := by
    have hChain := hRow.chain
    clear hRow hEnds
    induction h with
    | nil => exact .nil
    | cons hFirst hTable _ hRest ih =>
      cases hRest with
      | nil => exact .singleton _
      | cons hNext _ hField hRest =>
        obtain ⟨hPair, hTail⟩ := List.isChain_cons_cons.1 hChain
        refine .cons_cons (hFirst.adjoins hNext (fun hName hThis hAttached => ?_) hPair) (ih hTail)
        exact ⟨hTable hName (by rw [namesTable, hThis, hAttached]; rfl), hField hName hThis hAttached⟩
  cases h with
  | nil => exact absurd rfl hRow.filled
  | cons hFirst _ _ hRest =>
    have hStart := hFirst.keeps starts rfl fun _ => rfl
    exact ⟨by simp, by simpa [hStart] using hRow.head, hEnds, hChain⟩

/-! ## Lexemes that are written -/

inductive Fair : Lexeme → Prop
  | original {l : Lexeme} (h : Clear l) (hComment : l.isComment = false) : Fair l
  | spliced {text leading : List Char} (h : OperandText text) (hBlank : allBlank leading = true) :
      Fair (.verbatim text leading)

structure Ready (l : Lexeme) : Prop where
  firm : Firm l
  expands : Expands true l.token (tokensOf l.text)
  ends : l.token.isAtom = true → ∀ name, (tokensOf l.text).getLast? ≠ some (.identifier name)
  begins : Begins l

theorem Clear.isVerbatim {l : Lexeme} (h : Clear l) : l.token.isVerbatim = false := by
  obtain ⟨c, w, -, -, hScan⟩ := h.whole.scanned
  have hToken := isVerbatim_of_form (Scan.form_scan c w)
  rwa [hScan] at hToken

theorem ready_of_clear {l : Lexeme} (h : Clear l) (hComment : l.isComment = false) : Ready l where
  firm := h.whole.firm (h.settled hComment) h.solid.blank
  expands := by
    rw [h.whole.tokensOf_text]
    exact .same _
  ends hAtom name hLast := by
    rw [h.whole.tokensOf_text, List.getLast?_singleton] at hLast
    rw [Option.some.inj hLast] at hAtom
    cases hAtom
  begins := begins_of_whole h.whole h.isVerbatim

theorem ready_of_operandText {l : Lexeme} (hAtom : l.token.isAtom = true) (h : OperandText l.text)
    (hField : l.token.isField = true → (tokensOf l.text).head? ≠ some .lparen)
    (hBlank : allBlank l.leading = true) : Ready l where
  firm := by
    have hAdmits : ∀ {rest : List Char}, (∀ d ∈ rest.head?, l.token.admits d = true) →
        ∀ d ∈ rest.head?, (Token.verbatim l.text).admits d = true := fun hRest d hd =>
      Token.admits_of_separates rfl (Token.separates_of_admits hAtom (hRest d hd))
    exact ⟨h.firm.settled, hBlank, fun hRest => h.firm.reads (hAdmits hRest),
      fun hRest => h.firm.resumes (hAdmits hRest)⟩
  expands := h.expands hAtom hField
  ends _ := h.ends
  begins := by
    refine ⟨fun _ => h.begins, fun hNot => ?_⟩
    rw [hAtom] at hNot
    cases hNot

theorem Fair.ready {l : Lexeme} (h : Fair l) : Ready l := by
  cases h with
  | original h hComment => exact ready_of_clear h hComment
  | spliced h hBlank => exact ready_of_operandText rfl h nofun hBlank

theorem Fair.head_of_isField {l : Lexeme} (h : Fair l) (hField : l.token.isField = true) :
    ∀ d ∈ l.text.head?, d = '[' := by
  intro d hd
  cases h with
  | original h =>
    have hBegins := h.whole.begins d hd
    cases hToken : l.token with
    | field => simpa [hToken, Token.begins] using hBegins
    | _ => rw [hToken] at hField; cases hField
  | spliced => cases hField

/-- Names are read in upper case. -/
theorem Fair.upper_of_identifier {l : Lexeme} (h : Fair l) {name : List Char}
    (hToken : l.token = .identifier name) : ∃ word, name = upper word := by
  cases h with
  | original h => exact ⟨_, eq_upper_of_nameToken ((h.whole.nameText hToken).2.trans hToken)⟩
  | spliced => cases hToken

/-- A name is written as that of the function it calls. -/
theorem ready_name (ht : t.IsForeign) {l : Lexeme} (hBlank : allBlank l.leading = true)
    {word text : List Char} (hToken : l.token = .identifier (upper word))
    (hText : t.function? (upper word) = some text) : Ready { l with text := text } := by
  have hName := ht.name hText
  have hAdmits : ∀ {rest : List Char}, (∀ d ∈ rest.head?, l.token.admits d = true) →
      ∀ d ∈ rest.head?, isNameCharacter d = false := by
    intro rest hRest d hd
    have hEnds := Token.goesOn_of_admits (hRest d hd)
    rwa [hToken] at hEnds
  have hResumes : ∀ rest, (Mode.code.after text).Resumes rest := by
    rw [hName.after]
    exact Mode.resumes_code
  refine ⟨⟨hName.settled, hBlank, fun hRest => hName.reads (hAdmits hRest), fun _ => hResumes _⟩,
    ?_, fun hAtom => ?_, fun _ d hd hMem => ?_, fun _ d hd => ?_⟩
  · show Expands true l.token (tokensOf text)
    obtain ⟨m, ms, hCons, -⟩ := head_tokenize_of_settled hName.settled
    rw [hToken]
    rcases ht.foreign hText with hSame | hInert
    · rw [hSame]
      exact .same _
    · exact .inert (isInner_identifier _) (by simp) rfl (by simp [tokensOf, hCons]) hInert
  · rw [show ({ l with text := text } : Lexeme).token = _ from hToken] at hAtom
    cases hAtom
  · have hNone : ∀ d ∈ ['=', '>', '/', '*'], isLetter d = false := by decide
    have hLetter := hName.head d hd
    rw [hNone d hMem] at hLetter
    cases hLetter
  · show l.token.begins d = true
    rw [hToken]
    exact hName.head d hd

theorem Recast.ready (ht : t.IsForeign) {l l' : Lexeme} (h : Recast t l l') (hl : Fair l) : Ready l' := by
  have hBlank := hl.ready.firm.blank
  cases h with
  | same => exact hl.ready
  | name hToken hText =>
    obtain ⟨word, rfl⟩ := hl.upper_of_identifier hToken
    exact ready_name ht hBlank hToken hText
  | notEqual hToken =>
    have hReady := ready_of_clear (clear_notEqual hBlank) rfl
    rwa [← hToken] at hReady
  | equals => exact ready_of_clear (clear_equals hBlank) rfl
  | literal => exact ready_of_clear (clear_literal .string _ hBlank) rfl
  | column hToken =>
    exact ready_of_operandText (by rw [show _ = _ from hToken]; rfl) (operandText_column t _)
      (fun _ => head_tokensOf_column t _) hBlank

theorem isStable_ready : IsStable Ready where
  blank h := h.firm.blank
  leading h leading hBlank :=
    ⟨h.firm.with_leading hBlank, h.expands, h.ends, h.begins.with_leading leading⟩
  divide := ready_of_clear isStable_clear.divide rfl
  signs l hl := by
    have hComment : ∀ m ∈ [openSign, commaSign, zeroSign, closeSign], m.isComment = false := by decide
    exact ready_of_clear (isStable_clear.signs l hl) (hComment l hl)

/-! ## The text of a row -/

theorem exists_of_forall₂ {α β : Type} {R : α → β → Prop} {as : List α} {bs : List β}
    (h : List.Forall₂ R as bs) {b : β} (hb : b ∈ bs) : ∃ a ∈ as, R a b := by
  induction h with
  | nil => cases hb
  | cons hFirst _ ih =>
    rcases List.mem_cons.1 hb with rfl | hb
    · exact ⟨_, List.mem_cons_self, hFirst⟩
    · obtain ⟨a, ha, hR⟩ := ih hb
      exact ⟨a, List.mem_cons_of_mem _ ha, hR⟩

theorem isChain_touches {ls : List Lexeme} (hChain : ls.IsChain Adjoins) (hReady : ∀ l ∈ ls, Ready l) :
    ls.IsChain Touches := by
  induction ls with
  | nil => exact .nil
  | cons l ls ih =>
    obtain ⟨hNext, hTail⟩ := List.isChain_cons.1 hChain
    obtain ⟨-, hRest⟩ := List.forall_mem_cons.1 hReady
    exact List.isChain_cons.2
      ⟨fun m hm => touches_of_adjoins (hNext m hm) (hRest m (List.mem_of_mem_head? hm)).begins, ih hTail hRest⟩

theorem resolved_recast {n : Nat} {ls ls' : List Lexeme} (h : List.Forall₂ (Recast t) ls ls')
    (hRow : Resolved false n (ls.map Lexeme.token)) : Resolved false n (ls'.map Lexeme.token) := by
  have hRows : List.Forall₂ (Expands false) (ls.map Lexeme.token) (ls'.map tokenOf) := by
    rw [List.forall₂_map_left_iff, List.forall₂_map_right_iff]
    exact h.imp fun _ _ hRecast => hRecast.expands
  have hExpanded := hRow.expand hRows
  rwa [← List.flatMap_def, flatMap_tokenOf] at hExpanded

theorem resolved_written {n : Nat} {ls : List Lexeme} (hReady : ∀ l ∈ ls, Ready l)
    (h : Resolved false n (ls.map Lexeme.token)) :
    Resolved true n (ls.flatMap fun l => tokensOf l.text) := by
  rw [List.flatMap_def]
  refine h.expand ?_
  rw [List.forall₂_map_left_iff, List.forall₂_map_right_iff, List.forall₂_same]
  exact fun l hl => (hReady l hl).expands

/-- The text of a row ends as its last lexeme does. -/
theorem getLast_tokensOf {ls : List Lexeme} {l : Lexeme} (hl : ls.getLast? = some l)
    (hFilled : tokensOf l.text ≠ []) :
    (ls.flatMap fun m => tokensOf m.text).getLast? = (tokensOf l.text).getLast? := by
  obtain ⟨before, rfl⟩ := List.getLast?_eq_some_iff.1 hl
  rw [List.flatMap_append, List.flatMap_singleton, List.getLast?_append_of_ne_nil _ hFilled]

/-- The standard rules write an operand of every expression without constructs. -/
theorem operandText_standard (ht : t.IsForeign) {n : Nat} {ls : List Lexeme} (hPhrase : Phrase n 1 ls)
    (hPlain : ∀ l ∈ ls, l.token ≠ .lbrace) (hFair : ∀ l ∈ ls, Fair l)
    (hResolved : Resolved false 0 (ls.map Lexeme.token)) : OperandText (standard t ls) := by
  have hRecast := @recast_row t false none ls nofun
  rw [standard]
  generalize qualify t none (normalize (mapFunctions t ls)) = row at hRecast ⊢
  have hRow := isSeated_phrase hPhrase hPlain fun l hl hField => (hFair l hl).head_of_isField hField
  have hSeated := isSeated_recast hRecast (hRow.resolve_left hPhrase.filled)
  replace hRecast := hRecast.forall₂
  have hReady : ∀ l ∈ row, Ready l := by
    intro l' hl'
    obtain ⟨l, hl, hThis⟩ := exists_of_forall₂ hRecast hl'
    exact hThis.ready ht (hFair l hl)
  have hTokens := resolved_recast hRecast hResolved
  -- The row with its quotients made calls: what its tokens are, and how its lexemes meet.
  obtain ⟨hDivided, hClosed, hEdged⟩ := hTokens.divided
  obtain ⟨hMap, hFrames⟩ := divided_map_token row
  rw [← hMap] at hDivided hEdged
  have hFirst : ∀ l ∈ row.head?, isFactorSign l.token = false :=
    fun l hl => isFactorSign_of_starts (hSeated.head l hl)
  have hChain := isChain_divided neighbourly_touches (isChain_touches hSeated.chain hReady) hFirst
    (hFrames.2 hClosed)
  have hMade := isStable_ready.divided hReady
  rw [(convertDivision_eq (fun l hl => ⟨(hReady l hl).firm.settled.trimmed, (hReady l hl).firm.blank⟩)
    (hFrames.2 hClosed)).1]
  generalize divided row = out at hDivided hEdged hChain hMade
  cases out with
  | nil =>
    have hEmpty := hEdged.filled rfl
    exact absurd (List.map_eq_nil_iff.1 hEmpty) hSeated.filled
  | cons l rest =>
    have hHead : starts l.token = true := by
      rcases hEdged.head l.token rfl with hCall | hMem
      · rw [hCall]
        rfl
      · obtain ⟨m, hm, hSame⟩ := Option.map_eq_some_iff.1 (List.head?_map.symm.trans hMem)
        rw [← hSame]
        exact hSeated.head m hm
    have hLast : ∀ m ∈ (l :: rest).getLast?, ends m.token = true := by
      intro m hm
      have hToken : ((l :: rest).map Lexeme.token).getLast? = some m.token := by
        rw [List.getLast?_map, Option.mem_def.1 hm]
        rfl
      rcases hEdged.last m.token hToken with hClose | hMem
      · rw [hClose]
        rfl
      · obtain ⟨k, hk, hSame⟩ := Option.map_eq_some_iff.1 (List.getLast?_map.symm.trans hMem)
        rw [← hSame]
        exact hSeated.last k hk
    have hAdmits : ∀ m ∈ (l :: rest).getLast?, ∀ d, separates d = true → m.token.admits d = true :=
      fun m hm d hd => admits_of_ends (hLast m hm) hd
    rw [trim_written fun m hm => ⟨(hMade m hm).firm.settled.trimmed, (hMade m hm).firm.blank⟩]
    obtain ⟨hFirm, hRead⟩ := firm_flush (fun m hm => (hMade m hm).firm)
      (hChain.imp fun _ _ hTouches => hTouches.abuts) hAdmits (show allBlank [] = true from rfl)
    refine ⟨hFirm, ?_, fun name => ?_, fun d hd => ?_⟩
    · rw [hRead]
      exact resolved_written hMade hDivided
    · obtain ⟨m, hm⟩ : ∃ m, (l :: rest).getLast? = some m := ⟨_, List.getLast?_eq_some_getLast (by simp)⟩
      have hThis := hMade m (List.mem_of_getLast? hm)
      rw [hRead, getLast_tokensOf hm hThis.expands.filled]
      have hEnd := hLast m hm
      rw [ends, Bool.or_eq_true, beq_iff_eq] at hEnd
      rcases hEnd with hAtom | hClose
      · exact hThis.ends hAtom name
      · rw [hThis.expands.eq_of_sign (by simp [hClose]), hClose]
        simp
    · refine (hMade l List.mem_cons_self).begins.operand hHead d ?_
      obtain ⟨c, text, hText⟩ := List.exists_cons_of_ne_nil (hMade l List.mem_cons_self).firm.settled.filled
      simpa [hText] using hd

end DaxMigration.Dax
