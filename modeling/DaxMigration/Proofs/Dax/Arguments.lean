import DaxMigration.Proofs.Dax.Calls
import DaxMigration.Proofs.Dax.Preserving

/-!
# Converted arguments

Texts whose brackets are closed, among them those that no comma parts. The standard rules make a text
of the second sort of a row of such brackets and commas, a call of texts of the first sort is of the
second, and a text of the second sort is read back as one argument of any call.
-/

namespace DaxMigration.Dax

open Formula Text

/-! ## Texts -/

/-- A fluent text in which every bracket is closed. -/
structure IsMatched (text : List Char) : Prop where
  fluent : Fluent true text
  balanced : level 0 (Mode.code.delimiters text) = some 0

structure IsSingle (text : List Char) : Prop extends IsMatched text where
  unparted : separators (· == .comma) 0 (Mode.code.delimiters text) = 0

/-- Such a text without white space at its ends, which can stand after a division sign. -/
structure IsArgument (text : List Char) : Prop extends IsSingle text where
  flush : trim text = text
  parts : Parting text

variable {a b text : List Char}

theorem isSingle_of_plain (hFluent : Fluent true text) (hPlain : Mode.code.delimiters text = []) :
    IsSingle text := by
  refine ⟨⟨hFluent, ?_⟩, ?_⟩ <;> rw [hPlain] <;> rfl

theorem IsMatched.append (ha : IsMatched a) (hb : IsMatched b) : IsMatched (a ++ b) where
  fluent := ha.fluent.append hb.fluent
  balanced := by
    rw [ha.fluent.delimiters_append hb.fluent, level_append, ha.balanced]
    exact hb.balanced

theorem IsSingle.append (ha : IsSingle a) (hb : IsSingle b) : IsSingle (a ++ b) where
  toIsMatched := ha.toIsMatched.append hb.toIsMatched
  unparted := by
    rw [ha.fluent.delimiters_append hb.fluent, separators_append ha.balanced, ha.unparted,
      hb.unparted]

theorem IsMatched.trim (h : IsMatched text) : IsMatched (trim text) where
  fluent := h.fluent.trim
  balanced := by
    rw [Mode.delimiters_trim h.fluent.trim.calm]
    exact h.balanced

theorem IsSingle.trim (h : IsSingle text) : IsSingle (trim text) where
  toIsMatched := h.toIsMatched.trim
  unparted := by
    rw [Mode.delimiters_trim h.fluent.trim.calm]
    exact h.unparted

theorem isMatched_commaSeparated {texts : List (List Char)} (h : ∀ u ∈ texts, IsMatched u) :
    IsMatched (commaSeparated texts) := by
  induction texts with
  | nil => exact (isSingle_of_plain (fluent_of_blank true rfl) rfl).toIsMatched
  | cons text rest ih =>
    obtain ⟨hText, hRest⟩ := List.forall_mem_cons.1 h
    cases rest with
    | nil => simpa [commaSeparated, List.intercalate] using hText
    | cons second rest =>
      have hComma : IsMatched [',', ' '] :=
        ⟨(fluent_single true (by decide) (by decide)).append (fluent_of_blank true (by decide)), rfl⟩
      have hAll := hText.append (hComma.append (ih hRest))
      rw [commaSeparated_cons]
      simpa using hAll

/-- Brackets around a matched text make a single one. -/
theorem isSingle_callText {name : String} (hName : ∀ c ∈ name.toList, Mode.IsPlain c)
    {texts : List (List Char)} (h : ∀ u ∈ texts, IsMatched u) : IsSingle (callText name texts) := by
  have hArgs := isMatched_commaSeparated h
  have hOpen : Fluent true ['('] := fluent_single true (by decide) (by decide)
  have hClose : Fluent true [')'] := fluent_single true (by decide) (by decide)
  have hFluent := fluent_callText hName fun u hu => (h u hu).fluent
  have hDelimiters : Mode.code.delimiters (callText name texts) =
      .lparen :: (Mode.code.delimiters (commaSeparated texts) ++ [.rparen]) := by
    have hSplit : callText name texts = name.toList ++ (['('] ++ (commaSeparated texts ++ [')'])) := by
      simp [callText]
    rw [hSplit, (fluent_of_plain true hName).delimiters_append (hOpen.append (hArgs.fluent.append hClose)),
      Mode.delimiters_of_plain hName, hOpen.delimiters_append (hArgs.fluent.append hClose),
      hArgs.fluent.delimiters_append hClose]
    rfl
  have hLevel := level_add hArgs.balanced 1
  refine ⟨⟨hFluent, ?_⟩, ?_⟩
  · rw [hDelimiters]
    simp [level, level_append, Token.opens, Token.closes, hLevel]
  · rw [hDelimiters]
    simp [separators, Token.opens, Token.closes, separators_append hLevel,
      separators_deep hArgs.balanced]

theorem keeps_matched : Keeps IsMatched where
  blank h := (isSingle_of_plain (fluent_of_blank true h)
    (Mode.delimiters_of_plain (Mode.plain_of_allBlank h))).toIsMatched
  append ha hb := ha.append hb
  trim h := h.trim
  divide ha hb := by
    have hZero : IsMatched ['0'] := ⟨fluent_of_plain true (by decide), rfl⟩
    exact (isSingle_callText (by decide) (by simpa using ⟨ha, hb, hZero⟩)).toIsMatched

theorem keeps_single : Keeps IsSingle where
  blank h := isSingle_of_plain (fluent_of_blank true h)
    (Mode.delimiters_of_plain (Mode.plain_of_allBlank h))
  append ha hb := ha.append hb
  trim h := h.trim
  divide ha hb := by
    have hZero : IsMatched ['0'] := ⟨fluent_of_plain true (by decide), rfl⟩
    exact isSingle_callText (by decide) (by simpa using ⟨ha.toIsMatched, hb.toIsMatched, hZero⟩)

/-! ## Arguments -/

theorem IsArgument.isArgumentText (h : IsArgument text) (hFilled : text ≠ []) :
    IsArgumentText text := by
  have hEnds := trim_ends text
  rw [h.flush] at hEnds
  refine ⟨⟨h.fluent.calm, ?_, hFilled, hEnds.1, hEnds.2⟩, h.balanced, h.unparted⟩
  obtain ⟨c, rest, rfl⟩ := List.exists_cons_of_ne_nil hFilled
  refine Bool.eq_false_iff.2 fun hBegins => ?_
  obtain ⟨rfl, d, hd, hMark⟩ := beginsComment_cons hBegins
  obtain ⟨rest, rfl⟩ : ∃ cs, rest = d :: cs := by
    cases rest with
    | nil => cases hd
    | cons e cs => exact ⟨cs, by rw [Option.some.inj hd]⟩
  have hStays := h.fluent.stays
  rcases hMark with rfl | rfl <;> cases hStays

theorem trim_between (ha : trim a = a) (hb : trim b = b) (hFirst : a ≠ []) (hLast : b ≠ [])
    (m : List Char) : trim (a ++ m ++ b) = a ++ m ++ b := by
  have hHead := (trim_ends a).1
  have hEnd := (trim_ends b).2
  rw [ha] at hHead
  rw [hb] at hEnd
  obtain ⟨c, cs, rfl⟩ := List.exists_cons_of_ne_nil hFirst
  obtain ⟨ds, d, rfl⟩ := (List.eq_nil_or_concat b).resolve_left hLast
  refine trim_eq_self ?_ ?_
  · simpa using hHead
  · rw [List.getLast?_append]
    simpa using hEnd

/-- A generated call is an argument of another. -/
theorem isArgument_callText {name : String} (hName : name ∈ generatedFunctions)
    {texts : List (List Char)} (h : ∀ u ∈ texts, IsMatched u) : IsArgument (callText name texts) where
  toIsSingle := isSingle_callText (plain_of_generated hName) h
  flush := by
    have hAll : ∀ name ∈ generatedFunctions, trim name.toList = name.toList ∧ name.toList ≠ [] := by
      decide
    obtain ⟨hTrim, hFilled⟩ := hAll name hName
    have hBetween := trim_between (b := [')']) hTrim (by decide) hFilled (by decide)
      ('(' :: commaSeparated texts)
    simpa [callText] using hBetween
  parts := by
    have hAll : ∀ name ∈ generatedFunctions,
        (∀ c ∈ (inked name.toList).head?, partsSign c = true) ∧ inked name.toList ≠ [] := by
      decide
    obtain ⟨hName, hMarks⟩ := hAll name hName
    rw [callText, List.append_assoc]
    exact Parting.append hName hMarks _

theorem isArgument_column (t : Target) (d : List Char) : IsArgument (t.column d) where
  toIsSingle := isSingle_of_plain (apt_column true t d).fluent (apt_column true t d).plain
  flush := (renders_column t d).settled.trim_eq
  parts := (apt_column true t d).parts

theorem isArgument_texts (t : Target) :
    ∀ u ∈ [t.tableText, t.orderText, t.upToHere, [], "ASC".toList], IsArgument u := by
  have hPlain : ∀ u ∈ [t.tableText, t.orderText, t.upToHere, [], "ASC".toList], Fluent true u :=
    fluent_texts true t
  simp only [List.forall_mem_cons] at hPlain ⊢
  obtain ⟨hTable, -, -, hEmpty, hAscending, -⟩ := hPlain
  have hOrder : IsArgument t.orderText := isArgument_column t t.orderColumn
  have hFilled : t.orderText ≠ [] := (renders_column t t.orderColumn).settled.filled
  have hEarlier : IsArgument (callText "EARLIER" [t.orderText]) :=
    isArgument_callText (by decide) (by simpa using hOrder.toIsMatched)
  have hTest : IsSingle " <= ".toList := isSingle_of_plain (fluent_of_plain true (by decide)) (by decide)
  have hUpToHere : IsArgument t.upToHere := by
    refine ⟨(hOrder.toIsSingle.append hTest).append hEarlier.toIsSingle, ?_, ?_⟩
    · exact trim_between hOrder.flush hEarlier.flush hFilled (by simp [callText]) _
    · have hMarks := (apt_column true t t.orderColumn).marks
      exact (hOrder.parts.append hMarks _).append (by simp [hMarks, Target.orderText]) _
  have hTableText : IsArgument t.tableText :=
    ⟨isSingle_of_plain hTable (apt_tableRef true t.table).plain,
      (passed_tableRef t.table).settled.trim_eq, (apt_tableRef true t.table).parts⟩
  have hNothing : IsArgument [] := ⟨isSingle_of_plain hEmpty rfl, rfl, by simp [Parting, inked]⟩
  have hWord : IsArgument "ASC".toList :=
    ⟨isSingle_of_plain hAscending rfl, by decide, by unfold Parting; decide⟩
  exact ⟨hTableText, hOrder, hUpToHere, hNothing, hWord, by simp⟩

/-! ## Rows -/

/-- A lexeme whose text has the bracket or comma that its token is, and otherwise none that counts. -/
structure Faithful (l : Lexeme) : Prop where
  bears : Bears true (Fluent true) l
  sign : l.token = .slash → l.text = ['/']
  delimiters : l.token.isVerbatim = false →
    Mode.code.delimiters l.text = [l.token].filter Token.isDelimiter
  verbatim : l.token.isVerbatim = true → IsArgument l.text

variable {l l' : Lexeme} {ls ls' : List Lexeme}

theorem Faithful.restated (hl : Faithful l) (h : Restated true l l') : Faithful l' := by
  rcases h with rfl | hWord
  · exact hl
  · refine ⟨Restated.bears (.inr hWord) hl.bears, fun hSlash => absurd hSlash hWord.slash,
      fun _ => ?_, fun hVerbatim => ?_⟩
    · rw [hWord.text.plain]
      simp [hWord.delimiter.2]
    · rw [hWord.verbatim] at hVerbatim
      cases hVerbatim

theorem faithful_restated (hAll : ∀ l ∈ ls, Faithful l) (h : List.Forall₂ (Restated true) ls ls') :
    ∀ l ∈ ls', Faithful l := by
  induction h with
  | nil => exact hAll
  | cons hHead _ ih =>
    obtain ⟨hFirst, hRest⟩ := List.forall_mem_cons.1 hAll
    exact List.forall_mem_cons.2 ⟨hFirst.restated hHead, ih hRest⟩

theorem filter_restated {signs : Bool} (h : List.Forall₂ (Restated signs) ls ls') :
    (ls'.map Lexeme.token).filter Token.isDelimiter =
      (ls.map Lexeme.token).filter Token.isDelimiter := by
  induction h with
  | nil => rfl
  | cons hHead _ ih =>
    rcases hHead with rfl | hWord
    · simp only [List.map_cons, List.filter_cons, ih]
    · simp [hWord.delimiter, ih]

theorem isDelimiter_of_comma {t : Token} (h : (t == .comma) = true) : t.isDelimiter = true := by
  rw [eq_of_beq h]
  rfl

theorem balanced_of_filter (hSame : (ls'.map Lexeme.token).filter Token.isDelimiter =
    (ls.map Lexeme.token).filter Token.isDelimiter) (h : Balanced ls) : Balanced ls' := by
  rw [Formula.Balanced, ← level_filter, hSame, level_filter]
  exact h

theorem isSlot_of_filter (hSame : (ls'.map Lexeme.token).filter Token.isDelimiter =
    (ls.map Lexeme.token).filter Token.isDelimiter) (h : IsSlot ls) : IsSlot ls' where
  balanced := balanced_of_filter hSame h.balanced
  unparted := by
    rw [← separators_filter fun _ => isDelimiter_of_comma, hSame,
      separators_filter fun _ => isDelimiter_of_comma]
    exact h.unparted

theorem Faithful.isVerbatim_of_delimiter (h : l.token.isDelimiter = true) :
    l.token.isVerbatim = false := by
  cases hToken : l.token <;> simp_all [Token.isDelimiter, Token.isVerbatim]

theorem Faithful.delimiters_of_delimiter (hl : Faithful l) (h : l.token.isDelimiter = true) :
    Mode.code.delimiters l.text = [l.token] := by
  rw [hl.delimiters (isVerbatim_of_delimiter h)]
  simp [h]

/-- A lexeme that is no bracket has the property of its text. -/
theorem Faithful.bears_of {T : List Char → Prop} (hl : Faithful l)
    (hText : l.token ≠ .slash → T l.text)
    (hKept : ∀ b, T b → Fluent true ('/' :: b) → Mode.code.delimiters ('/' :: b) =
      Mode.code.delimiters b → T ('/' :: b))
    (hFluent : ∀ b, T b → Fluent true b) : Bears true T l where
  blank := hl.bears.blank
  marks := hl.bears.marks
  comment := hl.bears.comment
  text := hText
  kept _ hSlash b hb hMarks hParts := by
    have hFluent := hl.bears.kept rfl hSlash b (hFluent b hb) hMarks hParts
    rw [hl.sign hSlash] at hFluent ⊢
    exact hKept b hb hFluent hParts.delimiters_slash
  parts := hl.bears.parts

theorem Faithful.matched (hl : Faithful l) (hOpens : l.token.opens = false)
    (hCloses : l.token.closes = false) (hSlash : l.token ≠ .slash) : IsMatched l.text := by
  cases hVerbatim : l.token.isVerbatim with
  | true => exact (hl.verbatim hVerbatim).toIsMatched
  | false =>
    refine ⟨hl.bears.text hSlash, ?_⟩
    rw [hl.delimiters hVerbatim, level_filter]
    simp [level, hOpens, hCloses]

theorem Faithful.single (hl : Faithful l) (hOpens : l.token.opens = false)
    (hCloses : l.token.closes = false) (hSlash : l.token ≠ .slash) (hComma : l.token ≠ .comma) :
    IsSingle l.text := by
  refine ⟨hl.matched hOpens hCloses hSlash, ?_⟩
  cases hVerbatim : l.token.isVerbatim with
  | true => exact (hl.verbatim hVerbatim).unparted
  | false =>
    rw [hl.delimiters hVerbatim, separators_filter fun _ => isDelimiter_of_comma]
    simp [separators, hOpens, hCloses, hComma]

theorem grouped_single : Grouped true IsMatched IsSingle Faithful where
  brackets {opening closing} hOpening hClosing hOpens hCloses := by
    have hNotSlash : opening.token ≠ .slash ∧ closing.token ≠ .slash := by
      constructor <;> intro hSlash <;> simp_all [Token.opens, Token.closes]
    have hNot : closing.token.opens = false := by
      cases hToken : closing.token <;> simp_all [Token.opens, Token.closes]
    refine ⟨hOpens, hCloses, hOpening.bears.blank, hOpening.bears.marks, fun inner hInner => ?_,
      fun _ => hOpening.bears.parts rfl (Token.isJoint_of_opens hOpens)⟩
    have hBlank := fluent_of_blank true hClosing.bears.blank
    have hFirst := hOpening.bears.text hNotSlash.1
    have hLast := hBlank.append (hClosing.bears.text hNotSlash.2)
    have hDelimiters : Mode.code.delimiters (opening.text ++ inner ++ closing.written) =
        opening.token :: (Mode.code.delimiters inner ++ [closing.token]) := by
      rw [Lexeme.written, (hFirst.append hInner.fluent).delimiters_append hLast,
        hFirst.delimiters_append hInner.fluent,
        hBlank.delimiters_append (hClosing.bears.text hNotSlash.2),
        Mode.delimiters_of_plain (Mode.plain_of_allBlank hClosing.bears.blank),
        hOpening.delimiters_of_delimiter (isDelimiter_of_opens hOpens),
        hClosing.delimiters_of_delimiter (isDelimiter_of_closes hCloses)]
      rfl
    have hLevel := level_add hInner.balanced 1
    refine ⟨⟨(hFirst.append hInner.fluent).append hLast, ?_⟩, ?_⟩
    · rw [hDelimiters]
      simp [level, level_append, hOpens, hCloses, hNot, hLevel]
    · rw [hDelimiters]
      simp [separators, separators_append hLevel, separators_deep hInner.balanced, hOpens, hCloses,
        hNot]
  inner hl hOpens hCloses := hl.bears_of (hl.matched hOpens hCloses)
    (fun b hb hFluent hSame => ⟨hFluent, hSame ▸ hb.balanced⟩) fun b hb => hb.fluent
  outer hl hOpens hCloses hComma := hl.bears_of (fun hSlash => hl.single hOpens hCloses hSlash hComma)
    (fun b hb hFluent hSame => ⟨⟨hFluent, hSame ▸ hb.balanced⟩, hSame ▸ hb.unparted⟩)
    fun b hb => hb.fluent
  weaken h := h.toIsMatched

theorem isFluentRow_of_faithful (hAll : ∀ l ∈ ls, Faithful l) (hFlanked : Flanked true ls) :
    IsFluentRow true ls :=
  ⟨fun l hl => (hAll l hl).bears, hFlanked⟩

variable {t : Target}

/-- The rules for single lexemes leave the brackets and commas of a row where they are. -/
theorem faithful_rules (ht : t.IsNamed) (hAll : ∀ l ∈ ls, Faithful l) (hFlanked : Flanked true ls) :
    (∀ l ∈ qualify t none (normalize (mapFunctions t ls)), Faithful l) ∧
      IsFluentRow true (qualify t none (normalize (mapFunctions t ls))) ∧
      ((qualify t none (normalize (mapFunctions t ls))).map Lexeme.token).filter Token.isDelimiter =
        (ls.map Lexeme.token).filter Token.isDelimiter := by
  have hMapped := @restated_mapFunctions true t ht ls
  have hNormal := @restated_normalize true (mapFunctions t ls)
  have hQualified := @restated_qualify true t none (normalize (mapFunctions t ls))
  refine ⟨?_, ?_, ?_⟩
  · exact faithful_restated (faithful_restated (faithful_restated hAll hMapped) hNormal) hQualified
  · exact (((isFluentRow_of_faithful hAll hFlanked).restated hMapped).restated hNormal).restated
      hQualified
  · exact (filter_restated hQualified).trans ((filter_restated hNormal).trans (filter_restated hMapped))

/-- The standard rules make an argument of a row that no comma parts, and none that is blank. -/
theorem isArgument_standard (ht : t.IsNamed) (hAll : ∀ l ∈ ls, Faithful l)
    (hFlanked : Flanked true ls) (hSlot : IsSlot ls) :
    IsArgument (standard t ls) ∧ (ls ≠ [] → inked (standard t ls) ≠ []) := by
  obtain ⟨hFaithful, hRow, hTokens⟩ := faithful_rules ht hAll hFlanked
  have hFinal := isSlot_of_filter hTokens hSlot
  have hPieces := piecesHave_group grouped_single hFaithful
    (.inr ⟨hFinal.balanced, .inr hFinal.unparted⟩)
  obtain ⟨hText, -⟩ := convertDivision_keeps keeps_matched keeps_single hPieces hRow.flanked
  have hParts := parting_convertDivision keeps_matched keeps_single rfl hPieces hRow.flanked
  refine ⟨⟨hText.trim, trim_trim _, hParts.trim⟩, ?_⟩
  exact (fluent_standard ht (isFluentRow_of_faithful hAll hFlanked)).2

/-! ## Rows that are only qualified -/

theorem Faithful.level_text (hl : Faithful l) (hSlash : l.token ≠ .slash) (depth : Nat) :
    level depth (Mode.code.delimiters l.text) = level depth [l.token] := by
  cases hVerbatim : l.token.isVerbatim with
  | true =>
    have hLevel := level_add (hl.verbatim hVerbatim).balanced depth
    rw [Nat.zero_add] at hLevel
    rw [hLevel]
    cases hToken : l.token <;> simp_all [Token.isVerbatim, level, Token.opens, Token.closes]
  | false => rw [hl.delimiters hVerbatim, level_filter]

theorem marks_written (hMarks : inked l.text ≠ []) (rest : List Lexeme) :
    inked (written (l :: rest)) ≠ [] := by
  rw [written_cons, inked_append, inked_append]
  intro hEmpty
  exact hMarks (List.append_eq_nil_iff.1 (List.append_eq_nil_iff.1 hEmpty).2).1

/-- A flanked row leads to the depth that its tokens lead to. -/
theorem written_spec (hAll : ∀ l ∈ ls, Faithful l) (hChain : ls.IsChain (Meets true))
    (hLast : ∀ l ∈ ls.getLast?, l.token.isJoint true = false) :
    Fluent true (written ls) ∧
      ∀ depth, level depth (Mode.code.delimiters (written ls)) = level depth (ls.map Lexeme.token) := by
  induction ls with
  | nil => exact ⟨fluent_of_blank true rfl, fun _ => rfl⟩
  | cons l ls ih =>
    obtain ⟨hl, hRest⟩ := List.forall_mem_cons.1 hAll
    have hBlank := fluent_of_blank true hl.bears.blank
    have hNone := Mode.delimiters_of_plain (Mode.plain_of_allBlank hl.bears.blank)
    have hTail := ih hRest hChain.tail fun m hm => hLast m (by
      rw [List.getLast?_cons, Option.mem_def.1 hm]
      rfl)
    rw [written_cons]
    by_cases hSlash : l.token = .slash
    · cases ls with
      | nil =>
        have hJoint := hLast l rfl
        rw [hSlash] at hJoint
        cases hJoint
      | cons m rest =>
        have hMeets := (List.isChain_cons_cons.1 hChain).1
        have hm := hRest m List.mem_cons_self
        have hBegins := hMeets.right (by rw [hSlash]; rfl)
        have hText := hm.bears.parts rfl (Token.isJoint_of_beginsFactor hBegins)
        have hParts : Parting (written (m :: rest)) := by
          rw [written_cons]
          exact (hText.append hm.bears.marks (written rest)).indent hm.bears.blank
        have hKept := hl.bears.kept rfl hSlash _ hTail.1 (marks_written hm.bears.marks rest) hParts
        refine ⟨hBlank.append hKept, fun depth => ?_⟩
        rw [hBlank.delimiters_append hKept, hNone, hl.sign hSlash, List.nil_append,
          List.singleton_append, hParts.delimiters_slash, hTail.2 depth]
        simp [level, hSlash, Token.opens, Token.closes]
    · have hText := hl.bears.text hSlash
      refine ⟨hBlank.append (hText.append hTail.1), fun depth => ?_⟩
      have hTokens : (l :: ls).map Lexeme.token = [l.token] ++ ls.map Lexeme.token := rfl
      rw [hBlank.delimiters_append (hText.append hTail.1), hNone, hText.delimiters_append hTail.1,
        List.nil_append, level_append, hl.level_text hSlash, hTokens, level_append]
      simp only [hTail.2]

theorem render_eq_trim (hBlank : ∀ l ∈ ls, allBlank l.leading = true) :
    render ls = trim (written ls) := by
  cases ls with
  | nil => rfl
  | cons l ls =>
    have hStart : (l.leading ++ (l.text ++ written ls)).dropWhile isBlank =
        (l.text ++ written ls).dropWhile isBlank :=
      List.dropWhile_append_of_pos (List.all_eq_true.1 (hBlank l List.mem_cons_self))
    rw [render, written_cons, trim, trim, trimStart, trimStart, hStart]

/-- Spelling and qualification make a matched text of a balanced row, and none that is blank. -/
theorem isMatched_qualified (t : Target) (hAll : ∀ l ∈ ls, Faithful l)
    (hFlanked : Flanked true ls) (hBalanced : Balanced ls) :
    IsMatched (qualified t ls) ∧ (ls ≠ [] → inked (qualified t ls) ≠ []) := by
  have hNormal := @restated_normalize true ls
  have hQualified := @restated_qualify true t none (normalize ls)
  have hFaithful := faithful_restated (faithful_restated hAll hNormal) hQualified
  have hRow := ((isFluentRow_of_faithful hAll hFlanked).restated hNormal).restated hQualified
  obtain ⟨hFluent, hLevel⟩ := written_spec hFaithful hRow.flanked.chain hRow.flanked.last
  have hTokens := (filter_restated hQualified).trans (filter_restated hNormal)
  have hWritten : IsMatched (written (qualify t none (normalize ls))) := by
    refine ⟨hFluent, ?_⟩
    rw [hLevel]
    exact balanced_of_filter hTokens hBalanced
  have hRender := render_eq_trim fun l hl => (hFaithful l hl).bears.blank
  rw [qualified, hRender]
  refine ⟨hWritten.trim, fun hFilled => ?_⟩
  rw [inked_trim]
  have hLength := hNormal.length_eq.trans hQualified.length_eq
  obtain ⟨l, rest, hRest⟩ := List.exists_cons_of_length_pos
    (hLength ▸ List.length_pos_of_ne_nil hFilled)
  have hMarks := (hFaithful l (by rw [hRest]; exact List.mem_cons_self)).bears.marks
  rw [hRest]
  exact marks_written hMarks rest

end DaxMigration.Dax
