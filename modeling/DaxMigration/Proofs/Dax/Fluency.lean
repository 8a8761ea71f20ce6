import DaxMigration.Proofs.Dax.Folding
import DaxMigration.Proofs.Dax.Spelling

/-!
# Fluent conversions

The standard rules keep a row flanked and its texts fluent, and calls of fluent texts are fluent. So
a row in which every division has both operands is written without a division sign.
-/

namespace DaxMigration.Dax

open Formula Text

variable {signs : Bool}

/-! ## Generated calls -/

theorem fluent_commaSeparated {texts : List (List Char)} (h : ∀ u ∈ texts, Fluent signs u) :
    Fluent signs (commaSeparated texts) := by
  induction texts with
  | nil => exact fluent_of_blank signs rfl
  | cons text rest ih =>
    obtain ⟨hText, hRest⟩ := List.forall_mem_cons.1 h
    cases rest with
    | nil => simpa [commaSeparated, List.intercalate] using hText
    | cons second rest =>
      have hComma : Fluent signs [','] := fluent_single signs (by decide) (by decide)
      have hSpace : Fluent signs [' '] := fluent_of_blank signs (by decide)
      have hAll := hText.append (hComma.append (hSpace.append (ih hRest)))
      simpa [commaSeparated, List.intercalate] using hAll

theorem fluent_callText {name : String} (hName : ∀ c ∈ name.toList, Mode.IsPlain c)
    {texts : List (List Char)} (h : ∀ u ∈ texts, Fluent signs u) :
    Fluent signs (callText name texts) := by
  have hOpen : Fluent signs ['('] := fluent_single signs (by decide) (by decide)
  have hClose : Fluent signs [')'] := fluent_single signs (by decide) (by decide)
  have hAll := (fluent_of_plain signs hName).append
    (hOpen.append ((fluent_commaSeparated h).append hClose))
  simpa [callText] using hAll

theorem plain_of_generated {name : String} (h : name ∈ generatedFunctions) :
    ∀ c ∈ name.toList, Mode.IsPlain c := by
  have hAll : ∀ name ∈ generatedFunctions, ∀ c ∈ name.toList, Mode.IsPlain c := by decide
  exact hAll name h

theorem keeps_fluent (signs : Bool) : Keeps (Fluent signs) where
  blank h := fluent_of_blank signs h
  append ha hb := ha.append hb
  trim h := h.trim
  divide ha hb := by
    refine fluent_callText (by decide) ?_
    have hZero : Fluent signs ['0'] := fluent_of_plain signs (by decide)
    simpa using ⟨ha, hb, hZero⟩

/-! ## Rules for single lexemes -/

/-- The functions of the target are written without white space, brackets, quotes, commas or
signs. -/
def Target.IsNamed (t : Target) : Prop :=
  ∀ name text, t.function? name = some text →
    text ≠ [] ∧ ∀ c ∈ text, isBlank c = false ∧ c ∉ '*' :: Mode.special

/-- A text that can take the place of any that is neither a sign nor a delimiter. -/
structure Apt (signs : Bool) (text : List Char) : Prop where
  fluent : Fluent signs text
  marks : inked text ≠ []
  parts : Parting text
  plain : Mode.code.delimiters text = []

theorem Apt.append {a b : List Char} (ha : Apt signs a) (hb : Fluent signs b)
    (hPlain : Mode.code.delimiters b = []) : Apt signs (a ++ b) where
  fluent := ha.fluent.append hb
  marks := by
    rw [inked_append]
    exact fun hEmpty => ha.marks (List.append_eq_nil_iff.1 hEmpty).1
  parts := ha.parts.append ha.marks b
  plain := by rw [ha.fluent.delimiters_append hb, ha.plain, hPlain, List.append_nil]

theorem apt_of_plain (signs : Bool) {text : List Char} (hFilled : text ≠ [])
    (h : ∀ c ∈ text, isBlank c = false ∧ c ∉ '*' :: Mode.special) : Apt signs text := by
  have hPlain : ∀ c ∈ text, Mode.IsPlain c := fun c hc =>
    Mode.isPlain_of_not_mem fun hMem => (h c hc).2 (List.mem_cons_of_mem _ hMem)
  refine ⟨fluent_of_plain signs hPlain, ?_, fun c hc => ?_, Mode.delimiters_of_plain hPlain⟩
  · obtain ⟨c, text, rfl⟩ := List.exists_cons_of_ne_nil hFilled
    simp [inked, (h c List.mem_cons_self).1]
  · have hNone := (h c (List.mem_filter.1 (List.mem_of_mem_head? hc)).1).2
    simp only [Mode.special, List.mem_cons, not_or] at hNone
    simp [partsSign, hNone]

theorem apt_literal (signs : Bool) {c q : Char} {token : List Char → Token}
    (h : Scan.IsLiteral c q token) (s : List Char) : Apt signs (c :: (double q s ++ [q])) where
  fluent := fluent_literal signs h s
  marks := by
    cases h <;> simp [inked, show isBlank '"' = false by decide, show isBlank '\'' = false by decide,
      show isBlank '[' = false by decide]
  parts d hd := by
    have hBlank : isBlank c = false := by cases h <;> decide
    obtain rfl : c = d := by simpa [inked, hBlank] using hd
    cases h <;> decide
  plain := delimiters_literal h s

theorem apt_tableRef (signs : Bool) (name : List Char) : Apt signs (tableRef name) := by
  unfold tableRef
  split
  · rename_i hName
    obtain ⟨hFirst, hAll⟩ := Bool.and_eq_true_iff.1 hName
    refine apt_of_plain signs (by rintro hEmpty; rw [hEmpty] at hFirst; cases hFirst) fun c hc => ?_
    have hLetter := List.all_eq_true.1 hAll c hc
    refine ⟨isBlank_of_isAlphanumeric hLetter, fun hMem => ?_⟩
    have hNone : ∀ d ∈ '*' :: Mode.special, (isAlphanumeric d || d == '_') = false := by decide
    rw [hNone c hMem] at hLetter
    cases hLetter
  · exact apt_literal signs .singleQuoted name

theorem apt_column (signs : Bool) (t : Target) (name : List Char) : Apt signs (t.column name) :=
  (apt_tableRef signs t.table).append (fluent_literal signs .field name)
    (delimiters_literal .field name)

structure Reworded (signs : Bool) (l l' : Lexeme) : Prop where
  leading : l'.leading = l.leading
  text : Apt signs l'.text
  joint : l'.token.isJoint signs = l.token.isJoint signs
  ends : l'.token.endsFactor signs = l.token.endsFactor signs
  begins : l'.token.beginsFactor signs = l.token.beginsFactor signs
  comment : l'.isComment = false
  slash : l'.token ≠ .slash
  verbatim : l'.token.isVerbatim = false
  delimiter : l.token.isDelimiter = false ∧ l'.token.isDelimiter = false

def Restated (signs : Bool) (l l' : Lexeme) : Prop :=
  l' = l ∨ Reworded signs l l'

namespace Restated

variable {l l' : Lexeme}

theorem joint (h : Restated signs l l') : l'.token.isJoint signs = l.token.isJoint signs := by
  rcases h with rfl | h
  · rfl
  · exact h.joint

theorem ends (h : Restated signs l l') : l'.token.endsFactor signs = l.token.endsFactor signs := by
  rcases h with rfl | h
  · rfl
  · exact h.ends

theorem begins (h : Restated signs l l') :
    l'.token.beginsFactor signs = l.token.beginsFactor signs := by
  rcases h with rfl | h
  · rfl
  · exact h.begins

theorem bears (h : Restated signs l l') (hl : Bears signs (Fluent signs) l) :
    Bears signs (Fluent signs) l' := by
  rcases h with rfl | h
  · exact hl
  · exact ⟨h.leading ▸ hl.blank, h.text.marks, h.comment, fun _ => h.text.fluent,
      fun _ hSame => absurd hSame h.slash, fun _ _ => h.text.parts⟩

end Restated

theorem restated_mapFunctions {t : Target} (ht : t.IsNamed) (ls : List Lexeme) :
    List.Forall₂ (Restated signs) ls (mapFunctions t ls) := by
  induction ls with
  | nil => exact .nil
  | cons l ls ih =>
    rw [mapFunctions]
    split
    · rename_i text hText
      refine .cons (.inr ?_) ih
      obtain ⟨name, hCalled, hFunction⟩ := Option.bind_eq_some_iff.1 hText
      obtain ⟨hFilled, hPlain⟩ := ht name text hFunction
      have hToken : l.token = .identifier name := by
        unfold calledName? at hCalled
        split at hCalled
        · rename_i word hWord
          split at hCalled
          · rw [hWord, Option.some.inj hCalled]
          · cases hCalled
        · cases hCalled
      refine ⟨rfl, apt_of_plain signs hFilled hPlain, rfl, rfl, rfl, ?_, ?_, ?_, ?_⟩
      · rw [Lexeme.isComment, hToken]
        rfl
      all_goals rw [hToken]; simp [Token.isVerbatim, Token.isDelimiter]
    · exact .cons (.inl rfl) ih

theorem restated_normalize (ls : List Lexeme) :
    List.Forall₂ (Restated signs) ls (normalize ls) := by
  induction ls with
  | nil => exact .nil
  | cons l ls ih =>
    obtain ⟨token, text, leading⟩ := l
    refine .cons ?_ ih
    split
    · rename_i hToken
      obtain rfl : token = .notEqual := hToken
      have hText : Apt signs ['<', '>'] := apt_of_plain signs (by decide) (by decide)
      exact .inr ⟨rfl, hText, rfl, rfl, rfl, rfl, by simp, rfl,
        rfl, rfl⟩
    · rename_i hToken
      obtain rfl : token = .doubleEquals := hToken
      have hText : Apt signs ['='] := apt_of_plain signs (by decide) (by decide)
      exact .inr ⟨rfl, hText, rfl, rfl, rfl, rfl, by simp, rfl,
        rfl, rfl⟩
    · rename_i s hToken
      obtain rfl : token = .singleQuoted s := hToken
      split
      · exact .inl rfl
      · exact .inr ⟨rfl, apt_literal signs .string s, rfl, rfl, rfl, rfl, by simp, rfl, rfl, rfl⟩
    · exact .inl rfl

theorem restated_qualify (t : Target) (previous : Option Token) (ls : List Lexeme) :
    List.Forall₂ (Restated signs) ls (qualify t previous ls) := by
  induction ls generalizing previous with
  | nil => exact .nil
  | cons l ls ih =>
    obtain ⟨token, text, leading⟩ := l
    refine .cons ?_ (ih _)
    split
    · rename_i name hToken
      obtain rfl : token = .field name := hToken
      split
      · exact .inl rfl
      · exact .inr ⟨rfl, apt_column signs t name, rfl, rfl, rfl, rfl, by simp, rfl, rfl, rfl⟩
    · exact .inl rfl

/-! ## Restated rows -/

structure IsFluentRow (signs : Bool) (ls : List Lexeme) : Prop where
  bears : ∀ l ∈ ls, Bears signs (Fluent signs) l
  flanked : Flanked signs ls

theorem meets_restated {l l' m m' : Lexeme} (h : Meets signs l m) (hl : Restated signs l l')
    (hm : Restated signs m m') : Meets signs l' m' := by
  refine ⟨fun hJoint => ?_, fun hJoint => ?_⟩
  · rw [hl.ends]
    exact h.left (hm.joint ▸ hJoint)
  · rw [hm.begins]
    exact h.right (hl.joint ▸ hJoint)

theorem isChain_restated {ls ls' : List Lexeme} (hChain : ls.IsChain (Meets signs))
    (h : List.Forall₂ (Restated signs) ls ls') : ls'.IsChain (Meets signs) := by
  induction h with
  | nil => exact .nil
  | @cons l l' ls ls' hFirst hRest ih =>
    cases hRest with
    | nil => exact .singleton l'
    | cons hSecond _ =>
      obtain ⟨hThis, hOthers⟩ := List.isChain_cons_cons.1 hChain
      exact .cons_cons (meets_restated hThis hFirst hSecond) (ih hOthers)

theorem bears_restated {ls ls' : List Lexeme} (h : ∀ l ∈ ls, Bears signs (Fluent signs) l)
    (hAll : List.Forall₂ (Restated signs) ls ls') : ∀ l ∈ ls', Bears signs (Fluent signs) l := by
  induction hAll with
  | nil => exact h
  | cons hHead _ ih =>
    obtain ⟨hFirst, hRest⟩ := List.forall_mem_cons.1 h
    exact List.forall_mem_cons.2 ⟨hHead.bears hFirst, ih hRest⟩

theorem IsFluentRow.restated {ls ls' : List Lexeme} (h : IsFluentRow signs ls)
    (hAll : List.Forall₂ (Restated signs) ls ls') : IsFluentRow signs ls' where
  bears := bears_restated h.bears hAll
  flanked := by
    have hEnclosed := h.flanked.enclosed (x := openSign) (y := closeSign) rfl rfl
    have hBoth := isChain_restated hEnclosed
      (.cons (.inl rfl) (List.rel_append hAll (.cons (.inl rfl) .nil)))
    exact flanked_of_enclosed hBoth rfl rfl

theorem grouped_fluent (signs : Bool) :
    Grouped signs (Fluent signs) (Fluent signs) (Bears signs (Fluent signs)) where
  inner h _ _ := h
  outer h _ _ _ := h
  weaken h := h
  brackets {opening closing} hOpening hClosing hOpens hCloses := by
    have hNotSlash : opening.token ≠ .slash ∧ closing.token ≠ .slash := by
      constructor <;> intro hSlash <;> simp_all [Token.opens, Token.closes]
    refine ⟨hOpens, hCloses, hOpening.blank, hOpening.marks, fun inner hInner => ?_,
      fun hSigns => hOpening.parts hSigns (Token.isJoint_of_opens hOpens)⟩
    have hBlank : Fluent signs closing.leading := fluent_of_blank signs hClosing.blank
    exact ((hOpening.text hNotSlash.1).append hInner).append
      (hBlank.append (hClosing.text hNotSlash.2))

/-- A lexeme of a formula, which is no comment, open literal or stray bracket. -/
theorem bears_of_mem_tokenize (signs : Bool) {formula : List Char} {l : Lexeme}
    (hl : l ∈ tokenize formula) (hTerminated : l.isTerminated = true)
    (hComment : l.isComment = false) (hClosed : l.token ≠ .illegal ']') :
    Bears signs (Fluent signs) l where
  blank := (isRead_tokenize formula).blank l hl
  marks := inked_of_mem_tokenize hl
  comment := hComment
  text := fluent_of_mem_tokenize signs hl hTerminated hComment hClosed
  kept hSigns hSlash b hb hMarks hParts := by
    subst hSigns
    rw [text_of_slash hl hSlash]
    exact hb.slash hMarks hParts
  parts hSigns hJoint := by
    subst hSigns
    refine parting_of_mem_tokenize hl hComment ?_ ?_ <;> rintro hToken <;> rw [hToken] at hJoint <;>
      cases hJoint

/-- The standard rules make a fluent text of a fluent row, and none that is blank. -/
theorem fluent_standard {t : Target} (ht : t.IsNamed) {ls : List Lexeme}
    (h : IsFluentRow signs ls) :
    Fluent signs (standard t ls) ∧ (ls ≠ [] → inked (standard t ls) ≠ []) := by
  have hMapped := h.restated (restated_mapFunctions ht ls)
  have hNormal := hMapped.restated (restated_normalize _)
  have hRow := hNormal.restated (restated_qualify t none _)
  have hPieces := piecesHave_group (grouped_fluent signs) hRow.bears
    (.inl ⟨rfl, fun _ hl => hl⟩)
  obtain ⟨hText, hMarks⟩ :=
    convertDivision_keeps (keeps_fluent signs) (keeps_fluent signs) hPieces hRow.flanked
  refine ⟨hText.trim, fun hFilled => ?_⟩
  rw [standard, inked_trim]
  refine hMarks fun hEmpty => hFilled ?_
  have hLengths := (@restated_mapFunctions signs t ht ls).length_eq.trans
    ((@restated_normalize signs _).length_eq.trans (@restated_qualify signs t none _).length_eq)
  rw [hEmpty] at hLengths
  exact List.length_eq_zero_iff.1 hLengths

end DaxMigration.Dax
