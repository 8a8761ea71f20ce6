import DaxMigration.Proofs.Dax.Neighbours
import DaxMigration.Proofs.Formula.Junctures

/-!
# Neighbours of spliced texts

A spliced text takes the place of an operand, so that it is followed by what may follow every operand
and follows what every operand may follow. Rows in which this is so stay such rows when quotients are
made calls.
-/

namespace DaxMigration.Dax

open Formula Text

structure Touches (l m : Lexeme) : Prop where
  sits : Sits l m
  abuts : Abuts l m

theorem touches_of_not_isAtom {l m : Lexeme} (h : Sits l m) (hAtom : l.token.isAtom = false) :
    Touches l m :=
  ⟨h, h.fits.imp id fun hHead d hd => Token.admits_of_not_isAtom hAtom (hHead d hd)⟩

theorem isAtom_of_opensTerm {t : Token} (h : opensTerm t = true) : t.isAtom = false := by
  cases t <;> first | rfl | cases h

theorem touches_commaSign (l : Lexeme) : Touches l commaSign := by
  cases hAtom : l.token.isAtom with
  | false => exact touches_of_not_isAtom (sits_commaSign l) hAtom
  | true =>
    refine ⟨sits_commaSign l, .inr fun d hd => Token.admits_of_separates hAtom ?_⟩
    obtain rfl : ',' = d := by simpa [commaSign] using hd
    decide

theorem neighbourly_touches : Neighbourly Touches where
  comma := touches_commaSign
  closing m := touches_of_not_isAtom (sits_of_closeSign m) rfl
  opening h := touches_of_not_isAtom (sits_of_openSign h) rfl
  second h := touches_of_not_isAtom (sits_of_commaSign h) rfl
  name leading := touches_of_not_isAtom (sits_divideName leading) rfl
  zero := by
    refine ⟨sits_zeroSign, .inr fun d hd => Token.admits_of_separates rfl ?_⟩
    obtain rfl : ')' = d := by simpa [closeSign] using hd
    decide
  call h hOpens hBegins :=
    touches_of_not_isAtom (sits_divideName_of_left h.sits hOpens hBegins) (isAtom_of_opensTerm hOpens)
  leading h leading := ⟨neighbourly_sits.leading h.sits leading, h.abuts⟩
  sign h := h.sits.sign

/-! ## Operands among operators -/

def starts (t : Token) : Bool :=
  t.isAtom || t.startsOperand

def ends (t : Token) : Bool :=
  t.isAtom || t == .rparen

/-- Which lexeme can stand directly after another where texts stand for operands. -/
inductive Adjoins (l m : Lexeme) : Prop
  | ended (hEnd : ends l.token = true) (hNext : m.token.isOperator = true ∨ m.token = .rparen)
  | connective (hEnd : ends l.token = true) (hApart : m.isAttached = false)
  | operand (hSign : l.token.isOperator = true ∨ l.token = .lparen) (hStart : starts m.token = true)
  | word (hApart : m.isAttached = false) (hStart : starts m.token = true)
  | name {name : List Char} (hFirst : l.token = .identifier name) (hName : isKeyword name = false)
      (hOpening : m.token = .lparen)
  | empty (hOpening : l.token = .lparen) (hClosing : m.token = .rparen)
  /-- A field as it is written behind its table. -/
  | column (hTable : IsTable l.token) (hField : m.token.isField = true) (hAttached : m.isAttached = true)
      (hText : ∀ d ∈ m.text.head?, d = '[')

structure IsSeated (ls : List Lexeme) : Prop where
  filled : ls ≠ []
  head : ∀ l ∈ ls.head?, starts l.token = true
  last : ∀ l ∈ ls.getLast?, ends l.token = true
  chain : ls.IsChain Adjoins

namespace IsSeated

variable {a b : List Lexeme} {l : Lexeme}

theorem single (hAtom : l.token.isAtom = true) : IsSeated [l] :=
  ⟨by simp, by simp [starts, hAtom], by simp [ends, hAtom], .singleton l⟩

/-- A row with something in front of it. -/
theorem after (hb : IsSeated b) (hStart : starts l.token = true)
    (hNext : ∀ m ∈ b.head?, Adjoins l m) : IsSeated (l :: b) where
  filled := by simp
  head := by simpa using hStart
  last m hm := by
    refine hb.last m ?_
    rw [List.getLast?_cons, List.getLast?_eq_some_getLast hb.filled] at hm
    rw [List.getLast?_eq_some_getLast hb.filled]
    exact hm
  chain := List.isChain_cons.2 ⟨hNext, hb.chain⟩

/-- Two rows with something between them. -/
theorem join (ha : IsSeated a) (hb : IsSeated b) (hLeft : ∀ m, ends m.token = true → Adjoins m l)
    (hRight : ∀ m ∈ b.head?, Adjoins l m) : IsSeated (a ++ l :: b) where
  filled := by simp
  head m hm := by
    obtain ⟨k, ks, rfl⟩ := List.exists_cons_of_ne_nil ha.filled
    exact ha.head m hm
  last m hm := by
    refine hb.last m ?_
    rw [List.getLast?_append, List.getLast?_cons, List.getLast?_eq_some_getLast hb.filled] at hm
    rw [List.getLast?_eq_some_getLast hb.filled]
    simpa using hm
  chain := by
    refine List.isChain_append.2 ⟨ha.chain, List.isChain_cons.2 ⟨hRight, hb.chain⟩, ?_⟩
    intro k hk m hm
    obtain rfl : l = m := by simpa using hm
    exact hLeft k (ha.last k hk)

theorem bracketed (h : b = [] ∨ IsSeated b) {opening closing : Lexeme}
    (hOpening : opening.token = .lparen) (hClosing : closing.token = .rparen) :
    IsSeated (opening :: (b ++ [closing])) where
  filled := by simp
  head := by simp [hOpening, starts, Token.startsOperand]
  last m hm := by
    rw [← List.cons_append, List.getLast?_append] at hm
    obtain rfl : closing = m := by simpa using hm
    simp [ends, hClosing]
  chain := by
    rcases h with rfl | h
    · exact .cons_cons (.empty hOpening hClosing) (.singleton _)
    · refine List.isChain_cons.2 ⟨fun m hm => .operand (.inr hOpening) (h.head m ?_), ?_⟩
      · obtain ⟨k, ks, rfl⟩ := List.exists_cons_of_ne_nil h.filled
        exact hm
      · refine List.isChain_append.2 ⟨h.chain, .singleton _, fun k hk m hm => ?_⟩
        obtain rfl : closing = m := by simpa using hm
        exact .ended (h.last k hk) (.inr hClosing)

end IsSeated

theorem starts_of_isTable {t : Token} (h : IsTable t) : starts t = true := by
  cases h <;> rfl

theorem starts_of_sign {t : Token} (h : t = .plus ∨ t = .minus) :
    starts t = true ∧ t.isOperator = true := by
  rcases h with rfl | rfl <;> exact ⟨rfl, rfl⟩

/-- A phrase without blocks is such a row. -/
theorem isSeated_phrase {n k : Nat} {ls : List Lexeme} (h : Phrase n k ls)
    (hPlain : ∀ l ∈ ls, l.token ≠ .lbrace)
    (hFields : ∀ l ∈ ls, l.token.isField = true → ∀ d ∈ l.text.head?, d = '[') :
    ls = [] ∨ IsSeated ls := by
  have hFilled : ∀ {n : Nat} {e : List Lexeme}, Phrase n 1 e → (e = [] ∨ IsSeated e) → IsSeated e :=
    fun h hRow => hRow.resolve_left h.filled
  induction h with
  | nil => exact .inl rfl
  | atom hAtom => exact .inr (.single hAtom)
  | @column _ table l name hTable hField hAttached =>
    have hToken : l.token.isField = true := by rw [hField]; rfl
    have hField : IsSeated [l] := .single (by rw [hField]; rfl)
    refine .inr (hField.after (starts_of_isTable hTable) fun m hm => ?_)
    obtain rfl : l = m := by simpa using hm
    exact .column hTable hToken hAttached (hFields _ (by simp) hToken)
  | group hOpening _ hClosing ih =>
    simp only [List.forall_mem_cons, List.forall_mem_append] at hPlain hFields
    exact .inr (.bracketed (ih hPlain.2.1 hFields.2.1) hOpening hClosing)
  | call hFirst hName hOpening _ _ hClosing ih =>
    simp only [List.forall_mem_cons, List.forall_mem_append] at hPlain hFields
    refine .inr ((IsSeated.bracketed (ih hPlain.2.2.1 hFields.2.2.1) hOpening hClosing).after ?_ ?_)
    · simp [hFirst, starts, Token.startsOperand]
    · intro m hm
      obtain rfl : _ = m := by simpa using hm
      exact .name hFirst hName hOpening
  | signed hSign h ih =>
    obtain ⟨hStart, hOperator⟩ := starts_of_sign hSign
    have hRow := hFilled h (ih (List.forall_mem_cons.1 hPlain).2 (List.forall_mem_cons.1 hFields).2)
    exact .inr (hRow.after hStart fun m hm => .operand (.inl hOperator) (hRow.head m hm))
  | negation hWord hApart h ih =>
    have hRow := hFilled h (ih (List.forall_mem_cons.1 hPlain).2 (List.forall_mem_cons.1 hFields).2)
    exact .inr (hRow.after (by rw [hWord]; rfl) fun m hm => .word (hApart m hm) (hRow.head m hm))
  | operation ha hSign hComma hb iha ihb =>
    simp only [List.forall_mem_cons, List.forall_mem_append] at hPlain hFields
    have hLeft := hFilled ha (iha hPlain.1 hFields.1)
    have hRight := hFilled hb (ihb hPlain.2.2 hFields.2.2)
    exact .inr (hLeft.join hRight (fun m hm => .ended hm (.inl hSign))
      fun m hm => .operand (.inl hSign) (hRight.head m hm))
  | connective ha hWord hBefore hAfter hb iha ihb =>
    simp only [List.forall_mem_cons, List.forall_mem_append] at hPlain hFields
    have hLeft := hFilled ha (iha hPlain.1 hFields.1)
    have hRight := hFilled hb (ihb hPlain.2.2 hFields.2.2)
    exact .inr (hLeft.join hRight (fun m hm => .connective hm hBefore)
      fun m hm => .word (hAfter m hm) (hRight.head m hm))
  | block hOpening | headed hOpening => exact absurd hOpening (hPlain _ List.mem_cons_self)
  | more ha hComma hb iha ihb =>
    simp only [List.forall_mem_cons, List.forall_mem_append] at hPlain hFields
    have hLeft := hFilled ha (iha hPlain.1 hFields.1)
    have hRight := (ihb hPlain.2.2 hFields.2.2).resolve_left hb.filled
    have hSign : Token.comma.isOperator = true := rfl
    rw [← hComma] at hSign
    exact .inr (hLeft.join hRight (fun m hm => .ended hm (.inl hSign))
      fun m hm => .operand (.inl hSign) (hRight.head m hm))

/-! ## Rows that are read -/

structure Begins (l : Lexeme) : Prop where
  operand : starts l.token = true → ∀ d ∈ l.text.head?, d ∉ ['=', '>', '/', '*']
  sign : l.token.isAtom = false → ∀ d ∈ l.text.head?, l.token.begins d = true

theorem Begins.with_leading {l : Lexeme} (h : Begins l) (leading : List Char) :
    Begins { l with leading := leading } :=
  ⟨h.operand, h.sign⟩

theorem begins_of_whole {l : Lexeme} (h : Whole l) (hVerbatim : l.token.isVerbatim = false) :
    Begins l where
  operand hStart d hd hMem := by
    have hBegins := h.begins d hd
    rw [starts, Bool.or_eq_true] at hStart
    rcases hStart with hAtom | hStart
    · cases hToken : l.token with
      | boolean =>
        rw [hToken] at hBegins
        have hNone : ∀ d ∈ ['=', '>', '/', '*'], isLetter d = false := by decide
        have hLetter : isLetter d = true := hBegins
        rw [hNone d hMem] at hLetter
        cases hLetter
      | verbatim => rw [hToken] at hVerbatim; cases hVerbatim
      | number | string | singleQuoted | field =>
        exact not_mem_of_startsOperand (by rw [hToken]; rfl) hBegins hMem
      | _ => rw [hToken] at hAtom; cases hAtom
    · exact not_mem_of_startsOperand hStart hBegins hMem
  sign _ := h.begins

theorem separates_operator {u : Token} {d : Char} (hOperator : u.isOperator = true)
    (hBegins : u.begins d = true) : separates d = true := by
  have hAll : ∀ d ∈ ['+', '-', '&', '=', '!', '<', '>', '*', '/', '%', '^', ','],
      separates d = true := by decide
  exact hAll d (begins_operator hOperator hBegins)

theorem admits_of_ends {t : Token} (hEnd : ends t = true) {d : Char} (hd : separates d = true) :
    t.admits d = true := by
  rw [ends, Bool.or_eq_true, beq_iff_eq] at hEnd
  rcases hEnd with hAtom | rfl
  · exact Token.admits_of_separates hAtom hd
  · rfl

/-- What ends an operand is followed by what separates. -/
theorem touches_of_ends {l m : Lexeme} (hEnd : ends l.token = true)
    (h : m.leading ≠ [] ∨ ∀ d ∈ m.text.head?, separates d = true) : Touches l m := by
  have hAdmits : ∀ {d : Char}, separates d = true → l.token.admits d = true := admits_of_ends hEnd
  rw [ends, Bool.or_eq_true, beq_iff_eq] at hEnd
  have hKinds : l.token.isKeyword = false ∧ opensTerm l.token = false := by
    rcases hEnd with hAtom | hClose
    · cases hToken : l.token <;> first | exact ⟨rfl, rfl⟩ | (rw [hToken] at hAtom; cases hAtom)
    · rw [hClose]
      exact ⟨rfl, rfl⟩
  have hAbuts : Abuts l m := h.imp id fun hHead d hd => hAdmits (hHead d hd)
  exact ⟨⟨hAbuts.imp id fun hHead d hd => Token.goesOn_of_admits (hHead d hd), by simp [hKinds.1],
    by simp [hKinds.2]⟩, hAbuts⟩

theorem isFactorSign_of_starts {t : Token} (h : starts t = true) : isFactorSign t = false := by
  cases t <;> first | rfl | cases h

theorem touches_of_adjoins {l m : Lexeme} (h : Adjoins l m) (hBegins : Begins m) : Touches l m := by
  have hApart : m.isAttached = false → m.leading ≠ [] := by simp [Lexeme.isAttached]
  cases h with
  | ended hEnd hNext =>
    refine touches_of_ends hEnd (.inr fun d hd => ?_)
    rcases hNext with hOperator | hClose
    · have hAtom : m.token.isAtom = false := by
        cases hToken : m.token <;> first | rfl | (rw [hToken] at hOperator; cases hOperator)
      exact separates_operator hOperator (hBegins.sign hAtom d hd)
    · have hFirst := hBegins.sign (by rw [hClose]; rfl) d hd
      rw [hClose] at hFirst
      have hAll : ∀ d ∈ [')'], separates d = true := by decide
      exact hAll d (mem_of_begins hFirst (by decide))
  | connective hEnd hSpace => exact touches_of_ends hEnd (.inl (hApart hSpace))
  | operand hSign hStart =>
    have hNotFactor := isFactorSign_of_starts hStart
    have hKinds : l.token.isKeyword = false ∧ l.token.isAtom = false := by
      rcases hSign with hOperator | hOpening
      · cases hToken : l.token <;> first | exact ⟨rfl, rfl⟩ | (rw [hToken] at hOperator; cases hOperator)
      · rw [hOpening]
        exact ⟨rfl, rfl⟩
    refine touches_of_not_isAtom ⟨.inr fun d hd => ?_, by simp [hKinds.1], fun _ => hNotFactor⟩ hKinds.2
    rcases hSign with hOperator | hOpening
    · exact goesOn_of_isOperator hOperator (hBegins.operand hStart d hd)
    · rw [hOpening]
      rfl
  | word hSpace hStart =>
    have hLeading := hApart hSpace
    exact ⟨⟨.inl hLeading, fun _ => .inl hLeading, fun _ => isFactorSign_of_starts hStart⟩, .inl hLeading⟩
  | name hFirst hName hOpening =>
    refine touches_of_not_isAtom ⟨.inr fun d hd => ?_, by simp [hFirst, Token.isKeyword, hName],
      fun _ => by rw [hOpening]; rfl⟩ (by rw [hFirst]; rfl)
    exact goesOn_of_begins (.inl hOpening) (hBegins.sign (by rw [hOpening]; rfl) d hd)
  | empty hOpening hClosing =>
    refine touches_of_not_isAtom ⟨.inr fun d _ => by rw [hOpening]; rfl,
      by simp [hOpening, Token.isKeyword], fun _ => by rw [hClosing]; rfl⟩ (by rw [hOpening]; rfl)
  | column hTable hField _ hText =>
    have hAdmits : l.token.admits '[' = true ∧ l.token.isKeyword = false := by
      generalize l.token = u at hTable
      cases hTable with
      | name hName => exact ⟨by rfl, hName⟩
      | quoted => exact ⟨by rfl, rfl⟩
    have hAbuts : Abuts l m := .inr fun d hd => by rw [hText d hd]; exact hAdmits.1
    have hNotFactor : isFactorSign m.token = false := by
      cases hToken : m.token <;> first | rfl | (rw [hToken] at hField; cases hField)
    exact ⟨⟨hAbuts.imp id fun hHead d hd => Token.goesOn_of_admits (hHead d hd), by simp [hAdmits.2],
      fun _ => hNotFactor⟩, hAbuts⟩

end DaxMigration.Dax
