import DaxMigration.Proofs.Formula.Phrase

/-!
# Where texts meet

A text in the place of one token may be read as several. It is read by itself in front of every
character that its token admits, and a row of such texts is read as what its lexemes are read as, one
after the other.
-/

namespace DaxMigration.Formula

open Text

def tokensOf (cs : List Char) : List Token :=
  (tokenize cs).map Lexeme.token

@[simp]
theorem tokensOf_nil : tokensOf [] = [] := by
  rw [tokensOf, tokenize_nil]
  rfl

theorem tokensOf_blank_append {w : List Char} (hBlank : allBlank w = true) (cs : List Char) :
    tokensOf (w ++ cs) = tokensOf cs := by
  rw [tokensOf, tokenize_blank_append hBlank, map_token_indent]
  rfl

/-- A settled text, or none, in front of a character that continues no token. -/
theorem tokensOf_append {a b : List Char} (h : a = [] ∨ Settled a) (hParted : Scan.Parted b) :
    tokensOf (a ++ b) = tokensOf a ++ tokensOf b := by
  rcases h with rfl | h
  · rw [tokensOf_nil]
    rfl
  · rw [tokensOf, tokenize_append h.calm h.last hParted, List.map_append]
    rfl

def separates (d : Char) : Bool :=
  !isNameCharacter d && d ∉ ['.', '"', '\'', ']']

/-- The character may stand directly behind the token, whatever text stands for the token. -/
def Token.admits (t : Token) (d : Char) : Bool :=
  !t.goesOn d && (!t.isAtom || separates d)

theorem Token.goesOn_of_separates {t : Token} (hAtom : t.isAtom = true) {d : Char}
    (h : separates d = true) : t.goesOn d = false := by
  simp only [separates, isNameCharacter, List.mem_cons, List.not_mem_nil, or_false, not_or,
    Bool.and_eq_true, Bool.not_eq_true', Bool.or_eq_false_iff, decide_eq_true_eq] at h
  obtain ⟨⟨hLetter, hDigit⟩, hDot, hDouble, hSingle, hClose⟩ := h
  have hMark : d ≠ 'e' ∧ d ≠ 'E' := by
    constructor <;> rintro rfl <;> revert hLetter <;> decide
  cases t with
  | number => simp [goesOn, hDigit, hDot, hMark]
  | boolean => simp [goesOn, isNameCharacter, hLetter, hDigit]
  | string | singleQuoted | field => simp [goesOn, hDouble, hSingle, hClose]
  | verbatim => rfl
  | _ => cases hAtom

theorem Token.admits_of_separates {t : Token} (hAtom : t.isAtom = true) {d : Char}
    (h : separates d = true) : t.admits d = true := by
  simp [admits, goesOn_of_separates hAtom h, h]

theorem Token.admits_of_not_isAtom {t : Token} (hAtom : t.isAtom = false) {d : Char}
    (h : t.goesOn d = false) : t.admits d = true := by
  simp [admits, hAtom, h]

theorem Token.goesOn_of_admits {t : Token} {d : Char} (h : t.admits d = true) : t.goesOn d = false := by
  simp only [admits, Bool.and_eq_true, Bool.not_eq_true'] at h
  exact h.1

theorem Token.separates_of_admits {t : Token} (hAtom : t.isAtom = true) {d : Char}
    (h : t.admits d = true) : separates d = true := by
  simpa [admits, hAtom] using (Bool.and_eq_true_iff.1 h).2

theorem separates_of_isBlank {d : Char} (h : isBlank d = true) : separates d = true := by
  cases hNot : separates d with
  | true => rfl
  | false =>
    have hBlank := @isBlank_of_none (fun c => !separates c) (by decide +kernel) d (by simp [hNot])
    rw [h] at hBlank
    cases hBlank

theorem Token.admits_of_isBlank (t : Token) {d : Char} (h : isBlank d = true) : t.admits d = true := by
  simp [admits, goesOn_of_isBlank h t, separates_of_isBlank h]

/-! ## Lexemes -/

structure Firm (l : Lexeme) : Prop where
  settled : Settled l.text
  blank : allBlank l.leading = true
  reads {rest : List Char} (h : ∀ d ∈ rest.head?, l.token.admits d = true) :
    tokensOf (l.text ++ rest) = tokensOf l.text ++ tokensOf rest
  resumes {rest : List Char} (h : ∀ d ∈ rest.head?, l.token.admits d = true) :
    (Mode.code.after l.text).Resumes rest

theorem Firm.with_leading {l : Lexeme} (h : Firm l) {leading : List Char}
    (hBlank : allBlank leading = true) : Firm { l with leading := leading } :=
  ⟨h.settled, hBlank, h.reads, h.resumes⟩

theorem Whole.reads {l : Lexeme} (h : Whole l) {rest : List Char}
    (hRest : ∀ d ∈ rest.head?, l.token.goesOn d = false) :
    tokensOf (l.text ++ rest) = l.token :: tokensOf rest ∧
      (Mode.code.after l.text).Resumes rest := by
  obtain ⟨⟨c, w, hText, hBlank, hScan⟩, hCalm⟩ := h
  have hEnds : ∀ d ∈ rest.head?, (Scan.scan c w).token.goesOn d = false := by rwa [hScan]
  have hTaken : (Mode.code.after (c :: (Scan.scan c w).taken)).isCalm = true := by
    rw [hScan, ← hText]
    exact hCalm
  have hRead := Scan.scan_taken_append hTaken hEnds
  rw [hScan] at hRead
  have hDrop : (c :: (w ++ rest)).dropWhile isBlank = c :: (w ++ rest) := by simp [hBlank]
  rw [hText, List.cons_append]
  constructor
  · rw [tokensOf, tokenize_of_cons hDrop, hRead]
    rfl
  · have hResumes := Mode.resumes_form (Scan.form_scan c (w ++ rest))
    rwa [hRead] at hResumes

theorem Whole.tokensOf_text {l : Lexeme} (h : Whole l) : tokensOf l.text = [l.token] := by
  have hAlone := (@Whole.reads l h [] (by simp)).1
  rwa [List.append_nil, tokensOf_nil] at hAlone

theorem Whole.firm {l : Lexeme} (h : Whole l) (hSettled : Settled l.text)
    (hBlank : allBlank l.leading = true) : Firm l where
  settled := hSettled
  blank := hBlank
  reads hRest := by
    rw [(h.reads fun d hd => Token.goesOn_of_admits (hRest d hd)).1, h.tokensOf_text]
    rfl
  resumes hRest := (h.reads fun d hd => Token.goesOn_of_admits (hRest d hd)).2

/-! ## Names with dots -/

theorem goesOn_nameToken (text : List Char) (d : Char) :
    (nameToken text).goesOn d = isNameCharacter d := by
  rcases nameToken_cases text with ⟨value, hSame⟩ | ⟨name, hSame⟩ <;> rw [hSame] <;> rfl

inductive IsDotted : List Char → Prop
  | name {text : List Char} (h : isNameText text = true) : IsDotted text
  | more {first text : List Char} (hFirst : isNameText first = true) (h : IsDotted text) :
      IsDotted (first ++ '.' :: text)

namespace IsDotted

variable {text : List Char}

theorem head (h : IsDotted text) : ∀ d ∈ text.head?, isLetter d = true := by
  cases h with
  | name h => exact (characters_of_isNameText h).2.1
  | more hFirst =>
    obtain ⟨hFilled, hHead, -⟩ := characters_of_isNameText hFirst
    rwa [List.head?_append_of_ne_nil _ hFilled]

theorem characters (h : IsDotted text) :
    text ≠ [] ∧ ∀ c ∈ text, Mode.IsPlain c ∧ isBlank c = false := by
  have hName : ∀ {c : Char}, isNameCharacter c = true → Mode.IsPlain c ∧ isBlank c = false :=
    fun hc => ⟨Mode.isPlain_of_isNameCharacter hc, isBlank_of_isNameCharacter hc⟩
  induction h with
  | name h =>
    obtain ⟨hFilled, -, hAll⟩ := characters_of_isNameText h
    exact ⟨hFilled, fun c hc => hName (hAll c hc)⟩
  | more hFirst _ ih =>
    have hDot : Mode.IsPlain '.' ∧ isBlank '.' = false := ⟨Mode.isPlain_of_not_mem (by decide), by decide⟩
    obtain ⟨-, -, hAll⟩ := characters_of_isNameText hFirst
    exact ⟨by simp, List.forall_mem_append.2
      ⟨fun c hc => hName (hAll c hc), List.forall_mem_cons.2 ⟨hDot, ih.2⟩⟩⟩

theorem settled (h : IsDotted text) : Settled text :=
  settled_of_plain (fun c hc => (h.characters.2 c hc).1) h.characters.1 fun c hc => (h.characters.2 c hc).2

theorem after (h : IsDotted text) : Mode.code.after text = .code :=
  Mode.after_of_plain fun c hc => (h.characters.2 c hc).1

/-- The names and the dots are read one by one, up to a character that continues no name. -/
theorem reads (h : IsDotted text) {rest : List Char} (hRest : ∀ d ∈ rest.head?, isNameCharacter d = false) :
    tokensOf (text ++ rest) = tokensOf text ++ tokensOf rest := by
  have hName : ∀ {first rest : List Char}, isNameText first = true →
      (∀ d ∈ rest.head?, isNameCharacter d = false) →
        tokensOf (first ++ rest) = nameToken first :: tokensOf rest := by
    intro first rest hFirst hRest
    have hWhole := whole_name hFirst []
    exact (hWhole.reads fun d hd => (goesOn_nameToken first d).trans (hRest d hd)).1
  have hDot : ∀ {rest : List Char}, (∀ d ∈ rest.head?, d.isDigit = false) →
      tokensOf ('.' :: rest) = .dot :: tokensOf rest := by
    intro rest hRest
    have hWhole : Whole ⟨.dot, ['.'], []⟩ := ⟨⟨'.', [], rfl, by decide, rfl⟩, rfl⟩
    exact (hWhole.reads hRest).1
  have hLetter : ∀ {text rest : List Char}, IsDotted text → ∀ d ∈ (text ++ rest).head?, d.isDigit = false := by
    intro text rest hText d hd
    rw [List.head?_append_of_ne_nil _ hText.characters.1] at hd
    refine Bool.eq_false_iff.2 fun hDigit => ?_
    have hThis := hText.head d hd
    rw [Scan.isLetter_of_isDigit hDigit] at hThis
    cases hThis
  have hStop : ∀ {rest : List Char}, ∀ d ∈ ('.' :: rest).head?, isNameCharacter d = false := by
    intro rest d hd
    obtain rfl : '.' = d := by simpa using hd
    decide
  induction h with
  | name h =>
    rw [hName h hRest, (whole_name h []).tokensOf_text]
    rfl
  | more hFirst h ih =>
    have hAlone := hDot (@hLetter _ [] h)
    rw [List.append_nil] at hAlone
    rw [List.append_assoc, List.cons_append, hName hFirst hStop, hDot (hLetter h), ih, hName hFirst hStop,
      hAlone]
    rfl

end IsDotted

/-! ## Rows -/

def Abuts (l m : Lexeme) : Prop :=
  m.leading ≠ [] ∨ ∀ d ∈ m.text.head?, l.token.admits d = true

theorem admits_written {t : Token} {ls : List Lexeme} (hFirm : ∀ m ∈ ls, Firm m)
    (h : ∀ m ∈ ls.head?, m.leading ≠ [] ∨ ∀ d ∈ m.text.head?, t.admits d = true) {rest : List Char}
    (hRest : ls = [] → ∀ d ∈ rest.head?, t.admits d = true) :
    ∀ d ∈ (written ls ++ rest).head?, t.admits d = true := by
  cases ls with
  | nil => simpa using hRest rfl
  | cons m ls =>
    have hm := hFirm m List.mem_cons_self
    obtain ⟨e, text, hText⟩ := List.exists_cons_of_ne_nil hm.settled.filled
    intro d hd
    rw [written_cons, hText] at hd
    cases hLeading : m.leading with
    | cons b leading =>
      obtain rfl : b = d := by simpa [hLeading] using hd
      have hAll := hm.blank
      rw [hLeading] at hAll
      exact t.admits_of_isBlank (List.all_eq_true.1 hAll b List.mem_cons_self)
    | nil =>
      obtain rfl : e = d := by simpa [hLeading] using hd
      refine (h m rfl).resolve_left (by simp [hLeading]) e ?_
      rw [hText]
      rfl

variable {ls : List Lexeme} {rest : List Char}

/-- A row is read lexeme by lexeme. -/
theorem tokensOf_written (hFirm : ∀ l ∈ ls, Firm l) (hChain : ls.IsChain Abuts)
    (hRest : ∀ l ∈ ls.getLast?, ∀ d ∈ rest.head?, l.token.admits d = true) :
    tokensOf (written ls ++ rest) = (ls.flatMap fun l => tokensOf l.text) ++ tokensOf rest := by
  induction ls with
  | nil => rfl
  | cons l ls ih =>
    obtain ⟨hFirst, hOthers⟩ := List.forall_mem_cons.1 hFirm
    obtain ⟨hNext, hTail⟩ := List.isChain_cons.1 hChain
    have hEnds : ∀ m ∈ ls.getLast?, ∀ d ∈ rest.head?, m.token.admits d = true := by
      intro m hm
      refine hRest m ?_
      rw [List.getLast?_cons, Option.mem_def.1 hm]
      rfl
    have hAdmits := @admits_written _ _ hOthers hNext rest fun hEmpty =>
      hRest l (by rw [hEmpty]; rfl)
    rw [written_cons, List.append_assoc, List.append_assoc, tokensOf_blank_append hFirst.blank,
      hFirst.reads hAdmits, ih hOthers hTail hEnds, List.flatMap_cons, List.append_assoc]

theorem isRow_of_firm (hFirm : ∀ l ∈ ls, Firm l) (hChain : ls.IsChain Abuts) : IsRow ls where
  settled l hl := (hFirm l hl).settled
  blank l hl := (hFirm l hl).blank
  joined := by
    induction ls with
    | nil => trivial
    | cons l ls ih =>
      obtain ⟨hFirst, hOthers⟩ := List.forall_mem_cons.1 hFirm
      obtain ⟨hNext, hTail⟩ := List.isChain_cons.1 hChain
      have hAdmits := @admits_written _ _ hOthers hNext [] (by simp)
      rw [List.append_nil] at hAdmits
      exact ⟨hFirst.resumes hAdmits, ih hOthers hTail⟩

theorem resumes_written (hFirm : ∀ l ∈ ls, Firm l) (hChain : ls.IsChain Abuts)
    (hRest : ∀ l ∈ ls.getLast?, ∀ d ∈ rest.head?, l.token.admits d = true) :
    (Mode.code.after (written ls)).Resumes rest := by
  induction ls with
  | nil => exact Mode.resumes_code rest
  | cons l ls ih =>
    have hRow := isRow_of_firm hFirm hChain
    obtain ⟨hFirst, hOthers⟩ := List.forall_mem_cons.1 hFirm
    obtain ⟨hNext, hTail⟩ := List.isChain_cons.1 hChain
    rw [written_cons, Mode.after_append, Mode.after_of_plain (Mode.plain_of_allBlank hFirst.blank),
      Mode.after_append]
    cases ls with
    | nil => exact hFirst.resumes (hRest l rfl)
    | cons m ls =>
      have hFilled : written (m :: ls) ≠ [] := by
        simp [(hOthers m List.mem_cons_self).settled.filled]
      rw [hRow.joined.1.after_eq hFilled]
      exact ih hOthers hTail fun k hk => hRest k (by rwa [List.getLast?_cons_cons])

/-- The text of a row stands firm in the place of one operand, if its end does. -/
theorem firm_flush {l : Lexeme} (hFirm : ∀ m ∈ l :: ls, Firm m) (hChain : (l :: ls).IsChain Abuts)
    (hLast : ∀ m ∈ (l :: ls).getLast?, ∀ d, separates d = true → m.token.admits d = true)
    {leading : List Char} (hBlank : allBlank leading = true) :
    Firm (.verbatim (l.text ++ written ls) leading) ∧
      tokensOf (l.text ++ written ls) = (l :: ls).flatMap fun m => tokensOf m.text := by
  have hSame : l.text ++ written ls = written ({ l with leading := [] } :: ls) := rfl
  have hFlush : ∀ m ∈ { l with leading := [] } :: ls, Firm m := by
    obtain ⟨hFirst, hOthers⟩ := List.forall_mem_cons.1 hFirm
    exact List.forall_mem_cons.2 ⟨hFirst.with_leading rfl, hOthers⟩
  have hJoined : ({ l with leading := [] } :: ls).IsChain Abuts := by
    rw [List.isChain_cons] at hChain ⊢
    exact hChain
  have hEnds : ∀ {rest : List Char}, (∀ d ∈ rest.head?, (Token.verbatim (l.text ++ written ls)).admits d = true) →
      ∀ m ∈ ({ l with leading := [] } :: ls).getLast?, ∀ d ∈ rest.head?, m.token.admits d = true := by
    intro rest hRest m hm d hd
    have hSeparates := Token.separates_of_admits rfl (hRest d hd)
    cases ls with
    | nil =>
      obtain rfl : { l with leading := [] } = m := by simpa using hm
      exact hLast l rfl d hSeparates
    | cons k ls =>
      rw [List.getLast?_cons_cons] at hm
      exact hLast m (by rwa [List.getLast?_cons_cons]) d hSeparates
  have hAlone : tokensOf (l.text ++ written ls) = (l :: ls).flatMap fun m => tokensOf m.text := by
    have hRead := tokensOf_written hFlush hJoined (@hEnds [] (by simp))
    rw [List.append_nil, tokensOf_nil, List.append_nil] at hRead
    rw [hSame, hRead]
    rfl
  refine ⟨⟨settled_flush (isRow_of_firm hFirm hChain), hBlank, fun hRest => ?_, fun hRest => ?_⟩, hAlone⟩
  · show tokensOf (l.text ++ written ls ++ _) = tokensOf (l.text ++ written ls) ++ _
    rw [hAlone, hSame, tokensOf_written hFlush hJoined (hEnds hRest)]
    rfl
  · exact resumes_written hFlush hJoined (hEnds hRest)

end DaxMigration.Formula
