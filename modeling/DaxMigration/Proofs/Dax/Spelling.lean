import DaxMigration.Dax.Standard
import DaxMigration.Proofs.Formula.Reading
import Mathlib.Data.List.Forall2

/-!
# Spelling of lexemes

What the rules for single lexemes change: functions, operators and literals get another text, and
fields a table in front. Each new text leaves the reader where the old one did and begins with no
character that could continue what stands before it, so a row stays a row with the same delimiters.
-/

namespace DaxMigration.Dax

open Formula Text

/-- A character that continues no division sign and no reference. -/
def gentle (c : Char) : Bool :=
  c ∉ ['/', '*', ']']

theorem resumes_of_gentle {m : Mode} (hCalm : m.isCalm = true) {rest : List Char}
    (hRest : ∀ c ∈ rest.head?, gentle c = true) : m.Resumes rest := by
  intro c hc
  have hGentle := hRest c hc
  simp only [gentle, List.mem_cons, List.not_mem_nil, or_false, not_or, decide_eq_true_eq] at hGentle
  obtain ⟨hSlash, hStar, hClose⟩ := hGentle
  cases m with
  | code => exact ⟨rfl, rfl⟩
  | slash => simp [Mode.next, Mode.emit, hSlash, hStar]
  | fieldEnd => simp [Mode.next, Mode.emit, hClose]
  | _ => cases hCalm

structure Respelled (l l' : Lexeme) : Prop where
  leading : l'.leading = l.leading
  settled : Settled l'.text
  after : Mode.code.after l'.text = Mode.code.after l.text
  delimiters : Mode.code.delimiters l'.text = Mode.code.delimiters l.text
  head : (∀ c ∈ l'.text.head?, c ∈ l.text.head?) ∨ ∀ c ∈ l'.text.head?, gentle c = true

theorem Respelled.refl {l : Lexeme} (h : Settled l.text) : Respelled l l :=
  ⟨rfl, h, rfl, rfl, .inl fun _ hc => hc⟩

theorem head_written_of_filled {l : Lexeme} (h : l.text ≠ []) (ls : List Lexeme) :
    (written (l :: ls)).head? = (l.leading ++ l.text).head? := by
  obtain ⟨c, text, hText⟩ := List.exists_cons_of_ne_nil h
  cases hLeading : l.leading <;> simp [hText, hLeading]

theorem resumes_of_respelled {m : Mode} (hCalm : m.isCalm = true) {ls ls' : List Lexeme}
    (h : List.Forall₂ Respelled ls ls') (hFilled : ∀ l ∈ ls, l.text ≠ [])
    (hResumes : m.Resumes (written ls)) : m.Resumes (written ls') := by
  cases h with
  | nil => exact Mode.resumes_nil m
  | @cons l l' ls ls' hHead _ =>
    rw [Mode.Resumes, head_written_of_filled (hFilled l List.mem_cons_self)] at hResumes
    rw [Mode.Resumes, head_written_of_filled hHead.settled.filled, hHead.leading]
    cases hLeading : l.leading with
    | cons c leading => simpa [hLeading] using hResumes
    | nil =>
      rw [hLeading] at hResumes
      rcases hHead.head with hSame | hGentle
      · exact fun c hc => hResumes c (hSame c hc)
      · exact resumes_of_gentle hCalm hGentle

theorem isRow_of_respelled {ls ls' : List Lexeme} (h : List.Forall₂ Respelled ls ls')
    (hRow : IsRow ls) : IsRow ls' := by
  induction h with
  | nil => exact hRow
  | @cons l l' ls ls' hHead hRest ih =>
    have hTail := ih hRow.tail
    have hCalm := (hRow.settled l List.mem_cons_self).calm
    refine ⟨?_, ?_, ?_, hTail.joined⟩
    · intro d hd
      rcases List.mem_cons.1 hd with rfl | hd
      · exact hHead.settled
      · exact hTail.settled d hd
    · intro d hd
      rcases List.mem_cons.1 hd with rfl | hd
      · rw [hHead.leading]
        exact hRow.blank l List.mem_cons_self
      · exact hTail.blank d hd
    · rw [hHead.after]
      exact resumes_of_respelled hCalm hRest (fun d hd => (hRow.tail.settled d hd).filled)
        hRow.joined.1

theorem delimiters_of_respelled {ls ls' : List Lexeme} (h : List.Forall₂ Respelled ls ls') :
    ls'.flatMap (fun l => Mode.code.delimiters l.text) =
      ls.flatMap fun l => Mode.code.delimiters l.text := by
  induction h with
  | nil => rfl
  | cons hHead _ ih => rw [List.flatMap_cons, List.flatMap_cons, hHead.delimiters, ih]

/-! ## References -/

theorem isBlank_of_isAlphanumeric {c : Char} (h : (isAlphanumeric c || c == '_') = true) :
    isBlank c = false :=
  isBlank_of_none (p := fun c => isAlphanumeric c || c == '_') (by decide +kernel) h

structure Passed (text : List Char) : Prop where
  settled : Settled text
  after : Mode.code.after text = .code
  delimiters : Mode.code.delimiters text = []
  gentle : ∀ c ∈ text.head?, gentle c = true

theorem passed_of_plainName {name : List Char} (h : isPlainName name = true) : Passed name := by
  simp only [isPlainName, Bool.and_eq_true, List.all_eq_true] at h
  obtain ⟨hHead, hAll⟩ := h
  have hPlain : ∀ c ∈ name, Mode.IsPlain c := fun c hc =>
    Mode.isPlain_of (p := fun c => isAlphanumeric c || c == '_') (by decide) (hAll c hc)
  have hFilled : name ≠ [] := by rintro rfl; cases hHead
  refine ⟨settled_of_plain hPlain hFilled fun c hc => isBlank_of_isAlphanumeric (hAll c hc),
    Mode.after_of_plain hPlain, Mode.delimiters_of_plain hPlain, ?_⟩
  intro c hc
  have hNone : ∀ d ∈ ['/', '*', ']'], (isAlphanumeric d || d == '_') = false := by decide
  have hName := hAll c (List.mem_of_mem_head? hc)
  simp only [Dax.gentle, decide_eq_true_eq]
  intro hMem
  rw [hNone c hMem] at hName
  cases hName

theorem passed_quoted (name : List Char) : Passed ('\'' :: double '\'' name ++ ['\'']) := by
  refine ⟨settled_literal .singleQuoted name, after_literal .singleQuoted name,
    delimiters_literal .singleQuoted name, ?_⟩
  simp [gentle]

theorem passed_tableRef (name : List Char) : Passed (tableRef name) := by
  unfold tableRef
  split
  · exact passed_of_plainName ‹_›
  · exact passed_quoted name

theorem settled_append {a b : List Char} (ha : Settled a) (hb : Settled b)
    (h : (Mode.code.after a).Resumes b) : Settled (a ++ b) := by
  have hRow : IsRow [Lexeme.verbatim a [], Lexeme.verbatim b []] := by
    refine ⟨?_, ?_, ?_, Mode.resumes_nil _, trivial⟩
    · simp [Lexeme.verbatim, ha, hb]
    · simp [Lexeme.verbatim, allBlank]
    · simpa [Lexeme.verbatim] using h
  simpa [Lexeme.verbatim] using settled_flush hRow

theorem Passed.resumes {text : List Char} (h : Passed text) (rest : List Char) :
    (Mode.code.after text).Resumes rest := by
  rw [h.after]
  exact Mode.resumes_code rest

structure Renders (t : Token) (text : List Char) : Prop where
  settled : Settled text
  after : Mode.code.after text = t.modeAfter
  delimiters : Mode.code.delimiters text = [t].filter Token.isDelimiter
  gentle : ∀ c ∈ text.head?, gentle c = true

theorem respelled_of_renders {l : Lexeme} {t : Token} {text : List Char} (h : Spelled l)
    (hVerbatim : l.token.isVerbatim = false) (hText : Renders t text)
    (hMode : t.modeAfter = l.token.modeAfter)
    (hDelimiter : [t].filter Token.isDelimiter = [l.token].filter Token.isDelimiter) :
    Respelled l ⟨t, text, l.leading⟩ ∧ Spelled ⟨t, text, l.leading⟩ := by
  constructor
  · refine ⟨rfl, hText.settled, ?_, ?_, .inr hText.gentle⟩
    · rw [h.after hVerbatim, hText.after, hMode]
    · rw [h.delimiters hVerbatim, hText.delimiters, hDelimiter]
  · exact ⟨hText.settled, fun _ => hText.after, fun _ => hText.delimiters⟩

theorem renders_column (t : Target) (name : List Char) : Renders (.field name) (t.column name) := by
  have hTable := passed_tableRef t.table
  have hField : Settled (bracketed name) := settled_literal .field name
  refine ⟨settled_append hTable.settled hField (hTable.resumes _), ?_, ?_, ?_⟩
  · rw [Target.column, Target.tableText, Mode.after_append, hTable.after]
    exact after_literal .field name
  · rw [Target.column, Target.tableText, Mode.delimiters_append, hTable.delimiters, hTable.after]
    exact delimiters_literal .field name
  · intro c hc
    refine hTable.gentle c ?_
    obtain ⟨d, text, hText⟩ := List.exists_cons_of_ne_nil hTable.settled.filled
    simpa [Target.column, Target.tableText, hText] using hc

theorem renders_string (s : List Char) : Renders (.string s) ('"' :: double '"' s ++ ['"']) :=
  ⟨settled_literal .string s, after_literal .string s, delimiters_literal .string s,
    by simp [gentle]⟩

theorem renders_plain {t : Token} {text : List Char} (hMode : t.modeAfter = .code)
    (hDelimiter : t.isDelimiter = false) (hPlain : ∀ c ∈ text, Mode.IsPlain c)
    (hFilled : text ≠ []) (hBlank : ∀ c ∈ text, isBlank c = false)
    (hGentle : ∀ c ∈ text.head?, gentle c = true) : Renders t text := by
  refine ⟨settled_of_plain hPlain hFilled hBlank, ?_, ?_, hGentle⟩
  · rw [hMode, Mode.after_of_plain hPlain]
  · rw [Mode.delimiters_of_plain hPlain]
    simp [hDelimiter]

theorem renders_notEqual : Renders .notEqual ['<', '>'] :=
  renders_plain rfl rfl (by decide) (by decide) (by decide) (by decide)

theorem renders_equals : Renders .equals ['='] :=
  renders_plain rfl rfl (by decide) (by decide) (by decide) (by decide)

/-! ## Rules for single lexemes -/

/-- Every lexeme is spelled as before or in a way that takes its place, and is as its token says. -/
def Respells (ls ls' : List Lexeme) : Prop :=
  List.Forall₂ (fun l l' => Respelled l l' ∧ Spelled l') ls ls'

theorem respells_qualify (t : Target) (previous : Option Token) {ls : List Lexeme}
    (h : ∀ l ∈ ls, Spelled l) : Respells ls (qualify t previous ls) := by
  induction ls generalizing previous with
  | nil => exact .nil
  | cons l ls ih =>
    have hHead := h l List.mem_cons_self
    refine .cons ?_ (ih _ fun d hd => h d (List.mem_cons_of_mem _ hd))
    split
    · rename_i name hToken
      split
      · exact ⟨.refl hHead.settled, hHead⟩
      · have hColumn := respelled_of_renders hHead (by rw [hToken]; rfl) (renders_column t name)
          (by rw [hToken]) (by rw [hToken])
        rwa [← hToken] at hColumn
    · exact ⟨.refl hHead.settled, hHead⟩

theorem respells_normalize {ls : List Lexeme} (h : ∀ l ∈ ls, Spelled l) :
    Respells ls (normalize ls) := by
  induction ls with
  | nil => exact .nil
  | cons l ls ih =>
    have hHead := h l List.mem_cons_self
    refine .cons ?_ (ih fun d hd => h d (List.mem_cons_of_mem _ hd))
    split
    · rename_i hToken
      have hOperator := respelled_of_renders hHead (by rw [hToken]; rfl) renders_notEqual
        (by rw [hToken]) (by rw [hToken])
      rwa [← hToken] at hOperator
    · rename_i hToken
      exact respelled_of_renders hHead (by rw [hToken]; rfl) renders_equals (by rw [hToken]; rfl)
        (by rw [hToken]; rfl)
    · rename_i s hToken
      split
      · exact ⟨.refl hHead.settled, hHead⟩
      · exact respelled_of_renders hHead (by rw [hToken]; rfl) (renders_string s)
          (by rw [hToken]; rfl) (by rw [hToken]; rfl)
    · exact ⟨.refl hHead.settled, hHead⟩

theorem Respells.spelled {ls ls' : List Lexeme} (h : Respells ls ls') : ∀ l ∈ ls', Spelled l := by
  induction h with
  | nil => simp
  | cons hHead _ ih =>
    intro l hl
    rcases List.mem_cons.1 hl with rfl | hl
    · exact hHead.2
    · exact ih l hl

theorem Respells.isRow {ls ls' : List Lexeme} (h : Respells ls ls') (hRow : IsRow ls) :
    IsRow ls' :=
  isRow_of_respelled (h.imp fun _ _ hBoth => hBoth.1) hRow

theorem Respells.delimiters {ls ls' : List Lexeme} (h : Respells ls ls') :
    ls'.flatMap (fun l => Mode.code.delimiters l.text) =
      ls.flatMap fun l => Mode.code.delimiters l.text :=
  delimiters_of_respelled (h.imp fun _ _ hBoth => hBoth.1)

/-- Spelling and qualification keep a row and its delimiters. -/
theorem qualified_spec (t : Target) {ls : List Lexeme} (hRow : IsRow ls)
    (hSpelled : ∀ l ∈ ls, Spelled l) (hFilled : ls ≠ []) :
    Settled (qualified t ls) ∧
      Mode.code.delimiters (qualified t ls) =
        ls.flatMap fun l => Mode.code.delimiters l.text := by
  have hNormal := respells_normalize hSpelled
  have hNormalRow := hNormal.isRow hRow
  have hQualified := respells_qualify t none hNormal.spelled
  have hQualifiedRow := hQualified.isRow hNormalRow
  have hFilled' : qualify t none (normalize ls) ≠ [] := by
    have hLength := hQualified.length_eq
    rw [← hNormal.length_eq] at hLength
    exact List.ne_nil_of_length_pos (hLength ▸ List.length_pos_of_ne_nil hFilled)
  constructor
  · exact settled_render hQualifiedRow hFilled'
  · rw [qualified, delimiters_render hQualifiedRow, hQualified.delimiters, hNormal.delimiters]

end DaxMigration.Dax
