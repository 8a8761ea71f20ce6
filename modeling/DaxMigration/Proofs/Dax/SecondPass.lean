import DaxMigration.Proofs.Dax.Divisionless
import DaxMigration.Proofs.Dax.Outside
import DaxMigration.Proofs.Dax.Precedence
import DaxMigration.Proofs.Dax.Undivided

/-!
# A second pass

The text that the standard rules write of an expression is one that they have nothing to do to: it
divides nothing, its functions are called as the target calls them, its operators and literals are
spelled as DAX spells them, and every field stands behind a table. So they write it once more as it
is.
-/

namespace DaxMigration.Dax

open Formula Text Divisible

variable {t : Target}

/-! ## No division is left -/

theorem slash_notMem_combine {left right : List Token} {sign : Token}
    (hLeft : Token.slash ∉ left) (hRight : Token.slash ∉ right) (hLeftFilled : left ≠ [])
    (hRightFilled : right ≠ []) : Token.slash ∉ combine left sign right := by
  by_cases hSign : sign = .slash
  · rw [combine, if_pos ⟨hSign, hLeftFilled, hRightFilled⟩]
    simp [quotient, hLeft, hRight]
  · rw [combine, if_neg fun hQuotient => hSign hQuotient.1]
    simp [hLeft, hRight, Ne.symm hSign]

end DaxMigration.Dax

namespace DaxMigration.Formula

open Dax

variable {table : Option Token}

mutual

theorem Atom.slash_notMem_out (hTable : ∀ t ∈ table, IsTable t) (a : Atom) :
    Token.slash ∉ a.out table := by
  cases a with
  | number | text | quoted | constant => simp [Atom.out]
  | field name =>
    cases table with
    | none => simp [Atom.out]
    | some s => cases hTable s rfl <;> simp [Atom.out]
  | call name args => simp [Atom.out, args.slash_notMem_out hTable]
  | group e => simp [Atom.out, e.slash_notMem_out hTable]

theorem Operand.slash_notMem_cut (hTable : ∀ t ∈ table, IsTable t) (x : Operand) (atHead : Bool) :
    Token.slash ∉ (x.cut table atHead).first ++ (x.cut table atHead).tail := by
  cases x with
  | atom a =>
    rw [Operand.cut]
    simp [Cut.tail, a.slash_notMem_out hTable]
  | signed s x =>
    have hSign : Token.slash ≠ s.token := by cases s <;> simp [Sign.token]
    cases atHead with
    | true =>
      rw [Operand.cut, Cut.tail_before, Cut.before, List.append_assoc]
      exact fun hMem => (List.mem_append.1 hMem).elim (by simpa using hSign)
        (x.slash_notMem_cut hTable false)
    | false =>
      rw [Operand.cut, Cut.all_split]
      exact fun hMem => (List.mem_cons.1 hMem).elim hSign (x.slash_notMem_cut hTable true)
  | power a x =>
    have hCut : (Operand.power a x).cut table atHead =
        (x.cut table false).before (a.out table ++ [.caret]) := by
      cases atHead <;> rw [Operand.cut]
    rw [hCut, Cut.tail_before, Cut.before, List.append_assoc]
    exact fun hMem => (List.mem_append.1 hMem).elim (by simp [a.slash_notMem_out hTable])
      (x.slash_notMem_cut hTable false)

theorem Term.slash_notMem_out (hTable : ∀ t ∈ table, IsTable t) (u : Term) :
    Token.slash ∉ (u.out table).1 ++ (u.out table).2 := by
  cases u with
  | operand x =>
    rw [Term.out, Cut.after_append]
    exact x.slash_notMem_cut hTable true
  | product u op x =>
    have hTerm := u.slash_notMem_out hTable
    have hOperand := x.slash_notMem_cut hTable true
    rw [List.mem_append, not_or] at hTerm hOperand
    have hCombined : Token.slash ∉ combine (u.out table).2 op.token (x.cut table true).first :=
      slash_notMem_combine hTerm.2 hOperand.1 (u.compares hTable).filled (x.compares hTable).filled
    rw [Term.out, Cut.after_append]
    simp [hTerm.1, hCombined, hOperand.2]

/-- Every quotient of an expression has its operands, so each becomes a call. -/
theorem Expr.slash_notMem_out (hTable : ∀ t ∈ table, IsTable t) (e : Expr) :
    Token.slash ∉ e.out table := by
  cases e with
  | term u => exact u.slash_notMem_out hTable
  | negation e => simp [Expr.out, negationWord, e.slash_notMem_out hTable]
  | loose u op e =>
    have hTerm := u.slash_notMem_out hTable
    have hOperator : Token.slash ≠ op.token := by cases op <;> simp [Loose.token]
    rw [List.mem_append, not_or] at hTerm
    simp [Expr.out, hTerm, hOperator, e.slash_notMem_out hTable]

theorem Args.slash_notMem_out (hTable : ∀ t ∈ table, IsTable t) (args : Args) :
    Token.slash ∉ args.out table := by
  cases args with
  | last e => exact e.slash_notMem_out hTable
  | more e rest => simp [Args.out, e.slash_notMem_out hTable, rest.slash_notMem_out hTable]

end

end DaxMigration.Formula

namespace DaxMigration.Dax

open Formula Text Divisible

variable {t : Target}

/-! ## Functions keep their names -/

/-- What is called in place of a function is not called by another name in turn. -/
structure Target.IsSteady (t : Target) : Prop where
  again {name text text' : List Char} (h : t.function? name = some text)
    (hAgain : t.function? (upper text) = some text') : text' = text
  divide {text : List Char} (h : t.function? divideWord = some text) : text = divideWord

def Calls (t : Target) (l m : Lexeme) : Prop :=
  m.token = .lparen → ∀ name text, l.token = .identifier name → t.function? name = some text →
    text = l.text

theorem neighbourly_calls (hSteady : t.IsSteady) : Neighbourly fun l m => Sits l m ∧ Calls t l m where
  comma l := ⟨sits_commaSign l, fun hParen => nomatch hParen⟩
  closing m := ⟨sits_of_closeSign m, fun _ _ _ hName => nomatch hName⟩
  opening h := ⟨sits_of_openSign h, fun _ _ _ hName => nomatch hName⟩
  second h := ⟨sits_of_commaSign h, fun _ _ _ hName => nomatch hName⟩
  name leading := by
    refine ⟨sits_divideName leading, ?_⟩
    rintro _ name text hName hFunction
    obtain rfl : "DIVIDE".toList = name := Token.identifier.inj hName
    exact hSteady.divide hFunction
  zero := ⟨sits_zeroSign, fun _ _ _ hName => nomatch hName⟩
  call h hOpens hBegins := ⟨sits_divideName_of_left h.1 hOpens hBegins, fun hParen => nomatch hParen⟩
  leading h leading := ⟨neighbourly_sits.leading h.1 leading, h.2⟩
  sign h := h.1.sign

def CallsRead (t : Target) (l m : Lexeme) : Prop :=
  m.token = .lparen → l.token.isIdentifier = true → ∀ name text,
    nameToken l.text = .identifier name → t.function? name = some text → text = l.text

theorem isChain_mapFunctions (ht : t.IsReadable) (hSteady : t.IsSteady) {ls : List Lexeme}
    (hWhole : ∀ l ∈ ls, Whole l) : (mapFunctions t ls).IsChain (CallsRead t) := by
  induction ls with
  | nil => exact .nil
  | cons l ls ih =>
    obtain ⟨hFirst, hRest⟩ := List.forall_mem_cons.1 hWhole
    -- What is called is told by the lexeme behind it, which keeps its token.
    have hCalled : ∀ m ∈ (mapFunctions t ls).head?, m.token = .lparen → ∀ name,
        l.token = .identifier name → calledName? l ls = some name := by
      intro m hm hParen name hToken
      have hHead := head_mapFunctions t ls
      rw [Option.mem_def.1 hm] at hHead
      cases ls with
      | nil => cases hHead
      | cons n ls =>
        have hNext : m.token = n.token := congrArg Prod.fst (Option.some.inj hHead)
        have hOpen : n.token = .lparen := hNext.symm.trans hParen
        simp [calledName?, hToken, followedByParen, Lexeme.isComment, Token.isComment, hOpen]
    rw [mapFunctions]
    split
    · rename_i text hMapped
      refine List.isChain_cons.2 ⟨fun m _ _ _ name text' hName hFunction => ?_, ih hRest⟩
      obtain ⟨called, -, hText⟩ := Option.bind_eq_some_iff.1 hMapped
      have hRead : nameToken text = .identifier (upper text) := (ht.function hText).2
      obtain rfl : upper text = name := Token.identifier.inj (hRead.symm.trans hName)
      exact hSteady.again hText hFunction
    · rename_i hNone
      refine List.isChain_cons.2 ⟨fun m hm hParen hIdentifier name text hName hFunction => ?_, ih hRest⟩
      obtain ⟨word, hToken⟩ : ∃ word, l.token = .identifier word := by
        unfold Token.isIdentifier at hIdentifier
        split at hIdentifier
        · exact ⟨_, ‹_›⟩
        · cases hIdentifier
      obtain ⟨-, hSame⟩ := hFirst.nameText hToken
      obtain rfl : word = name := Token.identifier.inj (hToken.symm.trans (hSame.symm.trans hName))
      rw [hCalled m hm hParen word hToken, Option.bind_some, hFunction] at hNone
      cases hNone

theorem isChain_calls_of_spared {ls ls' : List Lexeme} (h : List.Forall₂ Spared ls ls')
    (hChain : ls.IsChain (CallsRead t)) : ls'.IsChain (CallsRead t) := by
  induction h with
  | nil => exact .nil
  | @cons l l' ls ls' hFirst hRest ih =>
    cases hRest with
    | nil => exact .singleton l'
    | cons hSecond _ =>
      obtain ⟨hCalls, hOthers⟩ := List.isChain_cons_cons.1 hChain
      refine .cons_cons (fun hParen hName => ?_) (ih hOthers)
      obtain rfl := hFirst.named (.inl hName)
      obtain rfl := hSecond.named (.inr hParen)
      exact hCalls hParen hName

/-- The first lexeme that a text is read as is a parenthesis only if the lexeme is. -/
theorem paren_of_head_unglue (ht : t.IsReadable) {l m : Lexeme} (hm : m ∈ (unglue t l).head?)
    (hParen : m.token = .lparen) : l.token = .lparen := by
  unfold unglue at hm
  split at hm
  · obtain rfl : Lexeme.mk t.tableToken t.tableText l.leading = m := by simpa using hm
    have hTable := ht.table
    rw [show t.tableToken = .lparen from hParen] at hTable
    cases hTable
  · obtain rfl : Lexeme.mk (nameToken l.text) l.text l.leading = m := by simpa using hm
    have hName : nameToken l.text = .lparen := hParen
    simp only [nameToken] at hName
    split at hName
    · cases hName
    split at hName <;> cases hName
  · obtain rfl : l = m := by simpa using hm
    exact hParen

/-- The row that a row is read as calls functions as the row does. -/
theorem isChain_calls_unglue (ht : t.IsReadable) {ls : List Lexeme}
    (h : ls.IsChain (CallsRead t)) : (ls.flatMap (unglue t)).IsChain (Calls t) := by
  induction ls with
  | nil => exact .nil
  | cons l ls ih =>
    rw [List.flatMap_cons, List.isChain_append]
    refine ⟨?_, ih h.tail, ?_⟩
    · unfold unglue
      split
      · exact .cons_cons (fun hParen => nomatch hParen) (.singleton _)
      · exact .singleton _
      · exact .singleton _
    · intro n hn m hm hParen name text hName hFunction
      cases ls with
      | nil => cases hm
      | cons k ls =>
        obtain ⟨d, ds, hUnglue, -⟩ := unglue_eq ht k
        obtain rfl : d = m := by simpa [hUnglue] using hm
        have hOpen : k.token = .lparen :=
          paren_of_head_unglue ht (by rw [hUnglue]; rfl) hParen
        have hCalls := (List.isChain_cons_cons.1 h).1 hOpen
        unfold unglue at hn
        split at hn
        · obtain rfl : Lexeme.mk (.field _) (bracketed _) [] = n := by simpa using hn
          cases hName
        · rename_i word hToken
          obtain rfl : Lexeme.mk (nameToken l.text) l.text l.leading = n := by simpa using hn
          exact hCalls (by rw [hToken]; rfl) name text hName hFunction
        · rename_i hNone
          obtain rfl : l = n := by simpa using hn
          exact absurd hName (hNone name)

theorem isChain_calls_respelled (ht : t.IsReadable) (hSteady : t.IsSteady) {ls : List Lexeme}
    (hWhole : ∀ l ∈ ls, Whole l) : ((respelled t ls).flatMap (unglue t)).IsChain (Calls t) :=
  isChain_calls_unglue ht
    (isChain_calls_of_spared (spared_qualified (mapFunctions t ls))
      (isChain_mapFunctions ht hSteady hWhole))

/-- A row without comments whose neighbours call functions as the target does. -/
theorem keepsNames_of_isChain {ls : List Lexeme} (hComment : ∀ l ∈ ls, l.isComment = false)
    (h : ls.IsChain (Calls t)) : KeepsNames t ls := by
  induction ls with
  | nil => exact fun i l name text hAt => nomatch hAt
  | cons l ls ih =>
    obtain ⟨-, hRest⟩ := List.forall_mem_cons.1 hComment
    rintro (_ | i) m name text hAt hCall hToken hFunction
    · obtain rfl : l = m := by simpa using hAt
      obtain ⟨-, hParen⟩ : _ ∧ followedByParen ls = true := by simpa [isCallAt] using hCall
      cases ls with
      | nil => cases hParen
      | cons m ls =>
        have hOpen : m.token = .lparen := by
          simpa [followedByParen, (List.forall_mem_cons.1 hRest).1] using hParen
        exact (List.isChain_cons_cons.1 h).1 hOpen name text hToken hFunction
    · exact ih hRest h.tail i m name text hAt hCall hToken hFunction

/-! ## Lexemes are spelled -/

structure IsSpelt (l : Lexeme) : Prop where
  blank : allBlank l.leading = true
  equals : l.token ≠ .doubleEquals
  quoted (s : List Char) : l.token ≠ .singleQuoted s
  notEqual (h : l.token = .notEqual) : l.text = ['<', '>']

theorem isStable_spelt : IsStable IsSpelt where
  blank h := h.blank
  leading h _ hBlank := ⟨hBlank, h.equals, h.quoted, h.notEqual⟩
  divide := ⟨rfl, nofun, nofun, nofun⟩
  signs := by
    have hSigns : IsSpelt openSign ∧ IsSpelt commaSign ∧ IsSpelt zeroSign ∧ IsSpelt closeSign :=
      ⟨⟨rfl, nofun, nofun, nofun⟩, ⟨rfl, nofun, nofun, nofun⟩, ⟨by decide, nofun, nofun, nofun⟩,
        ⟨rfl, nofun, nofun, nofun⟩⟩
    simp [hSigns]

theorem text_of_notEqual (ls : List Lexeme) :
    ∀ l ∈ normalize ls, l.token = .notEqual → l.text = ['<', '>'] := by
  induction ls with
  | nil => exact nofun
  | cons l ls ih =>
    intro m hm hNot
    rw [normalize] at hm
    rcases List.mem_cons.1 hm with hHead | hRest
    · split at hHead
      · rw [hHead]
      · rw [hHead] at hNot
        cases hNot
      · rename_i hToken
        split at hHead
        · rw [hHead, hToken] at hNot
          cases hNot
        · rw [hHead] at hNot
          cases hNot
      · rename_i hOther _ _
        rw [hHead] at hNot
        exact absurd hNot hOther
    · exact ih m hRest hNot

theorem text_of_notEqual_respelled (ls : List Lexeme) :
    ∀ l ∈ respelled t ls, l.token = .notEqual → l.text = ['<', '>'] :=
  forall_qualify (text_of_notEqual (mapFunctions t ls))
    (fun _ _ _ hToken hNotEqual => nomatch hToken.symm.trans hNotEqual) none

theorem Respelt.isSpelt {l l' : Lexeme} (h : Respelt t l l')
    (hNotEqual : l'.token = .notEqual → l'.text = ['<', '>']) : IsSpelt l' := by
  have hSingle : ∀ s, Token.respelled t l.token = [s] → s ≠ .doubleEquals ∧
      ∀ content, s ≠ .singleQuoted content := by
    intro s hSame
    unfold Token.respelled at hSame
    split at hSame
    · cases hSame
    all_goals
      obtain rfl := List.singleton_inj.1 hSame
      grind
  have hTokens := h.tokens
  unfold unglue at hTokens
  split at hTokens
  · rename_i hToken
    exact ⟨h.solid.blank, by simp [hToken], by simp [hToken], hNotEqual⟩
  · rename_i hToken
    exact ⟨h.solid.blank, by simp [hToken], by simp [hToken], hNotEqual⟩
  · obtain ⟨hEquals, hQuoted⟩ := hSingle l'.token hTokens.symm
    exact ⟨h.solid.blank, hEquals, hQuoted, hNotEqual⟩

theorem isSpelt_name {l : Lexeme} (h : IsSpelt l) :
    IsSpelt ⟨nameToken l.text, l.text, l.leading⟩ := by
  rcases nameToken_cases l.text with ⟨value, hSame⟩ | ⟨name, hSame⟩ <;> rw [hSame]
  · exact ⟨h.blank, nofun, nofun, nofun⟩
  · exact ⟨h.blank, nofun, nofun, nofun⟩

/-! ## Spelled rows stay as they are -/

theorem normalize_of_isSpelt {l : Lexeme} (h : IsSpelt l) (rest : List Lexeme) :
    normalize (l :: rest) = l :: normalize rest := by
  rw [normalize]
  split
  · rename_i hToken
    rw [← h.notEqual hToken]
  · rename_i hToken
    exact absurd hToken h.equals
  · rename_i hToken
    exact absurd hToken (h.quoted _)
  · rfl

theorem normalize_unglue (ht : t.IsReadable) {l : Lexeme} (h : IsSpelt l) (rest : List Lexeme) :
    normalize (unglue t l ++ rest) = unglue t l ++ normalize rest := by
  unfold unglue
  split
  · have hTable := ht.table
    generalize t.tableToken = s at hTable
    cases hTable <;> rfl
  · exact normalize_of_isSpelt (isSpelt_name h) rest
  · exact normalize_of_isSpelt h rest

theorem qualify_of_not_field {l : Lexeme} (h : ∀ name, l.token ≠ .field name)
    (previous : Option Token) (rest : List Lexeme) :
    qualify t previous (l :: rest) = l :: qualify t (some l.token) rest := by
  rw [qualify]
  split
  · rename_i hToken
    exact absurd hToken (h _)
  · rfl

/-- A field is read right behind its table. -/
theorem qualify_unglue (ht : t.IsReadable) (l : Lexeme) (previous : Option Token)
    (rest : List Lexeme) : ∃ s,
      qualify t previous (unglue t l ++ rest) = unglue t l ++ qualify t (some s) rest := by
  unfold unglue
  split
  · have hTable := ht.table
    generalize t.tableToken = s at hTable
    cases hTable <;> exact ⟨_, rfl⟩
  · refine ⟨_, qualify_of_not_field (fun name hName => ?_) previous rest⟩
    have hField : nameToken l.text = .field name := hName
    rcases nameToken_cases l.text with ⟨value, hSame⟩ | ⟨word, hSame⟩
    · cases hSame.symm.trans hField
    · cases hSame.symm.trans hField
  · rename_i hNone _
    exact ⟨_, qualify_of_not_field hNone previous rest⟩

/-- The rules for single lexemes have nothing to do to a row that is read of spelled lexemes. -/
theorem qualified_unglue (ht : t.IsReadable) {ls : List Lexeme} (h : ∀ l ∈ ls, IsSpelt l) :
    qualified t (ls.flatMap (unglue t)) = render (ls.flatMap (unglue t)) := by
  have hNormal : normalize (ls.flatMap (unglue t)) = ls.flatMap (unglue t) := by
    induction ls with
    | nil => rfl
    | cons l ls ih =>
      obtain ⟨hFirst, hRest⟩ := List.forall_mem_cons.1 h
      rw [List.flatMap_cons, normalize_unglue ht hFirst, ih hRest]
  have hQualified : ∀ previous, qualify t previous (ls.flatMap (unglue t)) =
      ls.flatMap (unglue t) := by
    clear h hNormal
    induction ls with
    | nil => exact fun _ => rfl
    | cons l ls ih =>
      intro previous
      obtain ⟨s, hSame⟩ := qualify_unglue ht l previous (ls.flatMap (unglue t))
      rw [List.flatMap_cons, hSame, ih]
  rw [qualified, hNormal, hQualified]

/-! ## The text -/

theorem attached_unglue (ht : t.IsReadable) (ls : List Lexeme) :
    attached (ls.flatMap (unglue t)) = (attached ls).flatMap (unglue t) := by
  cases ls with
  | nil => rfl
  | cons l ls =>
    obtain ⟨m, ms, hUnglue, -, -, hMoved⟩ := unglue_eq ht l
    simp [attached, hUnglue, hMoved]

theorem isChain_both {α : Type} {R S : α → α → Prop} {as : List α} (hR : as.IsChain R)
    (hS : as.IsChain S) : as.IsChain fun a b => R a b ∧ S a b :=
  List.isChain_iff_getElem.2 fun i hi =>
    ⟨List.isChain_iff_getElem.1 hR i hi, List.isChain_iff_getElem.1 hS i hi⟩

/-- What the standard rules write of an expression they write unchanged. -/
theorem standard_standard (ht : t.IsReadable) (hSteady : t.IsSteady) {source : List Char} {e : Expr}
    (hProper : e.IsProper) (hReads : Reads none (tokenize source) e)
    (hSetOff : (tokenize source).IsChain SetOff) :
    standard t (tokenize (standard t (tokenize source))) = standard t (tokenize source) := by
  have hTable : ∀ s ∈ some t.tableToken, IsTable s := by simpa using ht.table
  have hAmid := readsAmid_of_reads hProper hReads
  have hWritten := isWritten_tokenize hProper hAmid hSetOff
  have hRow := isRespelling_row ht hProper hAmid hSetOff
  have hRead := tokenize_standard ht hProper hAmid hSetOff
  obtain ⟨hDivided, -, -⟩ := hRow.divided ht hProper
  obtain ⟨hTokens, -⟩ := tokens_standard ht hProper hReads hSetOff
  have hDivisionless : Divisionless (tokenize (standard t (tokenize source))) := by
    intro l hl hSlash
    have hMem := List.mem_map_of_mem (f := Lexeme.token) hl
    rw [hTokens, hSlash] at hMem
    exact (e.respelled t).slash_notMem_out hTable hMem
  have hNames : KeepsNames t (tokenize (standard t (tokenize source))) := by
    have hCalls := isChain_calls_respelled ht hSteady fun l hl => (hWritten.clear l hl).whole
    have hBoth := isChain_attached (neighbourly_calls hSteady) <|
      hRow.isChain_divided (neighbourly_calls hSteady) (isChain_both hRow.chain hCalls)
    refine keepsNames_of_isChain (isComment_standard ht hProper hReads hSetOff) ?_
    rw [hRead]
    exact hBoth.imp fun _ _ h => h.2
  have hSpelt : ∀ l ∈ attached (divided (respelled t (tokenize source))), IsSpelt l := by
    refine forall_mem_attached (isStable_spelt.divided fun l' hl' => ?_) fun l h =>
      isStable_spelt.leading h rfl
    obtain ⟨l, hRespelt⟩ := exists_respelt hRow.respelt hl'
    exact hRespelt.isSpelt (text_of_notEqual_respelled _ l' hl')
  rw [standard_eq_qualified (isRead_tokenize _).blank hDivisionless hNames, hRead, ← hDivided,
    attached_unglue ht, qualified_unglue ht hSpelt, ← attached_unglue ht, hDivided, ← hRead,
    render_tokenize_eq_trim, standard, trim_trim]

/-- Where both passes are by the standard rules, the second one changes nothing. -/
theorem dax_of_second_attempt (ht : t.IsReadable) (hSteady : t.IsSteady) {source : List Char}
    {e : Expr} (hProper : e.IsProper) (hReads : Reads none (tokenize source) e)
    (hSetOff : (tokenize source).IsChain SetOff) {facts facts' : Facts} {dax dax' : List Char}
    {remarks remarks' : List Remark}
    (hFirst : attempt t source = .converted .standard facts dax remarks)
    (hSecond : attempt t dax = .converted .standard facts' dax' remarks') : dax' = dax := by
  obtain ⟨-, hDax⟩ := gives_of_attempt hFirst
  obtain ⟨-, hDax'⟩ := gives_of_attempt hSecond
  obtain rfl := gives_standardRemarked hDax
  rw [gives_standardRemarked hDax', standard_standard ht hSteady hProper hReads hSetOff]

/-! ## The built-in functions -/

/-- A table is read as one if it is written in quotes, or without them as a name that is no
keyword. -/
theorem isReadable_builtin {table : String} (orderColumn : String)
    (hTable : isPlainName table.toList = true →
      isNameText table.toList = true ∧ IsTable (nameToken table.toList)) :
    (Catalogue.builtin.target table orderColumn).IsReadable := by
  have hAll : ∀ entry ∈ Catalogue.builtin.functionIndex.entries,
      isNameText entry.2.toList = true ∧
        nameToken entry.2.toList = .identifier (upper entry.2.toList) ∧
        (Token.looseWords.any (·.toList == entry.1.toList) = false →
          isKeyword (upper entry.2.toList) = false) ∧
        ∀ word ∈ ["AND", "OR", "NOT"], entry.1.toList = upper word.toList →
          upper entry.2.toList = word.toList := by decide +kernel
  have hTarget : (Catalogue.builtin.target table orderColumn).table = table.toList := rfl
  constructor
  · rw [Target.tableToken, Target.tableText, tableRef, hTarget]
    split
    · rename_i hPlain
      exact whole_name (hTable hPlain).1 []
    · exact whole_literal .singleQuoted table.toList []
  · rw [Target.tableToken, hTarget]
    split
    · rename_i hPlain
      exact (hTable hPlain).2
    · exact .quoted _
  · intro name text hFunction
    obtain ⟨entry, hMem, -, rfl⟩ := mem_functionIndex hFunction
    obtain ⟨hName, hRead, -⟩ := hAll entry hMem
    exact ⟨hName, hRead⟩
  · intro name text hFunction hName
    obtain ⟨entry, hMem, hKey, rfl⟩ := mem_functionIndex hFunction
    obtain ⟨-, -, hKeyword, -⟩ := hAll entry hMem
    exact hKeyword (by rw [hKey]; exact hName)
  · intro name text hFunction hWord
    obtain ⟨entry, hMem, hKey, rfl⟩ := mem_functionIndex hFunction
    obtain ⟨-, -, -, hWords⟩ := hAll entry hMem
    have hNames : name = "AND".toList ∨ name = "OR".toList ∨ name = "NOT".toList := by
      simpa [Token.isOperatorWord, Token.isConnective, negationWord, or_assoc] using hWord
    rcases hNames with rfl | rfl | rfl
    · exact hWords "AND" (by decide) hKey
    · exact hWords "OR" (by decide) hKey
    · exact hWords "NOT" (by decide) hKey

/-- The default table. -/
example : (Catalogue.builtin.target "Sales" "OrderDate").IsReadable :=
  isReadable_builtin "OrderDate" fun _ =>
    ⟨by decide +kernel, @IsTable.name "SALES".toList (by decide)⟩

theorem isSteady_builtin (table orderColumn : String) :
    (Catalogue.builtin.target table orderColumn).IsSteady := by
  have hAll : ∀ entry ∈ Catalogue.builtin.functionIndex.entries,
      entry.1.toList ≠ upper divideWord ∧
        ∀ entry' ∈ Catalogue.builtin.functionIndex.entries,
          entry'.1.toList = upper (upper entry.2.toList) → entry'.2.toList = entry.2.toList := by
    decide +kernel
  constructor
  · intro name text text' hFunction hAgain
    obtain ⟨entry, hMem, -, rfl⟩ := mem_functionIndex hFunction
    obtain ⟨entry', hMem', hKey, rfl⟩ := mem_functionIndex hAgain
    exact (hAll entry hMem).2 entry' hMem' hKey
  · intro text hFunction
    obtain ⟨entry, hMem, hKey, -⟩ := mem_functionIndex hFunction
    exact absurd hKey (hAll entry hMem).1

end DaxMigration.Dax
