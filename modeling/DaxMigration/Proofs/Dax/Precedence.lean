import DaxMigration.Proofs.Dax.Edges
import DaxMigration.Proofs.Dax.Lexemes

/-!
# Precedence

The standard rules on the text of an expression. What they write is read as one, and it is the
expression with its quotients made calls exactly if both operands of every quotient are whole.
Comments at the edges of its terms change nothing in this.
-/

namespace DaxMigration.Dax

open Formula Text Divisible

/-! ## The row of an expression -/

theorem isComment_of_endsOperand {s : Token} (h : s.endsOperand = true) : s.isComment = false := by
  cases s <;> first | rfl | cases h

theorem isComment_of_follows {table : Option Token} (hTable : ∀ s ∈ table, IsTable s) {s u : Token}
    (h : Follows table s u) : s.isComment = false := by
  cases h with
  | operator hEnd | connective hEnd | close hEnd => exact isComment_of_endsOperand hEnd
  | operand hOperator => cases s <;> first | rfl | cases hOperator
  | word hWord =>
    have hKeyword := isKeyword_of_isOperatorWord hWord
    cases s <;> first | rfl | cases hKeyword
  | inner | name | empty => rfl
  | member hMember => cases hTable _ hMember <;> rfl

theorem isComment_of_isRun {table : Option Token} (hTable : ∀ s ∈ table, IsTable s)
    {ts : List Token} (h : IsRun table ts) : ∀ t ∈ ts, t.isComment = false :=
  h.forall_mem (fun _ _ => isComment_of_follows hTable) fun _ => isComment_of_endsOperand

theorem map_token_uncommented (ls : List Lexeme) :
    (uncommented ls).map Lexeme.token = sieve (ls.map Lexeme.token) := by
  rw [sieve, List.filter_map]
  rfl

/-- The lexemes besides comments are those of the expression, and every comment is closed and stands
where a term begins or ends. -/
structure ReadsAmid (ls : List Lexeme) (e : Expr) : Prop where
  tokens : sieve (ls.map Lexeme.token) = e.tokens none
  terminated : ∀ l ∈ ls, l.isTerminated = true
  calm : ∀ l ∈ ls, l.isComment = true → (Mode.code.after l.text).isCalm = true
  edges : AtEdges (ls.map Lexeme.token)

theorem ReadsAmid.isRun {ls : List Lexeme} {e : Expr} (hProper : e.IsProper) (h : ReadsAmid ls e) :
    IsRun none ((uncommented ls).map Lexeme.token) := by
  rw [map_token_uncommented, h.tokens]
  exact e.isRun_tokens (by simp) hProper

theorem isComment_of_reads {ls : List Lexeme} {e : Expr} (hProper : e.IsProper)
    (h : Reads none ls e) : ∀ l ∈ ls, l.isComment = false := fun l hl =>
  @isComment_of_isRun none (by simp) _ (h.tokens ▸ e.isRun_tokens (by simp) hProper) l.token
    (List.mem_map_of_mem hl)

/-- An expression may stand without comments. -/
theorem readsAmid_of_reads {ls : List Lexeme} {e : Expr} (hProper : e.IsProper)
    (h : Reads none ls e) : ReadsAmid ls e := by
  have hComment := isComment_of_reads hProper h
  have hTokens : ∀ t ∈ ls.map Lexeme.token, t.isComment = false := List.forall_mem_map.2 hComment
  refine ⟨?_, h.terminated, fun l hl hTrue => ?_, atEdges_of_none hTokens⟩
  · rw [← map_token_uncommented, uncommented_eq_self hComment, h.tokens]
  · rw [hComment l hl] at hTrue
    cases hTrue

/-- The lexemes of an expression without tables. -/
theorem isWritten_tokenize {source : List Char} {e : Expr} (hProper : e.IsProper)
    (hReads : ReadsAmid (tokenize source) e) (hSetOff : (tokenize source).IsChain SetOff) :
    IsWritten (tokenize source) := by
  have hRun := hReads.isRun hProper
  refine ⟨fun l hl => ?_, (List.isChain_map _).1 hRun.chain, hSetOff, fun l hl => ?_⟩
  · have hTerminated := hReads.terminated l hl
    obtain ⟨_, _, _, _, _, hBlank⟩ := scan_of_mem_tokenize hl
    cases hComment : l.isComment with
    | true =>
      have hWhole := whole_of_mem_tokenize hl (hReads.calm l hl hComment)
      exact ⟨hWhole, ⟨hWhole.trimmed hComment, hBlank⟩, hTerminated⟩
    | false =>
      have hSettled := (spelled_of_mem_tokenize hl hTerminated hComment).settled
      exact ⟨whole_of_mem_tokenize hl hSettled.calm, ⟨hSettled.trimmed, hBlank⟩, hTerminated⟩
  · exact hRun.ends l.token (by rw [List.getLast?_map, Option.mem_def.1 hl]; rfl)

theorem isChain_sits {table : Option Token} (hTable : ∀ s ∈ table, IsTable s) {ls : List Lexeme}
    (hFollows : (uncommented ls).IsChain fun l m => Follows table l.token m.token)
    (hSetOff : ls.IsChain SetOff) (hEdges : AtEdges (ls.map Lexeme.token))
    (hWhole : ∀ l ∈ ls, Whole l) : ls.IsChain Sits := by
  have hApart := (List.isChain_map _).1 (isChain_of_atEdges hEdges)
  clear hEdges
  induction ls with
  | nil => exact .nil
  | cons l ls ih =>
    obtain ⟨_, hRest⟩ := List.forall_mem_cons.1 hWhole
    have hInner := hFollows.suffix ((List.suffix_cons l ls).filter _)
    rw [List.isChain_cons] at hSetOff hApart ⊢
    refine ⟨fun m hm => ?_, ih hInner hSetOff.2 hRest hApart.2⟩
    obtain ⟨hRight, hLeft⟩ := hApart.1 m hm
    cases hComment : l.isComment with
    | true => exact sits_of_comment hComment (hRight hComment)
    | false =>
      cases hNext : m.isComment with
      | true =>
        refine sits_comment hNext (hRest m (List.mem_of_mem_head? hm)) ?_ (hSetOff.1 m hm)
        exact Bool.eq_false_iff.2 fun hSign => Bool.eq_false_iff.1 (hLeft hSign) hNext
      | false =>
        obtain ⟨rest, rfl⟩ := List.head?_eq_some_iff.1 hm
        rw [uncommented_of_not_comment hComment, uncommented_of_not_comment hNext] at hFollows
        exact sits_of_follows hTable (List.isChain_cons_cons.1 hFollows).1 (hSetOff.1 m hm)
          (hRest m List.mem_cons_self)

/-! ## The respelled row -/

variable {t : Target}

theorem map_token_respelt {ls ls' : List Lexeme} (h : List.Forall₂ (Respelt t) ls ls') :
    (ls'.flatMap (unglue t)).map Lexeme.token = (ls.map Lexeme.token).flatMap (Token.respelled t) := by
  induction h with
  | nil => rfl
  | cons hFirst _ ih => simp [hFirst.tokens, ih]

theorem exists_respelt {ls ls' : List Lexeme} (h : List.Forall₂ (Respelt t) ls ls') {l' : Lexeme}
    (hMem : l' ∈ ls') : ∃ l, Respelt t l l' := by
  induction h with
  | nil => cases hMem
  | @cons l _ _ _ hFirst _ ih =>
    rcases List.mem_cons.1 hMem with rfl | hMem
    · exact ⟨l, hFirst⟩
    · exact ih hMem

theorem isChain_unglue (ht : t.IsReadable) (l : Lexeme) : (unglue t l).IsChain SetOff := by
  unfold unglue
  split
  · refine .cons_cons ⟨?_, ?_⟩ (.singleton _)
    · simp [isKeyword_of_isTable ht.table]
    · simp [Token.isConnective]
  · exact .singleton _
  · exact .singleton _

/-- White space that sets words off stays where it is. -/
theorem isChain_setOff_respelt (ht : t.IsReadable) {ls ls' : List Lexeme}
    (h : List.Forall₂ (Respelt t) ls ls') (hSetOff : ls.IsChain SetOff) :
    (ls'.flatMap (unglue t)).IsChain SetOff := by
  induction h with
  | nil => exact .nil
  | @cons l l' ls ls' hFirst hRest ih =>
    rw [List.flatMap_cons, List.isChain_append]
    refine ⟨isChain_unglue ht l', ih hSetOff.tail, fun m hm n hn => ?_⟩
    cases hRest with
    | nil => cases hn
    | @cons k k' ks ks' hNext hLast =>
      obtain ⟨d, ds, hUnglue, hLeading, _, _⟩ := unglue_eq ht k'
      obtain rfl : d = n := by simpa [hUnglue] using hn
      have hSame : d.isAttached = k.isAttached := by
        simp only [Lexeme.isAttached, hLeading, hNext.leading]
      obtain ⟨hKeyword, hConnective⟩ := (List.isChain_cons_cons.1 hSetOff).1
      rw [← hSame] at hKeyword hConnective
      refine ⟨fun hWord => hKeyword ?_, fun hWord => hConnective ?_⟩
      · rw [← hFirst.word m (List.mem_of_mem_getLast? hm) hWord]
        exact hWord
      · have hIsKeyword : d.token.isKeyword = true :=
          isKeyword_of_isOperatorWord (by simp [Token.isOperatorWord, hWord])
        rw [← hNext.word d (by simp [hUnglue]) hIsKeyword]
        exact hWord

/-! ## The divided row -/

/-- A lexeme whose text is that of what it is read as. -/
structure Same (t : Target) (l : Lexeme) : Prop where
  blank : allBlank l.leading = true
  text : written (unglue t l) = l.written

theorem isStable_same (ht : t.IsReadable) : IsStable (Same t) where
  blank h := h.blank
  leading {l} h leading hBlank := by
    obtain ⟨m, ms, hUnglue, hLeading, _, hMoved⟩ := unglue_eq ht l
    refine ⟨hBlank, ?_⟩
    have hText := h.text
    rw [hUnglue, written_cons, Lexeme.written, hLeading, List.append_cancel_left_eq] at hText
    rw [hMoved, written_cons, Lexeme.written, hText]
  divide := ⟨rfl, by rw [unglue_divideName]; simp [Lexeme.written]⟩
  signs := by
    have hSigns : Same t openSign ∧ Same t commaSign ∧ Same t zeroSign ∧ Same t closeSign :=
      ⟨⟨rfl, rfl⟩, ⟨rfl, rfl⟩, ⟨by decide, rfl⟩, ⟨rfl, rfl⟩⟩
    simp [hSigns]

theorem written_unglue {ls : List Lexeme} (h : ∀ l ∈ ls, Same t l) :
    written (ls.flatMap (unglue t)) = written ls := by
  induction ls with
  | nil => rfl
  | cons l ls ih =>
    obtain ⟨hFirst, hRest⟩ := List.forall_mem_cons.1 h
    rw [List.flatMap_cons, written_append, hFirst.text, ih hRest, written_cons, Lexeme.written,
      List.append_assoc]

theorem isStable_clear : IsStable Clear where
  blank h := h.solid.blank
  leading h := h.with_leading
  divide := by
    have hToken : nameToken "DIVIDE".toList = .identifier "DIVIDE".toList := by decide
    have hName : isNameText "DIVIDE".toList = true := by decide
    have hWhole := whole_name hName []
    rw [hToken] at hWhole
    exact ⟨hWhole, isStable_solid.divide, rfl⟩
  signs := by
    have hWhole : ∀ l ∈ [openSign, commaSign, zeroSign, closeSign], Whole l := by
      simp only [List.forall_mem_cons, List.not_mem_nil, false_implies, implies_true, and_true]
      exact ⟨⟨⟨'(', [], rfl, by decide, rfl⟩, rfl⟩, ⟨⟨',', [], rfl, by decide, rfl⟩, rfl⟩,
        ⟨⟨'0', [], rfl, by decide, rfl⟩, rfl⟩, ⟨⟨')', [], rfl, by decide, rfl⟩, rfl⟩⟩
    have hTerminated : ∀ l ∈ [openSign, commaSign, zeroSign, closeSign], l.isTerminated = true := by
      decide
    exact fun l hl => ⟨hWhole l hl, isStable_solid.signs l hl, hTerminated l hl⟩

theorem isStable_uncommented :
    IsStable fun l => allBlank l.leading = true ∧ l.isComment = false where
  blank h := h.1
  leading h _ hBlank := ⟨hBlank, h.2⟩
  divide := ⟨rfl, rfl⟩
  signs := by decide

def attached : List Lexeme → List Lexeme
  | [] => []
  | l :: ls => { l with leading := [] } :: ls

@[simp]
theorem map_token_attached (ls : List Lexeme) :
    (attached ls).map Lexeme.token = ls.map Lexeme.token := by
  cases ls <;> rfl

/-- What holds of lexemes whatever white space stands in front of them. -/
theorem forall_mem_attached {P : Lexeme → Prop} {ls : List Lexeme} (h : ∀ l ∈ ls, P l)
    (hLeading : ∀ l, P l → P { l with leading := [] }) : ∀ l ∈ attached ls, P l := by
  cases ls with
  | nil => exact h
  | cons l ls =>
    obtain ⟨hFirst, hRest⟩ := List.forall_mem_cons.1 h
    exact List.forall_mem_cons.2 ⟨hLeading l hFirst, hRest⟩

theorem isChain_attached {R : Lexeme → Lexeme → Prop} (hR : Neighbourly R) {ls : List Lexeme}
    (h : ls.IsChain R) : (attached ls).IsChain R := by
  cases ls with
  | nil => exact h
  | cons l ls => exact isChain_cons_leading hR [] h

/-- A row that is read as it is written, from its first lexeme on. -/
theorem tokenize_trim_written {ls : List Lexeme} (hClear : ∀ l ∈ ls, Clear l)
    (hChain : ls.IsChain Sits) : tokenize (trim (written ls)) = attached ls := by
  have hAll : ∀ m ∈ attached ls, Clear m := forall_mem_attached hClear fun l h => h.with_leading rfl
  have hLegible : Legible (attached ls) :=
    ⟨fun m hm => (hAll m hm).whole, fun m hm => (hAll m hm).solid.blank,
      (isChain_attached neighbourly_sits hChain).imp fun _ _ hSits => hSits.fits⟩
  have hText : trim (written ls) = written (attached ls) := by
    cases ls with
    | nil => rfl
    | cons l ls =>
      rw [trim_written fun m hm => (hClear m hm).solid]
      simp [attached]
  rw [hText, tokenize_written hLegible]

structure IsRespelling (t : Target) (e : Expr) (ls row : List Lexeme) : Prop where
  respelt : List.Forall₂ (Respelt t) ls row
  tokens : sieve ((row.flatMap (unglue t)).map Lexeme.token) =
    (e.respelled t).tokens (some t.tableToken)
  edges : AtEdges ((row.flatMap (unglue t)).map Lexeme.token)
  clear : ∀ m ∈ row.flatMap (unglue t), Clear m
  chain : (row.flatMap (unglue t)).IsChain Sits
  first : ∀ m ∈ (row.flatMap (unglue t)).head?, isFactorSign m.token = false
  closed : (Pass.start.run (row.flatMap (unglue t))).frames = []

theorem isComment_respelled (ht : t.IsReadable) (s : Token) :
    ∀ u ∈ Token.respelled t s, u.isComment = s.isComment := by
  have hTable : t.tableToken.isComment = false := by
    have hName := ht.table
    generalize t.tableToken = u at hName
    cases hName <;> rfl
  cases s with
  | field name => simpa [Token.respelled, Token.isComment] using hTable
  | _ => simp [Token.respelled, Token.isComment]

/-- A comment is left as it is, and nothing else becomes one. -/
theorem sieve_respelled (ht : t.IsReadable) (ts : List Token) :
    sieve (ts.flatMap (Token.respelled t)) = (sieve ts).flatMap (Token.respelled t) := by
  induction ts with
  | nil => rfl
  | cons s ts ih =>
    have hComment := isComment_respelled ht s
    rw [List.flatMap_cons, sieve_append, ih]
    cases hSame : s.isComment with
    | true =>
      have hNone : sieve (Token.respelled t s) = [] :=
        List.filter_eq_nil_iff.2 fun u hu => by simp [hComment u hu, hSame]
      rw [hNone, sieve_cons_of_comment hSame, List.nil_append]
    | false =>
      have hAll : sieve (Token.respelled t s) = Token.respelled t s :=
        List.filter_eq_self.2 fun u hu => by simp [hComment u hu, hSame]
      rw [hAll, sieve_cons_of_not_comment hSame, List.flatMap_cons]

/-- Whatever a lexeme is respelled to plays its part. -/
theorem standsFor_respelt {l l' : Lexeme} (h : Respelt t l l') (hAlike : Alike l.token l'.token) :
    StandsFor l.token (Token.respelled t l.token) := by
  rw [← h.tokens]
  cases h.translates with
  | @one m hSame hToken =>
    rw [hSame]
    exact .inl ⟨m.token, rfl, hAlike.trans hToken⟩
  | operand hPlain hAll =>
    refine .inr ⟨hPlain.of_alike hAlike, ?_, ?_⟩
    · have hFilled : unglue t l' ≠ [] := by
        unfold unglue
        split <;> simp
      simpa using hFilled
    · simpa using hAll

theorem atEdges_respelt {ls ls' : List Lexeme} (h : List.Forall₂ (Respelt t) ls ls')
    (hAlike : AlikeRows ls ls') (hEdges : AtEdges (ls.map Lexeme.token)) :
    AtEdges ((ls'.flatMap (unglue t)).map Lexeme.token) := by
  have hAll : ∀ s ∈ ls.map Lexeme.token, StandsFor s (Token.respelled t s) := by
    clear hEdges
    induction h with
    | nil => simp
    | cons hFirst _ ih =>
      cases hAlike with
      | cons hSame hRest =>
        rw [List.map_cons]
        exact List.forall_mem_cons.2 ⟨standsFor_respelt hFirst hSame, ih hRest⟩
  rw [map_token_respelt h, AtEdges, Edges.admits_of_standsFor hAll]
  exact hEdges

/-- The rules for single lexemes respell an expression. -/
theorem isRespelling_row (ht : t.IsReadable) {source : List Char} {e : Expr} (hProper : e.IsProper)
    (hReads : ReadsAmid (tokenize source) e) (hSetOff : (tokenize source).IsChain SetOff) :
    IsRespelling t e (tokenize source) (respelled t (tokenize source)) := by
  have hTable : ∀ s ∈ some t.tableToken, IsTable s := by simpa using ht.table
  have hRow := @respelt_row t ht _ (isWritten_tokenize hProper hReads hSetOff) none (by simp)
  change List.Forall₂ (Respelt t) _ (respelled t (tokenize source)) at hRow
  have hEdges := atEdges_respelt hRow (alike_respelled t _) hReads.edges
  generalize respelled t (tokenize source) = row at hRow hEdges
  have hTokens : sieve ((row.flatMap (unglue t)).map Lexeme.token) =
      (e.respelled t).tokens (some t.tableToken) := by
    rw [map_token_respelt hRow, sieve_respelled ht, hReads.tokens, e.tokens_respelled ht]
  have hRun : IsRun (some t.tableToken)
      ((uncommented (row.flatMap (unglue t))).map Lexeme.token) := by
    rw [map_token_uncommented, hTokens]
    exact (e.respelled t).isRun_tokens hTable (hProper.respelled ht)
  have hClear : ∀ m ∈ row.flatMap (unglue t), Clear m := by
    intro m hm
    obtain ⟨l', hMem, hm⟩ := List.mem_flatMap.1 hm
    obtain ⟨l, hRespelt⟩ := exists_respelt hRow hMem
    exact hRespelt.clear m hm
  refine ⟨hRow, hTokens, hEdges, hClear, ?_, ?_, ?_⟩
  · exact isChain_sits hTable ((List.isChain_map _).1 hRun.chain)
      (isChain_setOff_respelt ht hRow hSetOff) hEdges fun m hm => (hClear m hm).whole
  · intro m hm
    cases hComment : m.isComment with
    | true => cases hToken : m.token <;> simp_all [Lexeme.isComment, Token.isComment, isFactorSign]
    | false =>
      obtain ⟨rest, hSplit⟩ := List.head?_eq_some_iff.1 hm
      refine isFactorSign_of_startsOperand (hRun.starts m.token ?_)
      rw [hSplit, uncommented_of_not_comment hComment]
      rfl
  · have hClosed := (divided_map_token (row.flatMap (unglue t))).2
    rw [(divided_sieve hEdges).2, hTokens] at hClosed
    exact hClosed.2 ((e.respelled t).divided_tokens hTable (hProper.respelled ht)).2

namespace IsRespelling

variable {e : Expr} {ls row : List Lexeme}

/-- The pass over the row, over what the row is read as, and over the tokens of that. -/
theorem divided (ht : t.IsReadable) (hProper : e.IsProper) (h : IsRespelling t e ls row) :
    (Dax.divided row).flatMap (unglue t) = Dax.divided (row.flatMap (unglue t)) ∧
      convertDivision row = written (Dax.divided (row.flatMap (unglue t))) ∧
      sieve ((Dax.divided (row.flatMap (unglue t))).map Lexeme.token) =
        (e.respelled t).out (some t.tableToken) := by
  have hTable : ∀ s ∈ some t.tableToken, IsTable s := by simpa using ht.table
  have hTranslates : ∀ l' ∈ row, Translates (unglue t) l' := fun l' hMem =>
    (exists_respelt h.respelt hMem).elim fun _ hRespelt => hRespelt.translates
  obtain ⟨hDivided, hClosed⟩ := divided_flatMap (isTranslation_unglue ht) hTranslates
  have hSame : ∀ l' ∈ row, Solid l' ∧ Same t l' := by
    intro l' hMem
    obtain ⟨l, hRespelt⟩ := exists_respelt h.respelt hMem
    exact ⟨hRespelt.solid, hRespelt.solid.blank, hRespelt.text⟩
  refine ⟨hDivided.symm, ?_, ?_⟩
  · rw [(convertDivision_eq (fun l hl => (hSame l hl).1) (hClosed.2 h.closed)).1, hDivided,
      written_unglue ((isStable_same ht).divided fun l hl => (hSame l hl).2)]
  · rw [(divided_map_token (row.flatMap (unglue t))).1, (divided_sieve h.edges).1, h.tokens]
    exact ((e.respelled t).divided_tokens hTable (hProper.respelled ht)).1

theorem isChain_divided (h : IsRespelling t e ls row) {R : Lexeme → Lexeme → Prop}
    (hR : Neighbourly R) (hChain : (row.flatMap (unglue t)).IsChain R) :
    (Dax.divided (row.flatMap (unglue t))).IsChain R :=
  Dax.isChain_divided hR hChain h.first h.closed

/-- No comment comes from elsewhere. -/
theorem comment (ht : t.IsReadable) (h : IsRespelling t e ls row)
    (hComment : ∀ l ∈ ls, l.isComment = false) :
    ∀ m ∈ row.flatMap (unglue t), m.isComment = false := by
  intro m hm
  have hToken := List.mem_map_of_mem (f := Lexeme.token) hm
  rw [map_token_respelt h.respelt] at hToken
  obtain ⟨s, hMem, hu⟩ := List.mem_flatMap.1 hToken
  obtain ⟨l, hl, rfl⟩ := List.mem_map.1 hMem
  exact (isComment_respelled ht l.token m.token hu).trans (hComment l hl)

end IsRespelling

/-! ## The text -/

/-- The text that the standard rules write of an expression is read as the divided row. -/
theorem tokenize_standard (ht : t.IsReadable) {source : List Char} {e : Expr} (hProper : e.IsProper)
    (hReads : ReadsAmid (tokenize source) e) (hSetOff : (tokenize source).IsChain SetOff) :
    tokenize (standard t (tokenize source)) =
      attached (divided ((respelled t (tokenize source)).flatMap (unglue t))) := by
  have hRow := isRespelling_row ht hProper hReads hSetOff
  obtain ⟨-, hWritten, -⟩ := hRow.divided ht hProper
  rw [standard_eq, hWritten]
  exact tokenize_trim_written (isStable_clear.divided hRow.clear)
    (hRow.isChain_divided neighbourly_sits hRow.chain)

/-- What the standard rules write of an expression is read as what the pass leaves of it, among the
same comments. -/
theorem sieve_standard (ht : t.IsReadable) {source : List Char} {e : Expr} (hProper : e.IsProper)
    (hReads : ReadsAmid (tokenize source) e) (hSetOff : (tokenize source).IsChain SetOff) :
    sieve ((tokenize (standard t (tokenize source))).map Lexeme.token) =
        (e.respelled t).out (some t.tableToken) ∧
      ∀ l ∈ tokenize (standard t (tokenize source)), l.isTerminated = true := by
  have hRow := isRespelling_row ht hProper hReads hSetOff
  obtain ⟨-, -, hTokens⟩ := hRow.divided ht hProper
  rw [tokenize_standard ht hProper hReads hSetOff, map_token_attached]
  refine ⟨hTokens, forall_mem_attached (fun l hl => ?_) fun l h => h⟩
  exact (isStable_clear.divided hRow.clear l hl).terminated

/-- No comment is written where none is read. -/
theorem isComment_standard (ht : t.IsReadable) {source : List Char} {e : Expr}
    (hProper : e.IsProper) (hReads : Reads none (tokenize source) e)
    (hSetOff : (tokenize source).IsChain SetOff) :
    ∀ l ∈ tokenize (standard t (tokenize source)), l.isComment = false := by
  have hAmid := readsAmid_of_reads hProper hReads
  have hRow := isRespelling_row ht hProper hAmid hSetOff
  have hComment := hRow.comment ht (isComment_of_reads hProper hReads)
  rw [tokenize_standard ht hProper hAmid hSetOff]
  refine forall_mem_attached (fun l hl => ?_) fun l h => h
  exact (isStable_uncommented.divided (fun l hl =>
    ⟨(hRow.clear l hl).solid.blank, hComment l hl⟩) l hl).2

theorem tokens_standard (ht : t.IsReadable) {source : List Char} {e : Expr} (hProper : e.IsProper)
    (hReads : Reads none (tokenize source) e) (hSetOff : (tokenize source).IsChain SetOff) :
    (tokenize (standard t (tokenize source))).map Lexeme.token =
        (e.respelled t).out (some t.tableToken) ∧
      ∀ l ∈ tokenize (standard t (tokenize source)), l.isTerminated = true := by
  have hSieve := sieve_standard ht hProper (readsAmid_of_reads hProper hReads) hSetOff
  rwa [← map_token_uncommented,
    uncommented_eq_self (isComment_standard ht hProper hReads hSetOff)] at hSieve

/-- The standard rules on an expression: the text they write is read as the expression with its
quotients made calls, respelled, exactly if both operands of every quotient are whole. -/
theorem reads_standard_iff (ht : t.IsReadable) {source : List Char} {e : Expr}
    (hProper : e.IsProper) (hReads : Reads none (tokenize source) e)
    (hSetOff : (tokenize source).IsChain SetOff) :
    Reads (some t.tableToken) (tokenize (standard t (tokenize source))) (e.respelled t).divided ↔
      e.isSound = true := by
  have hTable : ∀ s ∈ some t.tableToken, IsTable s := by simpa using ht.table
  obtain ⟨hTokens, hTerminated⟩ := tokens_standard ht hProper hReads hSetOff
  rw [← e.isSound_respelled (t := t), ← (e.respelled t).out_eq_iff hTable, ← hTokens]
  exact ⟨fun h => h.tokens, fun h => ⟨h, hTerminated⟩⟩

end DaxMigration.Dax
