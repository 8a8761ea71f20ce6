import DaxMigration.Proofs.Dax.Counting
import DaxMigration.Proofs.Dax.Precedence
import DaxMigration.Proofs.Dax.Splicing
import DaxMigration.Proofs.Formula.Bounds
import DaxMigration.Proofs.Formula.Nesting

/-!
# Comments do not matter

Formulas that are read as one expression are converted alike, whatever comments stand at the edges
of its terms: the kind, the facts, the remarks and the verdict are the same, and so are the tokens
of the texts besides the comments. In particular a comment may give way to a blank.
-/

namespace DaxMigration.Dax

open Formula Text Divisible

/-! ## What is read past comments -/

theorem followedByParen_eq (ls : List Lexeme) :
    followedByParen ls = ((sieve (ls.map Lexeme.token)).head? == some .lparen) := by
  induction ls with
  | nil => rfl
  | cons l ls ih =>
    rw [List.map_cons]
    cases hComment : l.isComment with
    | true =>
      rw [sieve_cons_of_comment hComment, ← ih]
      simp [followedByParen, hComment]
    | false =>
      rw [sieve_cons_of_not_comment hComment]
      simp [followedByParen, hComment]

def callees : List Token → List (List Char)
  | [] => []
  | .identifier name :: ts =>
    if ts.head? == some .lparen then name :: callees ts else callees ts
  | _ :: ts => callees ts

theorem calledNames_eq (ls : List Lexeme) :
    calledNames ls = callees (sieve (ls.map Lexeme.token)) := by
  induction ls with
  | nil => rfl
  | cons l ls ih =>
    rw [calledNames, followedByParen_eq, ih, List.map_cons]
    cases hToken : l.token with
    | comment => rw [sieve_cons_of_comment rfl]
    | _ =>
      rw [sieve_cons_of_not_comment rfl]
      rfl

theorem filterMap_sieve {β : Type} {f : Token → Option β}
    (hf : ∀ t, t.isComment = true → f t = none) (ls : List Lexeme) :
    ls.filterMap (fun l => f l.token) = (sieve (ls.map Lexeme.token)).filterMap f := by
  induction ls with
  | nil => rfl
  | cons l ls ih =>
    rw [List.map_cons, List.filterMap_cons]
    cases hComment : l.token.isComment with
    | true => rw [sieve_cons_of_comment hComment, hf _ hComment, ih]
    | false => rw [sieve_cons_of_not_comment hComment, List.filterMap_cons, ih]

theorem countP_sieve {p : Token → Bool} (hp : ∀ t, t.isComment = true → p t = false)
    (ls : List Lexeme) : ls.countP (fun l => p l.token) = (sieve (ls.map Lexeme.token)).countP p := by
  induction ls with
  | nil => rfl
  | cons l ls ih =>
    rw [List.map_cons, List.countP_cons, ih]
    cases hComment : l.token.isComment with
    | true => simp [sieve_cons_of_comment hComment, hp _ hComment]
    | false => rw [sieve_cons_of_not_comment hComment, List.countP_cons]

section Alike

variable {ls ls' : List Lexeme}
  (h : sieve (ls.map Lexeme.token) = sieve (ls'.map Lexeme.token))

include h

theorem calledNames_of_sieve : calledNames ls = calledNames ls' := by
  rw [calledNames_eq, calledNames_eq, h]

theorem facts_of_sieve : facts ls = facts ls' := by
  have hNone : ∀ t : Token, t.isComment = true →
      fieldName? t = none ∧ stringContent? t = none ∧ numberDigits? t = none := fun t ht => by
    cases t <;> first | exact ⟨rfl, rfl, rfl⟩ | cases ht
  rw [facts, facts, calledNames_of_sieve h]
  simp only [filterMap_sieve fun t ht => (hNone t ht).1, filterMap_sieve fun t ht => (hNone t ht).2.1,
    filterMap_sieve fun t ht => (hNone t ht).2.2, h]

theorem unsupportedCalls_of_sieve (t : Target) : unsupportedCalls t ls = unsupportedCalls t ls' := by
  rw [unsupportedCalls_eq, unsupportedCalls_eq, calledNames_of_sieve h]

theorem rowTally_of_sieve : rowTally ls = rowTally ls' := by
  have hSame : ∀ s : Token, s.isComment = false →
      ls.countP (fun l => l.token == s) = ls'.countP fun l => l.token == s := by
    intro s hs
    have hp : ∀ t : Token, t.isComment = true → (t == s) = false := by
      rintro t ht
      refine beq_eq_false_iff_ne.2 ?_
      rintro rfl
      rw [hs] at ht
      cases ht
    rw [countP_sieve hp, countP_sieve hp, h]
  rw [rowTally, rowTally, parenBalance, parenBalance, strayBrackets, strayBrackets, hSame _ rfl,
    hSame _ rfl, hSame _ rfl]

end Alike

/-! ## Verdicts -/

theorem separators_sieve {p : Token → Bool} (hp : ∀ t, t.isComment = true → p t = false)
    (depth : Nat) (ts : List Token) : separators p depth (sieve ts) = separators p depth ts := by
  have hBrackets := @brackets_of_isComment
  refine separators_filter_of (fun t h => ?_) (fun t h => ?_) (fun t h => ?_) depth ts
  all_goals
    cases hComment : t.isComment with
    | false => rfl
    | true => simp_all

/-- A text that does not begin with an equals sign is found to hold an assignment exactly if a
single equals sign stands outside all brackets. -/
theorem hasAssignment_eq {cs : List Char} (hFirst : ∀ l ∈ (tokenize cs).head?, l.token ≠ .equals) :
    hasAssignment cs =
      decide (separators (· == .equals) 0 ((tokenize cs).map Lexeme.token) ≠ 0) := by
  have hAll : ∀ i ∈ topLevelFrom (· == .equals) 0 0 (tokenize cs), 0 < i := by
    intro i hi
    cases hRow : tokenize cs with
    | nil => simp [hRow, topLevelFrom] at hi
    | cons l ls =>
      have hNot : (l.token == .equals) = false := beq_eq_false_iff_ne.2 (hFirst l (by rw [hRow]; rfl))
      rw [hRow, topLevelFrom, hNot] at hi
      have hLater : ∀ depth, i ∈ topLevelFrom (· == .equals) depth (0 + 1) ls → 0 < i :=
        fun depth h => (topLevelFrom_bounds h).1
      split at hi
      · exact hLater _ hi
      split at hi
      · exact hLater _ hi
      · exact hLater _ (by simpa using hi)
  rw [hasAssignment, ← length_topLevelFrom _ 0 0]
  cases hFound : topLevelFrom (· == .equals) 0 0 (tokenize cs) with
  | nil => rfl
  | cons i is => simp [hAll i (by rw [hFound]; exact List.mem_cons_self)]

/-- The verdict on a text whose references are closed goes by the tokens besides comments, if the
first of them is no equals sign. -/
theorem issues_of_sieve {cs cs' : List Char}
    (h : sieve ((tokenize cs).map Lexeme.token) = sieve ((tokenize cs').map Lexeme.token))
    (hFilled : sieve ((tokenize cs).map Lexeme.token) ≠ [])
    (hFirst : ∀ t ∈ (sieve ((tokenize cs).map Lexeme.token)).head?, t ≠ .equals)
    (hClosed : ClosesFields cs) (hClosed' : ClosesFields cs') : issues cs = issues cs' := by
  have hBlank : ∀ {cs}, sieve ((tokenize cs).map Lexeme.token) ≠ [] → allBlank cs = false := by
    intro cs hNe
    refine allBlank_of_tokenize fun hNone => hNe ?_
    rw [hNone]
    rfl
  have hStart : ∀ {cs}, (∀ t ∈ (sieve ((tokenize cs).map Lexeme.token)).head?, t ≠ .equals) →
      ∀ l ∈ (tokenize cs).head?, l.token ≠ .equals := by
    intro cs hHead l hl hEquals
    obtain ⟨rest, hRow⟩ := List.head?_eq_some_iff.1 hl
    refine hHead l.token ?_ hEquals
    rw [hRow, List.map_cons, sieve_cons_of_not_comment (by rw [hEquals]; rfl)]
    rfl
  have hp : ∀ t : Token, t.isComment = true → (t == Token.equals) = false := fun t ht => by
    cases t <;> first | rfl | cases ht
  have hAssignment : hasAssignment cs = hasAssignment cs' := by
    rw [hasAssignment_eq (hStart hFirst), hasAssignment_eq (hStart (h ▸ hFirst)),
      ← separators_sieve hp 0 ((tokenize cs).map Lexeme.token),
      ← separators_sieve hp 0 ((tokenize cs').map Lexeme.token), h]
  rw [issues, issues, hBlank hFilled, hBlank (h ▸ hFilled), tally_of_closed hClosed,
    tally_of_closed hClosed', rowTally_of_sieve h, hAssignment]

/-! ## The kind of an expression -/

structure BeginsNone (t : Token) : Prop where
  brace : (t == .lbrace) = false
  ifWord : t.isWord "IF" = false
  caseWord : t.isWord "CASE" = false

theorem beginsNone_of_isKeyword {name : List Char} (h : isKeyword name = false) :
    BeginsNone (.identifier name) := by
  have hWord : ∀ word : String, isKeyword word.toList = true →
      (Token.identifier name).isWord word = false := by
    intro word hKeyword
    refine beq_eq_false_iff_ne.2 ?_
    rintro hSame
    obtain rfl := Token.identifier.inj hSame
    rw [hKeyword] at h
    cases h
  exact ⟨rfl, hWord "IF" (by decide), hWord "CASE" (by decide)⟩

theorem beginsNone_of_isOperatorWord {s : Token} (h : s.isOperatorWord = true) : BeginsNone s := by
  have hWords : s = .identifier "AND".toList ∨ s = .identifier "OR".toList ∨ s = negationWord := by
    simpa [Token.isOperatorWord, Token.isConnective, or_assoc] using h
  rcases hWords with rfl | rfl | rfl <;> exact ⟨by decide, by decide, by decide⟩

theorem beginsNone_of_isComment {s : Token} (h : s.isComment = true) : BeginsNone s := by
  cases s <;> first | exact ⟨rfl, rfl, rfl⟩ | cases h

theorem beginsNone_of_endsOperand {s : Token} (h : s.endsOperand = true) : BeginsNone s := by
  cases s <;> first | exact ⟨rfl, rfl, rfl⟩ | cases h

theorem beginsNone_of_follows {s u : Token} (h : Follows none s u) : BeginsNone s := by
  cases h with
  | operator hEnd | connective hEnd | close hEnd => exact beginsNone_of_endsOperand hEnd
  | operand hOperator => cases s <;> first | exact ⟨rfl, rfl, rfl⟩ | cases hOperator
  | word hWord => exact beginsNone_of_isOperatorWord hWord
  | inner | empty => exact ⟨rfl, rfl, rfl⟩
  | name hName => exact beginsNone_of_isKeyword hName
  | member hMember => cases hMember

/-- An expression among comments holds neither level-of-detail blocks nor conditionals. -/
theorem constructs_of_readsAmid {ls : List Lexeme} {e : Expr} (hProper : e.IsProper)
    (h : ReadsAmid ls e) : lodBlocks ls = [] ∧ conditionals ls = [] := by
  have hAll : ∀ l ∈ ls, BeginsNone l.token := by
    intro l hl
    cases hComment : l.token.isComment with
    | true => exact beginsNone_of_isComment hComment
    | false =>
      refine (h.isRun hProper).forall_mem (fun _ _ => beginsNone_of_follows)
        (fun _ => beginsNone_of_endsOperand) l.token (List.mem_map_of_mem (List.mem_filter.2 ⟨hl, ?_⟩))
      simp [Lexeme.isComment, hComment]
  exact ⟨lodBlocks_eq_nil fun l hl => beq_eq_false_iff_ne.1 (hAll l hl).brace,
    conditionals_eq_nil fun l hl => ⟨(hAll l hl).ifWord, (hAll l hl).caseWord⟩⟩

/-- Formulas of one expression are of one kind. -/
theorem classify_of_readsAmid {ls ls' : List Lexeme} {e : Expr} (hProper : e.IsProper)
    (h : ReadsAmid ls e) (h' : ReadsAmid ls' e) : classify ls = classify ls' := by
  obtain ⟨hLods, hConditionals⟩ := constructs_of_readsAmid hProper h
  obtain ⟨hLods', hConditionals'⟩ := constructs_of_readsAmid hProper h'
  rw [classify, classify, hLods, hLods', hConditionals, hConditionals',
    calledNames_of_sieve (h.tokens.trans h'.tokens.symm)]
  rfl

/-! ## The first token of what is written -/

def Starts (ts : List Token) : Prop :=
  ∃ t rest, ts = t :: rest ∧ t.startsOperand = true

theorem Starts.append {ts : List Token} (h : Starts ts) (us : List Token) : Starts (ts ++ us) := by
  obtain ⟨t, rest, rfl, hStart⟩ := h
  exact ⟨t, rest ++ us, rfl, hStart⟩

/-- A quotient begins with the name of its call. -/
theorem Starts.combine {left : List Token} (h : Starts left) (sign : Token) (right : List Token) :
    Starts (combine left sign right) := by
  unfold Dax.combine
  split
  · exact ⟨_, _, rfl, rfl⟩
  · exact h.append _

section First

variable {table : Option Token} (hTable : ∀ s ∈ table, IsTable s)

include hTable

theorem starts_atom (a : Atom) : Starts (a.out table) := by
  cases a with
  | field name =>
    cases table with
    | none => exact ⟨_, _, rfl, rfl⟩
    | some s =>
      refine ⟨s, [.field name], rfl, ?_⟩
      cases hTable s rfl <;> rfl
  | _ => exact ⟨_, _, rfl, rfl⟩

theorem starts_operand (x : Operand) : Starts (x.cut table true).first := by
  cases x with
  | atom a => exact starts_atom hTable a
  | signed s x => exact ⟨s.token, _, rfl, by cases s <;> rfl⟩
  | power a x =>
    rw [Operand.cut]
    exact ((starts_atom hTable a).append _).append _

theorem starts_term (t : Term) : Starts ((t.out table).1 ++ (t.out table).2) := by
  cases t with
  | operand x =>
    rw [Term.out, Cut.after_append]
    exact (starts_operand hTable x).append _
  | product t op x =>
    have ih := starts_term t
    rw [Term.out, Cut.after_append]
    refine Starts.append ?_ _
    cases hDone : (t.out table).1 with
    | nil =>
      rw [hDone] at ih
      exact ih.combine _ _
    | cons s rest =>
      rw [hDone] at ih
      obtain ⟨u, _, hSame, hStart⟩ := ih
      obtain rfl : s = u := (List.cons.inj hSame).1
      exact ⟨s, _, rfl, hStart⟩

theorem starts_out (e : Expr) : Starts (e.out table) := by
  cases e with
  | term t => exact starts_term hTable t
  | negation e => exact ⟨negationWord, _, rfl, rfl⟩
  | loose t op e => exact (starts_term hTable t).append _

end First

/-! ## Formulas -/

variable {t : Target}

theorem attempt_standard {formula : List Char} (hFilled : tokenize formula ≠ [])
    (hKind : classify (tokenize formula) = .standard) :
    attempt t formula = .converted .standard (facts (tokenize formula))
      (standard t (tokenize formula))
      ((unsupportedCalls t (tokenize formula)).map .unsupported) := by
  rw [attempt, allBlank_of_tokenize hFilled, if_neg (by simp)]
  simp only [hKind]
  rfl

/-- Formulas of one expression are converted alike whatever comments stand at the edges of its
terms, and however its tokens are spaced. -/
theorem attempt_amid_comments (ht : t.IsReadable) {source source' : List Char} {e : Expr}
    (hProper : e.IsProper) (hReads : ReadsAmid (tokenize source) e)
    (hReads' : ReadsAmid (tokenize source') e) (hSetOff : (tokenize source).IsChain SetOff)
    (hSetOff' : (tokenize source').IsChain SetOff) {facts : Facts} {dax : List Char}
    {remarks : List Remark} (h : attempt t source = .converted .standard facts dax remarks) :
    ∃ dax', attempt t source' = .converted .standard facts dax' remarks ∧
      sieve ((tokenize dax').map Lexeme.token) = sieve ((tokenize dax).map Lexeme.token) ∧
      issues dax' = issues dax := by
  have hTable : ∀ s ∈ some t.tableToken, IsTable s := by simpa using ht.table
  have hSame := hReads.tokens.trans hReads'.tokens.symm
  have hFilled : ∀ {source}, ReadsAmid (tokenize source) e → tokenize source ≠ [] := by
    intro source hReads hNone
    have hTokens := hReads.tokens
    rw [hNone] at hTokens
    exact (e.isRun_tokens (by simp) hProper).filled hTokens.symm
  obtain ⟨hKind, -, -⟩ := run_of_attempt h
  have hKind' := (classify_of_readsAmid hProper hReads hReads').symm.trans hKind.symm
  rw [attempt_standard (hFilled hReads) hKind.symm] at h
  cases h
  refine ⟨standard t (tokenize source'), ?_, ?_⟩
  · rw [attempt_standard (hFilled hReads') hKind', facts_of_sieve hSame,
      unsupportedCalls_of_sieve hSame]
  obtain ⟨hTokens, hClosed⟩ := sieve_standard ht hProper hReads hSetOff
  obtain ⟨hTokens', hClosed'⟩ := sieve_standard ht hProper hReads' hSetOff'
  refine ⟨hTokens'.trans hTokens.symm, ?_⟩
  obtain ⟨s, rest, hOut, hStart⟩ := starts_out hTable (e.respelled t)
  rw [hOut] at hTokens hTokens'
  refine issues_of_sieve (hTokens'.trans hTokens.symm) (by simp [hTokens']) ?_
    (fun l hl _ => hClosed' l hl) fun l hl _ => hClosed l hl
  rw [hTokens']
  rintro u hu rfl
  obtain rfl : s = .equals := by simpa using hu
  cases hStart

/-! ## Blanks for comments -/

def blanked : List Lexeme → List Lexeme
  | [] => []
  | l :: ls => if l.isComment then indent (l.leading ++ [' ']) (blanked ls) else l :: blanked ls

theorem map_token_blanked (ls : List Lexeme) :
    (blanked ls).map Lexeme.token = sieve (ls.map Lexeme.token) := by
  induction ls with
  | nil => rfl
  | cons l ls ih =>
    rw [blanked, List.map_cons]
    cases hComment : l.isComment with
    | true => rw [if_pos rfl, map_token_indent, ih, sieve_cons_of_comment hComment]
    | false => rw [if_neg (by simp), List.map_cons, ih, sieve_cons_of_not_comment hComment]

theorem clear_indent {w : List Char} (hBlank : allBlank w = true) {ls : List Lexeme}
    (h : ∀ l ∈ ls, Clear l) : ∀ m ∈ indent w ls, Clear m := by
  cases ls with
  | nil => exact h
  | cons l ls =>
    obtain ⟨hFirst, hRest⟩ := List.forall_mem_cons.1 h
    refine List.forall_mem_cons.2 ⟨hFirst.with_leading ?_, hRest⟩
    have hLeading := hFirst.solid.blank
    simp only [allBlank, List.all_append, Bool.and_eq_true] at hBlank hLeading ⊢
    exact ⟨hBlank, hLeading⟩

theorem clear_blanked {ls : List Lexeme} (h : ∀ l ∈ ls, Clear l) : ∀ m ∈ blanked ls, Clear m := by
  induction ls with
  | nil => exact h
  | cons l ls ih =>
    obtain ⟨hFirst, hRest⟩ := List.forall_mem_cons.1 h
    rw [blanked]
    split
    · refine clear_indent ?_ (ih hRest)
      have hLeading := hFirst.solid.blank
      simp only [allBlank, List.all_append, Bool.and_eq_true] at hLeading ⊢
      exact ⟨hLeading, by decide⟩
    · exact List.forall_mem_cons.2 ⟨hFirst, ih hRest⟩

theorem head_blanked (ls : List Lexeme) :
    ∀ m ∈ (blanked ls).head?, m ∈ ls.head? ∨ m.isAttached = false := by
  intro m hm
  cases ls with
  | nil => cases hm
  | cons l ls =>
    rw [blanked] at hm
    split at hm
    · refine .inr ?_
      cases hRow : blanked ls with
      | nil =>
        rw [hRow] at hm
        cases hm
      | cons k ks =>
        rw [hRow] at hm
        obtain rfl := Option.some.inj hm
        simp [Lexeme.isAttached]
    · exact .inl hm

/-- A blank sets off no less than the comment does. -/
theorem isChain_setOff_blanked {ls : List Lexeme} (h : ls.IsChain SetOff) :
    (blanked ls).IsChain SetOff := by
  induction ls with
  | nil => exact .nil
  | cons l ls ih =>
    obtain ⟨hFirst, hRest⟩ := List.isChain_cons.1 h
    rw [blanked]
    split
    · cases hRow : blanked ls with
      | nil => exact .nil
      | cons k ks =>
        obtain ⟨hNext, hLast⟩ := List.isChain_cons.1 (hRow ▸ ih hRest)
        exact List.isChain_cons.2 ⟨fun m hm => ⟨(hNext m hm).keyword, (hNext m hm).connective⟩, hLast⟩
    · refine List.isChain_cons.2 ⟨fun m hm => ?_, ih hRest⟩
      rcases head_blanked ls m hm with hm | hAway
      · exact hFirst m hm
      · exact ⟨fun _ => hAway, fun _ => hAway⟩

section Blanked

variable {source : List Char} {e : Expr} (hProper : e.IsProper)
  (hReads : ReadsAmid (tokenize source) e) (hSetOff : (tokenize source).IsChain SetOff)

include hProper hReads hSetOff

theorem readsAmid_blanked : ReadsAmid (blanked (tokenize source)) e :=
  readsAmid_of_reads hProper
    ⟨(map_token_blanked _).trans hReads.tokens,
      fun m hm => (clear_blanked (isWritten_tokenize hProper hReads hSetOff).clear m hm).terminated⟩

/-- The text is read with blanks where the comments stood. -/
theorem tokenize_blanked :
    tokenize (written (blanked (tokenize source))) = blanked (tokenize source) := by
  have hClear := clear_blanked (isWritten_tokenize hProper hReads hSetOff).clear
  have hBlanked := readsAmid_blanked hProper hReads hSetOff
  have hSits := @isChain_sits none (by simp) _
    ((List.isChain_map _).1 (hBlanked.isRun hProper).chain) (isChain_setOff_blanked hSetOff)
    hBlanked.edges fun m hm => (hClear m hm).whole
  exact tokenize_written ⟨fun m hm => (hClear m hm).whole, fun m hm => (hClear m hm).solid.blank,
    hSits.imp fun _ _ h => h.fits⟩

example : written (blanked (tokenize "[x] /* a */ + 1".toList)) = "[x]   + 1".toList := by
  decide +kernel

/-- A formula is converted as the formula with a blank in the place of every comment. -/
theorem attempt_blanked (ht : t.IsReadable) {facts : Facts} {dax : List Char}
    {remarks : List Remark} (h : attempt t source = .converted .standard facts dax remarks) :
    ∃ dax', attempt t (written (blanked (tokenize source))) =
        .converted .standard facts dax' remarks ∧
      sieve ((tokenize dax').map Lexeme.token) = sieve ((tokenize dax).map Lexeme.token) ∧
      issues dax' = issues dax := by
  have hRow := tokenize_blanked hProper hReads hSetOff
  exact attempt_amid_comments ht hProper hReads (hRow.symm ▸ readsAmid_blanked hProper hReads hSetOff)
    hSetOff (hRow.symm ▸ isChain_setOff_blanked hSetOff) h

end Blanked

end DaxMigration.Dax
