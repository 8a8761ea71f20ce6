import DaxMigration.Proofs.Dax.Spelling
import DaxMigration.Proofs.Formula.Parts
import DaxMigration.Dax.Splice

/-!
# Generated calls

The text of a function applied to arguments, read back: the call spans everything, and its arguments
are what the texts of the arguments are read as on their own. An argument may be empty.
-/

namespace DaxMigration.Dax

open Formula Text

structure IsEvenText (text : List Char) : Prop where
  settled : Settled text
  balanced : level 0 (Mode.code.delimiters text) = some 0

structure IsArgumentText (text : List Char) : Prop where
  settled : Settled text
  balanced : level 0 (Mode.code.delimiters text) = some 0
  unparted : separators (· == .comma) 0 (Mode.code.delimiters text) = 0

theorem IsArgumentText.even {text : List Char} (h : IsArgumentText text) : IsEvenText text :=
  ⟨h.settled, h.balanced⟩

theorem head_tokenize_of_settled {text : List Char} (h : Settled text) :
    ∃ l ls, tokenize text = l :: ls ∧ l.isComment = false := by
  obtain ⟨c, rest, rfl⟩ := List.exists_cons_of_ne_nil h.filled
  have hBlank : isBlank c = false := h.head c rfl
  have hDrop : (c :: rest).dropWhile isBlank = c :: rest := by simp [hBlank]
  refine ⟨_, _, tokenize_of_cons hDrop, ?_⟩
  have hForm := Scan.form_scan c rest
  have hQuiet := h.quiet
  rw [Lexeme.isComment]
  generalize Scan.scan c rest = s at hForm
  cases hForm with
  | sign hSign => unfold Scan.signToken? at hSign; split at hSign <;> cases hSign <;> rfl
  | pair hPair => cases Scan.isPair_of_pairToken hPair <;> rfl
  | line => cases hQuiet
  | block => cases hQuiet
  | literal hLiteral => cases hLiteral <;> rfl
  | number => rfl
  | name =>
    simp only [Scan.name, nameToken]
    split
    · rfl
    split <;> rfl
  | unknown => rfl

theorem isSlot_tokenize {text : List Char} (h : text = [] ∨ IsArgumentText text) :
    IsSlot (tokenize text) := by
  rcases h with rfl | h
  · rw [tokenize_nil]
    exact isSlot_nil
  constructor
  · rw [Formula.Balanced, ← level_filter, ← Mode.delimiters_eq_filter]
    exact h.balanced
  · rw [← separators_filter, ← Mode.delimiters_eq_filter]
    · exact h.unparted
    · intro t ht
      rw [eq_of_beq ht]
      rfl

theorem isSlot_indent {ls : List Lexeme} (h : IsSlot ls) (w : List Char) : IsSlot (indent w ls) := by
  constructor
  · rw [Formula.Balanced, map_token_indent]
    exact h.balanced
  · rw [map_token_indent]
    exact h.unparted

theorem commaSeparated_cons (a b : List Char) (rest : List (List Char)) :
    commaSeparated (a :: b :: rest) = a ++ ',' :: ' ' :: commaSeparated (b :: rest) := by
  simp [commaSeparated, List.intercalate]

def argumentRows : List (List Char) → List (List Lexeme)
  | [] => []
  | text :: rest => tokenize text :: rest.map fun u => indent [' '] (tokenize u)

theorem isSlot_argumentRows {texts : List (List Char)}
    (h : ∀ u ∈ texts, u = [] ∨ IsArgumentText u) : ∀ r ∈ argumentRows texts, IsSlot r := by
  cases texts with
  | nil => simp [argumentRows]
  | cons text rest =>
    intro r hr
    rcases List.mem_cons.1 hr with rfl | hr
    · exact isSlot_tokenize (h text List.mem_cons_self)
    · obtain ⟨u, hu, rfl⟩ := List.mem_map.1 hr
      exact isSlot_indent (isSlot_tokenize (h u (List.mem_cons_of_mem _ hu))) [' ']

theorem mem_argumentRows {texts : List (List Char)} {text : List Char} (h : text ∈ texts) {l : Lexeme}
    (hl : l ∈ tokenize text) : ∃ row ∈ argumentRows texts, ∃ m ∈ row, m.token = l.token := by
  cases texts with
  | nil => cases h
  | cons first rest =>
    rcases List.mem_cons.1 h with rfl | h
    · exact ⟨_, List.mem_cons_self, l, hl, rfl⟩
    · refine ⟨indent [' '] (tokenize text), List.mem_cons_of_mem _ (List.mem_map_of_mem h), ?_⟩
      have hMem := List.mem_map_of_mem (f := Lexeme.token) hl
      rw [← map_token_indent [' ']] at hMem
      exact List.mem_map.1 hMem

theorem tokenize_separator {c : Char} {t : Token} (hBlank : isBlank c = false)
    (hScan : ∀ rest, Scan.scan c rest = ⟨⟨[], rest⟩, t⟩) (cs : List Char) :
    tokenize (c :: cs) = ⟨t, [c], []⟩ :: tokenize cs := by
  have hDrop : (c :: cs).dropWhile isBlank = c :: cs := by simp [hBlank]
  rw [tokenize_of_cons hDrop, hScan]
  simp [hBlank]

theorem listed_indent {row body : List Lexeme} {rows : List (List Lexeme)} (w : List Char)
    (h : Listed (row :: rows) body) : Listed (indent w row :: rows) (indent w body) := by
  cases h with
  | single => exact .single _
  | more _ hComma hRest =>
    cases row with
    | nil => exact .more [] hComma hRest
    | cons l row => exact .more _ hComma hRest

theorem indent_snoc (w : List Char) (body : List Lexeme) (l : Lexeme) :
    ∃ leading, indent w (body ++ [l]) = indent w body ++ [{ l with leading := leading }] := by
  cases body with
  | nil => exact ⟨_, rfl⟩
  | cons m body => exact ⟨l.leading, rfl⟩

theorem tokenize_append_slot {text b : List Char} (h : text = [] ∨ IsArgumentText text)
    (hParted : Scan.Parted b) : tokenize (text ++ b) = tokenize text ++ tokenize b := by
  rcases h with rfl | h
  · rw [tokenize_nil]
    rfl
  · exact tokenize_append h.settled.calm h.settled.last hParted

/-- Between the brackets of a generated call stand the rows of the arguments. -/
theorem tokenize_commaSeparated {texts : List (List Char)} (hFilled : texts ≠ [])
    (h : ∀ u ∈ texts, u = [] ∨ IsArgumentText u) :
    ∃ inner leading, tokenize (commaSeparated texts ++ [')']) = inner ++ [⟨.rparen, [')'], leading⟩] ∧
      Listed (argumentRows texts) inner := by
  induction texts with
  | nil => exact absurd rfl hFilled
  | cons text rest ih =>
    obtain ⟨hText, hRest⟩ := List.forall_mem_cons.1 h
    cases rest with
    | nil =>
      have hAlone : commaSeparated [text] = text := by simp [commaSeparated, List.intercalate]
      refine ⟨tokenize text, [], ?_, .single _⟩
      rw [hAlone, tokenize_append_slot hText (Scan.parted_cons (by decide) _),
        tokenize_separator (by decide) (fun _ => rfl), tokenize_nil]
    | cons second rest =>
      obtain ⟨inner, leading, hInner, hListed⟩ := ih (by simp) hRest
      obtain ⟨leading', hIndent⟩ := indent_snoc [' '] inner ⟨.rparen, [')'], leading⟩
      have hSpace := tokenize_blank_append (w := [' ']) (by decide)
        (commaSeparated (second :: rest) ++ [')'])
      refine ⟨tokenize text ++ ⟨.comma, [','], []⟩ :: indent [' '] inner, leading', ?_, ?_⟩
      · rw [commaSeparated_cons, List.append_assoc, List.cons_append, List.cons_append,
          tokenize_append_slot hText (Scan.parted_cons (by decide) _),
          tokenize_separator (by decide) (fun _ => rfl)]
        rw [List.singleton_append] at hSpace
        rw [hSpace, hInner, hIndent]
        simp
      · exact .more _ rfl (listed_indent [' '] hListed)

structure IsFunctionName (name : String) : Prop where
  plain : ∀ c ∈ name.toList, isNameCharacter c = true
  read : tokenize name.toList = [⟨.identifier name.toList, name.toList, []⟩]

theorem IsFunctionName.settled {name : String} (h : IsFunctionName name) : Settled name.toList := by
  refine settled_of_plain (fun c hc => Mode.isPlain_of_isNameCharacter (h.plain c hc)) ?_
    fun c hc => isBlank_of_isNameCharacter (h.plain c hc)
  intro hEmpty
  have hRead := h.read
  rw [hEmpty, tokenize_nil] at hRead
  cases hRead

/-- A generated call is read as a call of the function with its arguments. -/
theorem parseCall_callText {name : String} (hName : IsFunctionName name)
    {texts : List (List Char)} (hFilled : ∃ u ∈ texts, u ≠ [])
    (h : ∀ u ∈ texts, u = [] ∨ IsArgumentText u) (w : List Char) :
    ∃ args, parseCall (indent w (tokenize (callText name texts))) 0 =
        .ok ⟨⟨0, (indent w (tokenize (callText name texts))).length⟩, name.toList, args⟩ ∧
      args.map (·.slice (indent w (tokenize (callText name texts)))) = argumentRows texts := by
  obtain ⟨text, hText, hNotEmpty⟩ := hFilled
  obtain ⟨inner, leading, hInner, hListed⟩ :=
    tokenize_commaSeparated (List.ne_nil_of_mem hText) h
  have hSlots := isSlot_argumentRows h
  let r : CallRun := ⟨⟨.identifier name.toList, name.toList, w⟩, ⟨.lparen, ['('], []⟩, inner,
    ⟨.rparen, [')'], leading⟩⟩
  have hRow : indent w (tokenize (callText name texts)) = r.lexemes := by
    have hSettled := hName.settled
    rw [callText, List.append_assoc, List.cons_append, tokenize_append hSettled.calm hSettled.last
      (Scan.parted_cons (by decide) _), hName.read,
      tokenize_separator (by decide) (fun _ => rfl), hInner]
    simp [r, CallRun.lexemes, indent]
  have hLexeme : ∃ l ∈ inner, l.isComment = false := by
    obtain ⟨l, ls, hCons, hComment⟩ :=
      head_tokenize_of_settled ((h text hText).resolve_left hNotEmpty).settled
    obtain ⟨row, hRow, m, hm, hToken⟩ := mem_argumentRows hText (by rw [hCons]; exact List.mem_cons_self)
    refine ⟨m, hListed.mem hRow hm, ?_⟩
    rw [Lexeme.isComment, hToken]
    exact hComment
  rw [hRow]
  have hCall : r.IsCall name.toList := ⟨rfl, rfl, hListed.balanced hSlots, rfl⟩
  simpa using @parseCall_of_run r.lexemes [] 0 r name.toList hCall _ hListed hSlots hLexeme (by simp)

/-- An argument that is even or empty, in front of a bracket or a comma inside the call. -/
theorem argument_spec {text : List Char} (h : text = [] ∨ IsEvenText text) {c : Char}
    (hGentle : gentle c = true) (cs : List Char) :
    Mode.code.after (text ++ c :: cs) = Mode.code.after (c :: cs) ∧
      level 1 (Mode.code.delimiters (text ++ c :: cs)) = level 1 (Mode.code.delimiters (c :: cs)) ∧
      separators (· == .comma) 1 (Mode.code.delimiters (text ++ c :: cs)) =
        separators (· == .comma) 1 (Mode.code.delimiters (c :: cs)) := by
  rcases h with rfl | h
  · exact ⟨rfl, rfl, rfl⟩
  have hResumes : (Mode.code.after text).Resumes (c :: cs) :=
    resumes_of_gentle h.settled.calm (by simpa using hGentle)
  have hLevel : level 1 (Mode.code.delimiters text) = some 1 := level_add h.balanced 1
  rw [Mode.after_append, hResumes.after_eq (by simp), Mode.delimiters_append,
    hResumes.delimiters_eq, level_append, hLevel, separators_append hLevel,
    separators_deep h.balanced, Nat.zero_add]
  exact ⟨rfl, rfl, rfl⟩

/-- Between the brackets of a generated call nothing stays open, and no comma stands outside. -/
theorem arguments_spec {texts : List (List Char)} (h : ∀ u ∈ texts, u = [] ∨ IsEvenText u) :
    Mode.code.after (commaSeparated texts ++ [')']) = .code ∧
      level 1 (Mode.code.delimiters (commaSeparated texts ++ [')'])) = some 0 ∧
      separators (· == .comma) 1 (Mode.code.delimiters (commaSeparated texts ++ [')'])) = 0 := by
  induction texts with
  | nil => exact ⟨rfl, rfl, rfl⟩
  | cons text rest ih =>
    obtain ⟨hText, hRest⟩ := List.forall_mem_cons.1 h
    cases rest with
    | nil =>
      have hAlone : commaSeparated [text] = text := by simp [commaSeparated, List.intercalate]
      obtain ⟨hAfter, hLevel, hDeep⟩ := argument_spec hText (c := ')') (by decide) []
      rw [hAlone, hAfter, hLevel, hDeep]
      exact ⟨rfl, rfl, rfl⟩
    | cons second rest =>
      obtain ⟨hAfter, hLevel, hDeep⟩ := argument_spec hText (c := ',') (by decide)
        (' ' :: (commaSeparated (second :: rest) ++ [')']))
      rw [commaSeparated_cons, List.append_assoc, List.cons_append, List.cons_append, hAfter, hLevel,
        hDeep]
      exact ih hRest

/-- A generated call is an argument itself. -/
theorem isArgumentText_callText {name : String} (hName : IsFunctionName name)
    {texts : List (List Char)} (h : ∀ u ∈ texts, u = [] ∨ IsEvenText u) :
    IsArgumentText (callText name texts) := by
  obtain ⟨hAfter, hLevel, hDeep⟩ := arguments_spec h
  have hPlain : ∀ c ∈ name.toList, Mode.IsPlain c :=
    fun c hc => Mode.isPlain_of_isNameCharacter (hName.plain c hc)
  have hDelimiters : Mode.code.delimiters (callText name texts) =
      .lparen :: Mode.code.delimiters (commaSeparated texts ++ [')']) := by
    rw [callText, List.append_assoc, List.cons_append, Mode.delimiters_append,
      Mode.delimiters_of_plain hPlain, Mode.after_of_plain hPlain]
    rfl
  refine ⟨?_, ?_, ?_⟩
  · have hParen : Settled ('(' :: (commaSeparated texts ++ [')'])) := by
      refine ⟨?_, rfl, by simp, by simp; decide, ?_⟩
      · rw [Mode.after_cons]
        exact (congrArg Mode.isCalm hAfter).trans rfl
      · intro c hc
        rw [← List.cons_append, List.getLast?_append] at hc
        obtain rfl : ')' = c := by simpa using hc
        decide
    rw [callText, List.append_assoc]
    refine settled_append hName.settled hParen ?_
    rw [Mode.after_of_plain hPlain]
    exact Mode.resumes_code _
  · rw [hDelimiters]
    exact hLevel
  · rw [hDelimiters]
    exact hDeep

end DaxMigration.Dax
