import DaxMigration.Proofs.Dax.Exhaustive

/-!
# How deep blocks may nest

A formula without other constructs is given up exactly when some chain of level-of-detail blocks, each
inside the one before it, is as long as the number of levels. Every text that is spliced takes a level,
and the expression of the innermost block is a text too; so the longest chain that is converted is one
shorter than that number. Blocks beside one another do not add up.
-/

namespace DaxMigration.Dax

open Formula Text

variable {t : Target}

/-- So many blocks stand in the row inside one another. -/
inductive Nests : (levels : Nat) → List Lexeme → Prop
  | none (ls : List Lexeme) : Nests 0 ls
  | inside {levels : Nat} {ls : List Lexeme} {b : LodBlock} (hBlock : b ∈ lodBlocks ls)
      (hInner : Nests levels (b.inner.slice ls)) : Nests (levels + 1) ls

structure BeginsBlocksOnly (l : Lexeme) : Prop where
  ifWord : l.token.isWord "IF" = false
  caseWord : l.token.isWord "CASE" = false
  tableCalc : ∀ name, l.token = .identifier name → Formula.TableCalc.ofName? name = none

theorem beginsBlocksOnly_of_not_name {l : Lexeme} (h : ∀ name, l.token ≠ .identifier name) :
    BeginsBlocksOnly l := by
  have hWord : ∀ w, l.token.isWord w = false := by
    intro w
    rw [Formula.Token.isWord, beq_eq_false_iff_ne]
    exact h w.toList
  refine ⟨hWord "IF", hWord "CASE", ?_⟩
  intro name hName
  exact absurd hName (h name)

theorem beginsBlocksOnly_verbatim (text leading : List Char) :
    BeginsBlocksOnly (Lexeme.verbatim text leading) :=
  beginsBlocksOnly_of_not_name (by simp [Lexeme.verbatim])

variable {ls : List Lexeme}

theorem conditionals_eq_nil_of_blocksOnly (hAll : ∀ l ∈ ls, BeginsBlocksOnly l) : conditionals ls = [] := by
  apply conditionals_eq_nil
  intro l hl
  exact ⟨(hAll l hl).ifWord, (hAll l hl).caseWord⟩

theorem ofName_eq_none_of_blocksOnly (hAll : ∀ l ∈ ls, BeginsBlocksOnly l) :
    ∀ name ∈ calledNames ls, Formula.TableCalc.ofName? name = none := by
  intro name hName
  obtain ⟨l, hl, hToken⟩ := exists_of_mem_calledNames hName
  exact (hAll l hl).tableCalc name hToken

/-! ## Splicing -/

theorem Returns.gives {β : Type} {m : Splicing β} {b : β} (h : Returns m b) : Gives m b :=
  h.gives_iff.2 rfl

theorem exists_returns_mapM {β γ : Type} {f : β → Splicing γ} {bs : List β}
    (h : ∀ b ∈ bs, ∃ c, Returns (f b) c) : ∃ cs, Returns (bs.mapM f) cs := by
  induction bs with
  | nil => exact ⟨[], by rw [List.mapM_nil]; exact returns_pure []⟩
  | cons b bs ih =>
    obtain ⟨⟨c, hFirst⟩, hRest⟩ := List.forall_mem_cons.1 h
    obtain ⟨cs, hOthers⟩ := ih hRest
    refine ⟨c :: cs, ?_⟩
    rw [List.mapM_cons]
    exact hFirst.bind (hOthers.bind (returns_pure _))

theorem Gives.exists_of_mapM {β γ : Type} {f : β → Splicing γ} {bs : List β} {cs : List γ} {b : β}
    (h : Gives (bs.mapM f) cs) (hb : b ∈ bs) : ∃ c, Gives (f b) c := by
  have hEach := h.of_mapM
  clear h
  induction hEach with
  | nil => cases hb
  | cons hFirst _ ih =>
    rcases List.mem_cons.1 hb with rfl | hb
    · exact ⟨_, hFirst⟩
    · exact ih hb

/-- Blocks that stand in one another as often as levels may be entered are not spliced. -/
theorem not_gives_of_nests {room : Nat} (h : Nests room ls) (ls' : List Lexeme) :
    ¬Gives (spliceLods t room ls) ls' := by
  induction h generalizing ls' with
  | none ls => exact not_gives_failure ls'
  | @inside room ls b hBlock _ ih =>
    intro hGives
    rw [spliceLods_succ] at hGives
    obtain ⟨made, hMade, -⟩ := hGives.of_bind
    obtain ⟨r, hConverted⟩ := hMade.exists_of_mapM hBlock
    obtain ⟨inner, hInner, -⟩ := hConverted.of_bind
    obtain ⟨spliced, hSpliced, -⟩ := hInner.of_bind
    exact ih spliced hSpliced

theorem blocksOnly_slice (hAll : ∀ l ∈ ls, BeginsBlocksOnly l) (s : Span) :
    ∀ l ∈ s.slice ls, BeginsBlocksOnly l := by
  intro l hl
  exact hAll l (List.mem_of_mem_take (List.mem_of_mem_drop hl))

theorem blocksOnly_spliceLods {room : Nat} {ls' : List Lexeme} (hAll : ∀ l ∈ ls, BeginsBlocksOnly l)
    (h : Gives (spliceLods t (room + 1) ls) ls') : ∀ l ∈ ls', BeginsBlocksOnly l := by
  refine (replaced_spliceLods h).all ?_ hAll
  rintro run made ⟨-, -, -⟩ - l hl
  rw [List.mem_singleton.1 hl]
  exact beginsBlocksOnly_verbatim _ _

theorem returns_convertArgument {room : Nat} (hAll : ∀ l ∈ ls, BeginsBlocksOnly l) :
    Returns (convertArgument t (room + 1) ls) (standard t ls) := by
  have hNone : (tableSplicer t room).constructs ls = [] :=
    constructs_tableSplicer_eq_nil (ofName_eq_none_of_blocksOnly hAll)
  rw [convertArgument, spliceTableCalcs_succ]
  exact (Splicer.returns_splice_of_none hNone).bind (returns_standardRemarked t ls)

/-- Once its blocks are spliced, nothing in a row is left to replace. -/
theorem exists_returns_convertInner {room : Nat} {ls' : List Lexeme}
    (hAll : ∀ l ∈ ls, BeginsBlocksOnly l) (hSpliced : Returns (spliceLods t (room + 1) ls) ls') :
    ∃ text, Returns (convertInner t (room + 1) ls) text := by
  have hMade := blocksOnly_spliceLods hAll hSpliced.gives
  have hNone := conditionals_eq_nil_of_blocksOnly hMade
  exact ⟨_, hSpliced.bind ((returns_spliceConditionals_of_none hNone).bind (returns_convertArgument hMade))⟩

/-- Where no chain is that long, the blocks are spliced: by induction on the levels left, as the expression
of every block has chains that are shorter by one at least. -/
theorem exists_returns_spliceLods {room : Nat} (hAll : ∀ l ∈ ls, BeginsBlocksOnly l)
    (hShallow : ¬Nests room ls) : ∃ ls', Returns (spliceLods t room ls) ls' := by
  induction room generalizing ls with
  | zero => exact absurd (.none ls) hShallow
  | succ room ih =>
    suffices hEach : ∀ b ∈ lodBlocks ls, ∃ r, Returns ((lodSplicer t room).convert ls b) r by
      obtain ⟨made, hMade⟩ := exists_returns_mapM hEach
      rw [spliceLods_succ]
      exact ⟨_, hMade.bind (returns_pure _)⟩
    intro b hBlock
    have hInnerAll := blocksOnly_slice hAll b.inner
    have hInner : ¬Nests room (b.inner.slice ls) := by
      intro hDeep
      exact hShallow (.inside hBlock hDeep)
    obtain ⟨spliced, hSpliced⟩ := ih hInnerAll hInner
    cases room with
    | zero => exact absurd (.none _) hInner
    | succ room =>
      obtain ⟨text, hText⟩ := exists_returns_convertInner hInnerAll hSpliced
      exact ⟨_, hText.bind ((returns_convertLod t ls text b).bind (returns_pure _))⟩

/-! ## Formulas -/

theorem Returns.run_ne_none {β : Type} {m : Splicing β} {b : β} (h : Returns m b)
    (remarks : List Remark) : m.run remarks ≠ none := by
  obtain ⟨more, hMore⟩ := h remarks
  rw [hMore]
  exact Option.some_ne_none _

theorem run_eq_none_of_not_gives {β : Type} {m : Splicing β} (h : ∀ b, ¬Gives m b)
    (remarks : List Remark) : m.run remarks = none := by
  cases hRun : m.run remarks with
  | none => rfl
  | some result => exact absurd ⟨remarks, result.2, hRun⟩ (h result.1)

/-- A kind without blocks has all levels to spare. -/
theorem exists_returns_daxText (hAll : ∀ l ∈ ls, BeginsBlocksOnly l) (hShallow : ¬Nests maxNesting ls) :
    ∃ text, Returns (daxText t (classify ls) ls) text := by
  cases hKind : classify ls with
  | standard => exact ⟨_, returns_standardRemarked t ls⟩
  | conditional form =>
    exact absurd hKind (not_conditional_of_none (conditionals_eq_nil_of_blocksOnly hAll) form)
  | tableCalc function => exact ⟨_, returns_convertArgument hAll⟩
  | lod keyword dimensions inner =>
    obtain ⟨spliced, hSpliced⟩ := exists_returns_spliceLods hAll hShallow
    exact exists_returns_convertInner hAll hSpliced

theorem not_gives_daxText_of_nests (hDeep : Nests maxNesting ls) (text : List Char) :
    ¬Gives (daxText t (classify ls) ls) text := by
  intro hGives
  obtain ⟨b, hBlock⟩ : ∃ b, b ∈ lodBlocks ls := by
    cases hDeep with
    | inside hBlock _ => exact ⟨_, hBlock⟩
  obtain ⟨first, rest, hBlocks⟩ := List.exists_cons_of_ne_nil (List.ne_nil_of_mem hBlock)
  rw [classify, hBlocks] at hGives
  obtain ⟨spliced, hSpliced, -⟩ := Gives.of_bind hGives
  exact not_gives_of_nests hDeep spliced hSpliced

theorem attempt_eq_tooDeep_iff {formula : List Char} :
    attempt t formula = .tooDeep ↔ allBlank formula = false ∧
      (daxText t (classify (tokenize formula)) (tokenize formula)).run [] = none := by
  unfold attempt
  split
  · simp_all
  · simp only
    split <;> simp_all

theorem not_nests_of_allBlank {formula : List Char} (h : allBlank formula = true) (levels : Nat) :
    ¬Nests (levels + 1) (tokenize formula) := by
  have hNone : tokenize formula = [] := by
    apply tokenize_of_blank
    rw [List.dropWhile_eq_nil_iff]
    exact List.all_eq_true.1 h
  rw [hNone]
  intro hDeep
  cases hDeep with
  | inside hBlock _ => cases hBlock

/-- A formula without conditionals and table calculations is given up exactly when as many blocks stand in
one another as there are levels; a chain that is shorter by one is converted, whatever stands beside it. -/
theorem attempt_tooDeep_iff_nests {formula : List Char}
    (hAll : ∀ l ∈ tokenize formula, BeginsBlocksOnly l) :
    attempt t formula = .tooDeep ↔ Nests maxNesting (tokenize formula) := by
  rw [attempt_eq_tooDeep_iff]
  constructor
  · rintro ⟨-, hFailed⟩
    by_contra hShallow
    obtain ⟨text, hText⟩ := exists_returns_daxText (t := t) hAll hShallow
    exact hText.run_ne_none [] hFailed
  · intro hDeep
    refine ⟨?_, run_eq_none_of_not_gives (not_gives_daxText_of_nests hDeep) []⟩
    by_contra hBlank
    exact not_nests_of_allBlank (by simpa using hBlank) 63 hDeep

/-! ## Bare blocks -/

def braced : Nat → List Char
  | 0 => "[a]".toList
  | levels + 1 => '\x7b' :: (braced levels ++ ['\x7d'])

def bracedRow : Nat → List Lexeme
  | 0 => [⟨.field ['a'], "[a]".toList, []⟩]
  | levels + 1 => ⟨.lbrace, ['\x7b'], []⟩ :: (bracedRow levels ++ [⟨.rbrace, ['\x7d'], []⟩])

theorem tokenize_braced (levels : Nat) {rest : List Char} (hRest : ∀ c ∈ rest.head?, c ≠ ']') :
    tokenize (braced levels ++ rest) = bracedRow levels ++ tokenize rest := by
  induction levels generalizing rest with
  | zero =>
    have hScan : Scan.scan '[' ('a' :: ']' :: rest) = ⟨⟨['a', ']'], rest⟩, .field ['a']⟩ := by
      cases rest with
      | nil => rfl
      | cons d rest =>
        have hNext : d ≠ ']' := hRest d rfl
        simp [Scan.scan, Scan.literal, readLiteral, hNext, Taken.push]
    have hRead := @tokenize_of_cons (braced 0 ++ rest) '[' ('a' :: ']' :: rest) rfl
    rw [hScan] at hRead
    exact hRead
  | succ levels ih =>
    have hClosing : tokenize ('\x7d' :: rest) = [⟨.rbrace, ['\x7d'], []⟩] ++ tokenize rest :=
      @tokenize_of_cons ('\x7d' :: rest) '\x7d' rest rfl
    have hOpening : tokenize (braced (levels + 1) ++ rest) =
        ⟨.lbrace, ['\x7b'], []⟩ :: tokenize (braced levels ++ ['\x7d'] ++ rest) :=
      @tokenize_of_cons (braced (levels + 1) ++ rest) '\x7b' (braced levels ++ ['\x7d'] ++ rest) rfl
    rw [hOpening, List.append_assoc, List.singleton_append, ih (by simp), hClosing]
    simp [bracedRow]

theorem balanced_bracedRow (levels : Nat) : Balanced (bracedRow levels) := by
  induction levels with
  | zero => decide
  | succ levels ih => exact (isSlot_bracketed rfl rfl ih).balanced

theorem separators_bracedRow (levels : Nat) :
    separators (· == .colon) 0 ((bracedRow levels).map Lexeme.token) = 0 := by
  cases levels with
  | zero => decide
  | succ levels => exact separators_bracketed rfl rfl (balanced_bracedRow levels)

/-- One more pair of curly brackets is one more block around all others. -/
theorem lodBlocks_bracedRow (levels : Nat) :
    ∃ b, lodBlocks (bracedRow (levels + 1)) = [b] ∧ b.inner.slice (bracedRow (levels + 1)) =
      bracedRow levels := by
  let r : BlockRun := ⟨⟨.lbrace, ['\x7b'], []⟩, [], bracedRow levels, ⟨.rbrace, ['\x7d'], []⟩⟩
  have hBlock : r.IsBlock :=
    ⟨rfl, .inl ⟨rfl, separators_bracedRow levels⟩, balanced_bracedRow levels, rfl⟩
  have hFilled : ∃ l ∈ r.inner, l.isComment = false := by
    cases levels <;> exact ⟨_, List.mem_cons_self, rfl⟩
  have hAt : (bracedRow (levels + 1)).drop 0 = r.lexemes ++ [] := by
    rw [List.append_nil]
    rfl
  obtain ⟨b, hFound, hSpan, hInner⟩ := exists_lodAt hBlock hFilled hAt
  refine ⟨b, outermost_of_whole hFound ?_ (by simp [bracedRow]), hInner⟩
  rw [hSpan]
  simp [bracedRow, r]

theorem nests_bracedRow_iff {levels depth : Nat} : Nests depth (bracedRow levels) ↔ depth ≤ levels := by
  induction depth generalizing levels with
  | zero => exact ⟨fun _ => Nat.zero_le levels, fun _ => .none _⟩
  | succ depth ih =>
    cases levels with
    | zero =>
      constructor
      · intro hDeep
        cases hDeep with
        | inside hBlock _ => cases hBlock
      · intro h
        cases h
    | succ levels =>
      obtain ⟨b, hBlocks, hInner⟩ := lodBlocks_bracedRow levels
      rw [Nat.add_le_add_iff_right, ← ih, ← hInner]
      constructor
      · intro hDeep
        cases hDeep with
        | inside hBlock hRest =>
          rw [hBlocks] at hBlock
          rwa [List.mem_singleton.1 hBlock] at hRest
      · intro hRest
        exact .inside (by simp [hBlocks]) hRest

theorem blocksOnly_bracedRow (levels : Nat) : ∀ l ∈ bracedRow levels, BeginsBlocksOnly l := by
  induction levels with
  | zero =>
    intro l hl
    rw [List.mem_singleton.1 hl]
    exact beginsBlocksOnly_of_not_name (by simp)
  | succ levels ih =>
    intro l hl
    simp only [bracedRow, List.mem_cons, List.mem_append, List.not_mem_nil, or_false] at hl
    rcases hl with rfl | hl | rfl
    · exact beginsBlocksOnly_of_not_name (by simp)
    · exact ih l hl
    · exact beginsBlocksOnly_of_not_name (by simp)

/-- The first number of bare blocks that is given up is the number of levels itself. -/
theorem attempt_braced (levels : Nat) : attempt t (braced levels) = .tooDeep ↔ maxNesting ≤ levels := by
  have hRow : tokenize (braced levels) = bracedRow levels := by
    have hRead := @tokenize_braced levels [] (by simp)
    simpa using hRead
  rw [attempt_tooDeep_iff_nests (by rw [hRow]; exact blocksOnly_bracedRow levels), hRow, nests_bracedRow_iff]

end DaxMigration.Dax
