import DaxMigration.Catalogue.Lookup
import DaxMigration.Dax.Conversion
import DaxMigration.Proofs.Dax.Recovered
import DaxMigration.Proofs.Dax.Undivided
import DaxMigration.Proofs.Formula.Heads

/-!
# What constructs are converted to

The text made of a level-of-detail block or of a table calculation is read as the call prescribed
for it, with the converted expressions as whole arguments.
-/

namespace DaxMigration.Dax

open Formula Text

variable {t : Target}

/-- A run without comments, open literals and stray square brackets, in which every division and
every product has both operands and no comma parts the expression of a block. -/
structure IsSound (run : List Lexeme) : Prop where
  comment : ∀ l ∈ run, l.isComment = false
  terminated : ∀ l ∈ run, l.isTerminated = true
  closed : ∀ l ∈ run, l.token ≠ .illegal ']'
  operators : Flanked true run
  bodies : BodiesHave IsSlot run

theorem IsSound.faithful {formula : List Char} {run : List Lexeme} (h : IsSound run)
    (hRun : run <:+: tokenize formula) : ∀ l ∈ run, Faithful l := fun l hl =>
  faithful_of_mem_tokenize (hRun.subset hl) (h.terminated l hl) (h.comment l hl) (h.closed l hl)

/-- Wherever the block stands it is found, and the text made of it around its converted expression
is read as the call that its head prescribes. -/
def BlockRecovered (t : Target) (r : BlockRun) (keyword : LodKeyword) (names : List (List Char)) :
    Prop :=
  ∀ (ls rest : List Lexeme) (i : Nat), ls.drop i = r.lexemes ++ rest →
    ∃ b, lodAt? ls i = some b ∧ b.span.slice ls = r.lexemes ∧ b.inner.slice ls = r.inner ∧
      ∀ (room : Nat) (inner : List Char), Gives (convertInner t room r.inner) inner →
        Returns (convertLod t ls inner b) (lodShape t inner keyword names).written ∧
          (lodShape t inner keyword names).Reads
            (tokenize (lodShape t inner keyword names).written)

/-- Wherever the call stands it is found, and the text made of it is read as the call prescribed for
its arguments. -/
def CallRecovered (t : Target) (c : CallRun) (function : TableCalc) (rows : List (List Lexeme)) :
    Prop :=
  ∀ (ls rest : List Lexeme) (i : Nat), ls.drop i = c.lexemes ++ rest →
    ∃ call, callAt? (fun name => (TableCalc.ofName? name).isSome) ls i = some call ∧
      call.span.slice ls = c.lexemes ∧ call.args.map (·.slice ls) = rows ∧
      ∀ (room : Nat) (result : Option (List Char)),
        Gives (convertTableCalc t ls (fun s => convertArgument t room (s.slice ls)) call) result →
          ∃ shape, result = some shape.written ∧
            Prescribed t (fun row e => Gives (convertArgument t room row) e) function rows shape ∧
            shape.Reads (tokenize shape.written)

theorem reads_tokenize {s : Shape} (h : s.IsReadable) : s.Reads (tokenize s.written) := by
  have hRead := h.reads []
  rwa [indent_nil] at hRead

theorem isArgument_inner (ht : t.IsNamed) {formula : List Char} {r : BlockRun} (h : r.IsBlock)
    (hFilled : ∃ l ∈ r.inner, l.isComment = false) (hRun : r.lexemes <:+: tokenize formula)
    (hSound : IsSound r.lexemes) {room : Nat} {inner : List Char}
    (hInner : Gives (convertInner t room r.inner) inner) : IsArgument inner := by
  have hSustains := sustains_argument ht
  have hBody : r.inner <:+: r.lexemes :=
    ⟨r.opening :: r.head, [r.closing], by simp [BlockRun.lexemes]⟩
  have hFlanked := h.flanked hSound.operators.chain
  have hAll : ∀ l ∈ r.inner, Faithful l := fun l hl => hSound.faithful hRun l (hBody.subset hl)
  refine (hSustains.convertInner (fun hSpliced => ?_) hFlanked
    (hSound.bodies r h hFilled (List.infix_refl _)) hInner).1
  exact hSustains.spliceLods hAll hFlanked.chain (hSound.bodies.within hBody) hSpliced

theorem IsSound.preserved (ht : t.IsNamed) {formula : List Char} {source row : List Lexeme}
    (h : IsSound source) (hSource : source <:+: tokenize formula) (hRow : Derived t source row) :
    Preserved true Faithful source row :=
  preserved_of_derived ht (h.faithful hSource) h.operators.chain h.bodies hRow

theorem isArgument_row (ht : t.IsNamed) {formula : List Char} {source row : List Lexeme}
    (h : IsSound source) (hSource : source <:+: tokenize formula) (hRow : Derived t source row)
    (hSlot : IsSlot row) {room : Nat} {e : List Char} (hText : Gives (convertArgument t room row) e) :
    IsArgument e := by
  have hSustains := sustains_argument ht
  have hPreserved := h.preserved ht hSource hRow
  exact (hSustains.convertArgument hSustains.spliceTableCalcs hPreserved.lexemes
    (hPreserved.flanked h.operators) hSlot hText).1

/-- The texts of blocks and table calculations are read as the calls prescribed for them. The rows
of a table calculation may hold converted constructs: they are runs of rows that derive from the
formula. -/
theorem constructs_recovered (ht : t.IsNamed) :
    (∀ (formula : List Char) (r : BlockRun) (keyword : LodKeyword) (names : List (List Char)),
      r.IsBlock → HeadSays r.head keyword names → r.inner ≠ [] → r.lexemes <:+: tokenize formula →
        IsSound r.lexemes → BlockRecovered t r keyword names) ∧
    (∀ (c : CallRun) (name : List Char) (function : TableCalc) (rows : List (List Lexeme)),
      c.IsCall name → TableCalc.ofName? name = some function → c.inner ≠ [] →
        Listed rows c.inner → (∀ row ∈ rows, IsSlot row) →
        rows.length ∈ TableCalc.arities function →
        (∀ row ∈ rows, ∃ formula source, source <:+: tokenize formula ∧ IsSound source ∧
          Derived t source row) →
        CallRecovered t c function rows) ∧
    (∀ (ls mid ls' row : List Lexeme) (room room' : Nat), Gives (spliceLods t room ls) mid →
      Gives (spliceConditionals t room' mid) ls' → row <:+: ls' →
        ∃ source, source <:+: ls ∧ Derived t source row) := by
  refine ⟨?_, ?_, ?_⟩
  · intro formula r keyword names hBlock hSays hInner hRun hSound ls rest i hAt
    obtain ⟨l, hl⟩ := List.exists_mem_of_ne_nil _ hInner
    have hFilled : ∃ l ∈ r.inner, l.isComment = false :=
      ⟨l, hl, hSound.comment l (by simp [BlockRun.lexemes, hl])⟩
    obtain ⟨b, hFound, hSpan, hBody, hHead⟩ := lodAt_of_run hBlock hFilled hAt
    obtain ⟨hKeyword, hNames⟩ := hHead keyword names hSays
    refine ⟨b, hFound, hSpan, hBody, fun room inner hGives => ⟨?_, ?_⟩⟩
    · rw [← hKeyword, ← hNames]
      exact returns_convertLod t ls inner b
    · have hArgument := isArgument_inner ht hBlock hFilled hRun hSound hGives
      exact reads_tokenize (isReadable_lodShape t hArgument keyword names)
  · intro c name function rows hCall hName hInner hListed hSlots hArity hSources ls rest i hAt
    have hComment : ∀ l ∈ c.inner, l.isComment = false := by
      intro l hl
      rcases hListed.mem_or_comma hl with ⟨row, hRow, hMem⟩ | hComma
      · obtain ⟨formula, source, hSource, hSound, hDerived⟩ := hSources row hRow
        exact ((hSound.preserved ht hSource hDerived).lexemes l hMem).bears.comment
      · rw [Lexeme.isComment, hComma]
        rfl
    obtain ⟨l, hl⟩ := List.exists_mem_of_ne_nil _ hInner
    obtain ⟨args, hParse, hRows⟩ := parseCall_of_run hCall hListed hSlots ⟨l, hl, hComment l hl⟩ hAt
    have hFirst : tokenAt ls i = some (.identifier name) := by
      rw [tokenAt_of_drop (l := c.first) hAt, hCall.first]
    have hFound : callAt? (fun name => (TableCalc.ofName? name).isSome) ls i =
        some ⟨⟨i, i + c.lexemes.length⟩, name, args⟩ := by
      simp [callAt?, hFirst, hName, hParse, Except.toOption]
    refine ⟨_, hFound, slice_of_drop hAt, hRows, fun room result hGives => ?_⟩
    rcases gives_convertTableCalc (convertArgument t room) hName hGives with
      ⟨-, hOther⟩ | ⟨shape, rfl, hShape⟩
    · rw [← hRows, List.length_map] at hArity
      exact absurd hArity hOther
    · have hMade : Prescribed t (fun row e => Gives (convertArgument t room row) e) function rows
          shape := hRows ▸ hShape
      refine ⟨shape, rfl, hMade, reads_tokenize (hMade.isReadable fun row hRow e hText => ?_)⟩
      obtain ⟨formula, source, hSource, hSound, hDerived⟩ := hSources row hRow
      exact isArgument_row ht hSound hSource hDerived (hSlots row hRow) hText
  · intro ls mid ls' row room room' hLods hConditionals hRow
    exact (derived_of_spliced hLods hConditionals).of_part hRow

/-- A block without dimensions is no call; a comma in the expression of a block parts it into
arguments, and so does one in the text of a function. -/
theorem unrecovered_bare_and_parted :
    (∃ kind facts remarks, attempt (Catalogue.builtin.target "Sales" "OrderDate")
        "\x7bINCLUDE : [a]\x7d".toList = .converted kind facts "Sales[a]".toList remarks) ∧
      (parseCall (tokenize "Sales[a]".toList) 0).toOption = none ∧
    (∃ kind facts remarks, attempt (Catalogue.builtin.target "Sales" "OrderDate")
        "\x7bFIXED [r] : [b], [c]\x7d".toList =
          .converted kind facts "CALCULATE(Sales[b], Sales[c], ALLEXCEPT(Sales, Sales[r]))".toList
            remarks) ∧
      (parseCall (tokenize "CALCULATE(Sales[b], Sales[c], ALLEXCEPT(Sales, Sales[r]))".toList)
          0).toOption.map (fun call => call.args.length) = some 3 ∧
    (∃ kind facts remarks, attempt (remapped "SUM" "A, B")
        "\x7bFIXED [r] : SUM([x])\x7d".toList =
          .converted kind facts "CALCULATE(A, B(Sales[x]), ALLEXCEPT(Sales, Sales[r]))".toList
            remarks) ∧
      (parseCall (tokenize "CALCULATE(A, B(Sales[x]), ALLEXCEPT(Sales, Sales[r]))".toList)
          0).toOption.map (fun call => call.args.length) = some 3 :=
  ⟨attempt_of_run (by decide) (by decide +kernel), by decide +kernel,
    attempt_of_run (by decide) (by decide +kernel), by decide +kernel,
    attempt_of_run (by decide) (by decide +kernel), by decide +kernel⟩

/-! ## A block and a call -/

/-- It is enough to look at every position. -/
theorem bodiesHave_of_found {S : List Lexeme → Prop} {ls : List Lexeme}
    (h : ∀ i < ls.length, ∀ b ∈ lodAt? ls i, S (b.inner.slice ls)) : BodiesHave S ls := by
  rintro r hBlock hFilled ⟨before, after, hSplit⟩
  have hAt : ls.drop before.length = r.lexemes ++ after := by
    rw [← hSplit, List.append_assoc, List.drop_left]
  obtain ⟨b, hFound, -, hInner, -⟩ := lodAt_of_run hBlock hFilled hAt
  rw [← hInner]
  refine h before.length ?_ b hFound
  rw [← hSplit]
  simp [BlockRun.lexemes]

def shareFormula : List Char :=
  "\x7bFIXED [x]],y] : [b] / 2\x7d + RANK([c] * 2, 'asc')".toList

def shareBlock : BlockRun :=
  ⟨⟨.lbrace, ['\x7b'], []⟩,
    [⟨.identifier "FIXED".toList, "FIXED".toList, []⟩, ⟨.field "x],y".toList, "[x]],y]".toList, [' ']⟩, ⟨.colon, [':'], [' ']⟩],
    (Span.mk 4 7).slice (tokenize shareFormula), ⟨.rbrace, ['\x7d'], []⟩⟩

def shareCall : CallRun :=
  ⟨⟨.identifier "RANK".toList, "RANK".toList, [' ']⟩, ⟨.lparen, ['('], []⟩, (Span.mk 11 16).slice (tokenize shareFormula),
    ⟨.rparen, [')'], []⟩⟩

def shareTarget : Target :=
  Catalogue.builtin.target "Sales" "OrderDate"

def shareQuotient : List Char :=
  "DIVIDE(Sales[b], 2, 0)".toList

def shareBlockDax : List Char :=
  "CALCULATE(DIVIDE(Sales[b], 2, 0), ALLEXCEPT(Sales, Sales[x]],y]))".toList

def shareCallDax : List Char :=
  "RANKX(ALL(Sales), Sales[c] * 2, , ASC)".toList

theorem tokenize_share :
    tokenize shareFormula = shareBlock.lexemes ++ ⟨.plus, ['+'], [' ']⟩ :: shareCall.lexemes := by
  decide +kernel

theorem isSound_shareBlock : IsSound shareBlock.lexemes where
  comment := by decide +kernel
  terminated := by decide +kernel
  closed := by decide +kernel
  operators := by decide +kernel
  bodies := bodiesHave_of_found (by decide +kernel)

theorem isSound_shareRow (s : Span) (h : s = ⟨11, 14⟩ ∨ s = ⟨15, 16⟩) :
    IsSound (s.slice (tokenize shareFormula)) := by
  rcases h with rfl | rfl
  all_goals
    exact ⟨by decide +kernel, by decide +kernel, by decide +kernel, by decide +kernel,
      bodiesHave_of_found (by decide +kernel)⟩

/-- A block with a bracket and a comma in the name of its dimension, and a call with both arguments. -/
theorem constructs_recovered_share :
    (∃ b, lodAt? (tokenize shareFormula) 0 = some b ∧
      Returns (convertLod shareTarget (tokenize shareFormula) shareQuotient b) shareBlockDax ∧
      (Shape.call "CALCULATE" [.text shareQuotient, .call "ALLEXCEPT"
        [.text "Sales".toList, .text "Sales[x]],y]".toList]]).Reads (tokenize shareBlockDax)) ∧
    (∃ call shape, callAt? (fun name => (TableCalc.ofName? name).isSome) (tokenize shareFormula) 9 =
        some call ∧
      Prescribed shareTarget (fun row e => Gives (convertArgument shareTarget 1 row) e) .rank
        [(Span.mk 11 14).slice (tokenize shareFormula), (Span.mk 15 16).slice (tokenize shareFormula)]
        shape ∧
      shape.written = shareCallDax ∧ shape.Reads (tokenize shareCallDax)) := by
  obtain ⟨hBlocks, hCalls, -⟩ := constructs_recovered (isNamed_builtin "Sales" "OrderDate")
  constructor
  · have hBlock : shareBlock.IsBlock :=
      ⟨rfl, .inr ⟨shareBlock.head.take 2, _, rfl, by decide, by decide, rfl⟩, by decide +kernel, rfl⟩
    have hSays : HeadSays shareBlock.head .fixed ["x],y".toList] :=
      @HeadSays.dimensions _ _ "FIXED".toList [⟨.field "x],y".toList, "[x]],y]".toList, [' ']⟩] _
        ["x],y".toList] rfl (.single _) rfl rfl
    have hRun : shareBlock.lexemes <:+: tokenize shareFormula := by
      rw [tokenize_share]
      exact (List.prefix_append _ _).isInfix
    have hInner : Gives (convertInner shareTarget maxNesting shareBlock.inner) shareQuotient :=
      gives_of_run (by decide +kernel)
    obtain ⟨b, hFound, -, -, hMade⟩ := hBlocks shareFormula shareBlock _ _ hBlock hSays
      (by decide +kernel) hRun isSound_shareBlock (tokenize shareFormula) _ 0 tokenize_share
    obtain ⟨hText, hReads⟩ := hMade maxNesting shareQuotient hInner
    have hDax : (lodShape shareTarget shareQuotient .fixed ["x],y".toList]).written = shareBlockDax := by
      decide +kernel
    exact ⟨b, hFound, hDax ▸ hText, hDax ▸ hReads⟩
  · have hCall : shareCall.IsCall "RANK".toList := ⟨rfl, rfl, by decide +kernel, rfl⟩
    have hListed : Listed [(Span.mk 11 14).slice (tokenize shareFormula),
        (Span.mk 15 16).slice (tokenize shareFormula)] shareCall.inner := by
      have hInner : shareCall.inner = (Span.mk 11 14).slice (tokenize shareFormula) ++
          ⟨.comma, [','], []⟩ :: (Span.mk 15 16).slice (tokenize shareFormula) := by decide +kernel
      rw [hInner]
      exact .more _ rfl (.single _)
    have hSources : ∀ row ∈ [(Span.mk 11 14).slice (tokenize shareFormula),
        (Span.mk 15 16).slice (tokenize shareFormula)], ∃ formula source,
          source <:+: tokenize formula ∧ IsSound source ∧ Derived shareTarget source row := by
      simp only [List.forall_mem_cons]
      exact ⟨⟨shareFormula, _, by decide +kernel, isSound_shareRow _ (.inl rfl), .refl _⟩,
        ⟨shareFormula, _, by decide +kernel, isSound_shareRow _ (.inr rfl), .refl _⟩, by simp⟩
    have hAt : (tokenize shareFormula).drop 9 = shareCall.lexemes ++ [] := by decide +kernel
    obtain ⟨call, hFound, -, -, hMade⟩ := hCalls shareCall _ .rank _ hCall (by decide +kernel)
      (by decide +kernel) hListed (by decide +kernel) (by decide) hSources _ [] 9 hAt
    have hThis : callAt? (fun name => (TableCalc.ofName? name).isSome) (tokenize shareFormula) 9 =
        some ⟨⟨9, 17⟩, "RANK".toList, [⟨11, 14⟩, ⟨15, 16⟩]⟩ := by decide +kernel
    obtain rfl := Option.some.inj (hFound.symm.trans hThis)
    obtain ⟨shape, hText, hShape, hReads⟩ :=
      hMade 1 (some shareCallDax) (gives_of_run (by decide +kernel))
    have hWritten : shape.written = shareCallDax := (Option.some.inj hText).symm
    exact ⟨_, shape, hFound, hShape, hWritten, hWritten ▸ hReads⟩

end DaxMigration.Dax
