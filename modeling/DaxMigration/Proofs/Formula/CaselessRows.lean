import DaxMigration.Formula.Group
import DaxMigration.Formula.Kind
import DaxMigration.Proofs.Formula.LetterCase

/-!
# Recognizing without letter case

The same constructs are found in a row and in its caseless form, at the same places. Only a keyword that
is no word of the language is text of the formula, and so are the names of dimensions.
-/

namespace DaxMigration.Formula

open Text

/-! ## Tokens -/

namespace Token

def isCased : Token → Bool
  | number _ | string _ | singleQuoted _ | field _ | comment _ | verbatim _ => true
  | _ => false

variable (t : Token)

@[simp]
theorem isComment_caseless : t.caseless.isComment = t.isComment := by
  cases t <;> rfl

@[simp]
theorem isIdentifier_caseless : t.caseless.isIdentifier = t.isIdentifier := by
  cases t <;> rfl

@[simp]
theorem isField_caseless : t.caseless.isField = t.isField := by
  cases t <;> rfl

@[simp]
theorem opens_caseless : t.caseless.opens = t.opens := by
  cases t <;> rfl

@[simp]
theorem closes_caseless : t.caseless.closes = t.closes := by
  cases t <;> rfl

theorem caseless_of_not_isCased {t : Token} (h : t.isCased = false) : t.caseless = t := by
  cases t <;> first | rfl | cases h

theorem isCased_caseless : t.caseless.isCased = t.isCased := by
  cases t <;> rfl

/-- Marks and names are told apart from all other tokens without letter case. -/
theorem caseless_eq_iff {t s : Token} (h : s.isCased = false) : t.caseless = s ↔ t = s := by
  constructor
  · rintro rfl
    rw [isCased_caseless] at h
    rw [caseless_of_not_isCased h]
  · rintro rfl
    exact caseless_of_not_isCased h

theorem beq_caseless {s : Token} (h : s.isCased = false) : (t.caseless == s) = (t == s) := by
  rw [Bool.eq_iff_iff, beq_iff_eq, beq_iff_eq, caseless_eq_iff h]

@[simp]
theorem isWord_caseless (word : String) : t.caseless.isWord word = t.isWord word :=
  beq_caseless t rfl

@[simp]
theorem roleOf_caseless : roleOf t.caseless = roleOf t := by
  cases t <;> rfl

@[simp]
theorem caseless_caseless : t.caseless.caseless = t.caseless := by
  cases t <;> simp [caseless]

end Token

/-! ## Lexemes -/

namespace Lexeme

variable (l : Lexeme)

@[simp]
theorem token_caseless : l.caseless.token = l.token.caseless := rfl

@[simp]
theorem text_caseless : l.caseless.text = Text.caseless l.text := rfl

@[simp]
theorem leading_caseless : l.caseless.leading = Text.caseless l.leading := rfl

@[simp]
theorem caseless_caseless : l.caseless.caseless = l.caseless := by
  simp [caseless]

@[simp]
theorem isComment_caseless : l.caseless.isComment = l.isComment :=
  l.token.isComment_caseless

@[simp]
theorem isAttached_caseless : l.caseless.isAttached = l.isAttached :=
  isEmpty_caseless l.leading

theorem isComment_comp_caseless : isComment ∘ caseless = isComment :=
  funext isComment_caseless

end Lexeme

theorem written_caseless (ls : List Lexeme) : written (ls.map Lexeme.caseless) = caseless (written ls) := by
  induction ls with
  | nil => rfl
  | cons l ls ih => simp [ih]

theorem render_caseless (ls : List Lexeme) : render (ls.map Lexeme.caseless) = caseless (render ls) := by
  cases ls with
  | nil => rfl
  | cons l ls =>
    rw [List.map_cons, render, render, written_caseless, ← trim_caseless, caseless_append]
    rfl

theorem slice_map {α β : Type} (f : α → β) (s : Span) (as : List α) :
    s.slice (as.map f) = (s.slice as).map f := by
  rw [Span.slice, Span.slice, ← List.map_take, ← List.map_drop]

/-! ## Delimiters -/

section

variable (ls : List Lexeme)

@[simp]
theorem tokenAt_caseless (i : Nat) :
    tokenAt (ls.map Lexeme.caseless) i = (tokenAt ls i).map Token.caseless := by
  simp only [tokenAt, List.getElem?_map, Option.map_map]
  rfl

theorem tokenAt_caseless_eq_iff {i : Nat} {s : Token} (h : s.isCased = false) :
    tokenAt (ls.map Lexeme.caseless) i = some s ↔ tokenAt ls i = some s := by
  rw [tokenAt_caseless]
  cases tokenAt ls i with
  | none => simp
  | some t => simpa using Token.caseless_eq_iff h

@[simp]
theorem nextSignificant_caseless (i : Nat) :
    nextSignificant (ls.map Lexeme.caseless) i = nextSignificant ls i := by
  simp only [nextSignificant, ← List.map_drop, List.takeWhile_map, Lexeme.isComment_comp_caseless,
    List.length_map]

@[simp]
theorem isFilled_caseless : isFilled (ls.map Lexeme.caseless) = isFilled ls := by
  funext s
  rw [isFilled, isFilled, slice_map, List.any_map]
  exact congrArg _ (funext fun l => congrArg _ l.isComment_caseless)

@[simp]
theorem followedByParen_caseless : followedByParen (ls.map Lexeme.caseless) = followedByParen ls := by
  rw [followedByParen, followedByParen, List.dropWhile_map, Lexeme.isComment_comp_caseless, List.head?_map]
  cases (ls.dropWhile Lexeme.isComment).head? with
  | none => rfl
  | some l => exact Token.beq_caseless l.token rfl

@[simp]
theorem isCallAt_caseless (i : Nat) : isCallAt (ls.map Lexeme.caseless) i = isCallAt ls i := by
  rw [isCallAt, isCallAt, ← List.map_drop]
  cases ls.drop i with
  | nil => rfl
  | cons l rest => simp

theorem closeFrom_caseless (depth i : Nat) :
    closeFrom depth i (ls.map Lexeme.caseless) = closeFrom depth i ls := by
  fun_induction closeFrom depth i ls <;> simp_all [closeFrom]

@[simp]
theorem matchingClose_caseless (i : Nat) : matchingClose (ls.map Lexeme.caseless) i = matchingClose ls i := by
  rw [matchingClose, matchingClose, ← List.map_drop, closeFrom_caseless]

theorem topLevelFrom_caseless {p : Token → Bool} (h : ∀ t : Token, p t.caseless = p t) (depth i : Nat) :
    topLevelFrom p depth i (ls.map Lexeme.caseless) = topLevelFrom p depth i ls := by
  fun_induction topLevelFrom p depth i ls <;> simp_all [topLevelFrom]

theorem topLevel_caseless {p : Token → Bool} (h : ∀ t : Token, p t.caseless = p t) (s : Span) :
    topLevel p (ls.map Lexeme.caseless) s = topLevel p ls s := by
  rw [topLevel, topLevel, slice_map, topLevelFrom_caseless _ h]

@[simp]
theorem splitTopLevel_caseless (s : Span) :
    splitTopLevel (ls.map Lexeme.caseless) s = splitTopLevel ls s := by
  rw [splitTopLevel, splitTopLevel, isFilled_caseless, topLevel_caseless ls fun t => t.beq_caseless rfl]

end

/-! ## Outermost constructs -/

/-- What is found at every position counts as the same, and so do all outermost constructs. -/
theorem map_outermostFrom_eq {β γ δ : Type} {found? : Nat → Option β} {found?' : Nat → Option γ}
    {stop : β → Nat} {stop' : γ → Nat} {f : β → δ} {g : γ → δ}
    (hFound : ∀ i, (found?' i).map g = (found? i).map f) (hStop : ∀ b c, g c = f b → stop' c = stop b)
    (count position free : Nat) :
    (outermostFrom found?' stop' count position free).map g =
      (outermostFrom found? stop count position free).map f := by
  induction count generalizing position free with
  | zero => rfl
  | succ count ih =>
    rw [outermostFrom, outermostFrom]
    split
    · exact ih _ _
    have hHere := hFound position
    cases hThis : found? position with
    | none =>
      rw [hThis, Option.map_none, Option.map_eq_none_iff] at hHere
      rw [hHere]
      exact ih _ _
    | some b =>
      rw [hThis, Option.map_some, Option.map_eq_some_iff] at hHere
      obtain ⟨c, hOther, hSame⟩ := hHere
      rw [hOther]
      simp only [List.map_cons, hSame, hStop b c hSame, ih]

/-! ## Level of detail -/

def LodKeyword.caseless : LodKeyword → LodKeyword
  | other text => other (Text.caseless text)
  | keyword => keyword

def LodBlock.caseless (b : LodBlock) : LodBlock :=
  { b with keyword := b.keyword.caseless }

section

variable (ls : List Lexeme)

theorem lodHead_caseless (s : Span) :
    (lodHead (ls.map Lexeme.caseless) s).map LodKeyword.caseless id =
      (lodHead ls s).map LodKeyword.caseless id := by
  unfold lodHead
  rw [nextSignificant_caseless, slice_map, render_caseless]
  split
  · rfl
  rename_i i _
  split
  · rfl
  rw [tokenAt_caseless]
  cases tokenAt ls i with
  | none => simp [LodKeyword.caseless]
  | some t => cases t <;> simp [LodKeyword.caseless, Token.caseless]

theorem parseLod_caseless (start : Nat) :
    (parseLod (ls.map Lexeme.caseless) start).map LodBlock.caseless =
      (parseLod ls start).map LodBlock.caseless := by
  have hColons := topLevel_caseless ls (p := (· == .colon)) (fun t => t.beq_caseless rfl)
  rw [parseLod, parseLod, matchingClose_caseless]
  split
  · rfl
  rename_i close _
  simp only [ne_eq, tokenAt_caseless_eq_iff ls (s := .rbrace) rfl, hColons, isFilled_caseless]
  split
  · rfl
  split
  · rfl
  rename_i colon _ _
  split
  · have hHead := lodHead_caseless ls ⟨start + 1, colon⟩
    simp only [Prod.map, Prod.mk.injEq, id] at hHead
    simp only [Except.map, LodBlock.caseless, hHead]
  · rfl

theorem lodAt_caseless (i : Nat) :
    (lodAt? (ls.map Lexeme.caseless) i).map LodBlock.caseless = (lodAt? ls i).map LodBlock.caseless := by
  have hParse := parseLod_caseless ls i
  rw [lodAt?, lodAt?]
  simp only [tokenAt_caseless_eq_iff ls (s := .lbrace) rfl]
  split
  · cases hHere : parseLod (ls.map Lexeme.caseless) i <;> cases hThere : parseLod ls i <;>
      simp_all [Except.map, Except.toOption]
  · rfl

theorem lodBlocks_caseless :
    (lodBlocks (ls.map Lexeme.caseless)).map LodBlock.caseless = (lodBlocks ls).map LodBlock.caseless := by
  rw [lodBlocks, lodBlocks, List.length_map]
  refine map_outermostFrom_eq (lodAt_caseless ls) ?_ _ _ _
  intro b c hSame
  exact congrArg (·.span.stop) (show c.caseless = b.caseless from hSame)

theorem dimensionName_caseless (s : Span) :
    dimensionName (ls.map Lexeme.caseless) s = caseless (dimensionName ls s) := by
  have hMarks : ∀ c : Char, (c.toLower == '[' || c.toLower == ']') = (c == '[' || c == ']') :=
    apply_toLower (f := fun c => c == '[' || c == ']') (by decide)
  have hFilter : ((s.slice ls).map Lexeme.caseless).filter (fun l => !l.isComment) =
      ((s.slice ls).filter fun l => !l.isComment).map Lexeme.caseless := by
    rw [List.filter_map]
    exact congrArg _ (congrArg₂ _ (funext fun l => congrArg _ l.isComment_caseless) rfl)
  rw [dimensionName, dimensionName, slice_map, hFilter, render_caseless, stripBoth_caseless hMarks]
  generalize (s.slice ls).filter (fun l => !l.isComment) = filled
  match filled with
  | [] => rfl
  | [⟨token, text, leading⟩] => cases token <;> rfl
  | l :: m :: rest => simp

/-! ## Conditionals -/

theorem outlineFrom_caseless (depth nested i : Nat) :
    outlineFrom depth nested i (ls.map Lexeme.caseless) = outlineFrom depth nested i ls := by
  fun_induction outlineFrom depth nested i ls <;> simp_all [outlineFrom]

theorem outline_caseless (start : Nat) : outline (ls.map Lexeme.caseless) start = outline ls start := by
  rw [outline, outline, ← List.map_drop, outlineFrom_caseless]

theorem require_caseless : require (ls.map Lexeme.caseless) = require ls := by
  funext part s
  rw [require, require, isFilled_caseless]

theorem readFallback_caseless (form : Form) (failure : BlockError) (start : Nat) (marks : List Mark) :
    readFallback (ls.map Lexeme.caseless) form failure start marks =
      readFallback ls form failure start marks := by
  cases marks with
  | nil => rfl
  | cons m marks => rw [readFallback, readFallback, require_caseless]

/-- Two marks of a branch are read at a time. -/
theorem readClauses_caseless (form : Form) (failure : BlockError) : ∀ (start : Nat) (marks : List Mark),
    readClauses (ls.map Lexeme.caseless) form failure start marks = readClauses ls form failure start marks
  | _, [] => rfl
  | _, [m] => by simp only [readClauses, require_caseless]
  | start, m :: n :: marks => by
    simp only [readClauses, require_caseless, readFallback_caseless,
      readClauses_caseless form failure _ marks]

theorem conditionalAt_caseless (i : Nat) :
    conditionalAt? (ls.map Lexeme.caseless) i = conditionalAt? ls i := by
  have hIf : parseIf (ls.map Lexeme.caseless) i = parseIf ls i := by
    simp only [parseIf, outline_caseless, readClauses_caseless]
  have hCase : parseCase (ls.map Lexeme.caseless) i = parseCase ls i := by
    simp only [parseCase, outline_caseless, readClauses_caseless, require_caseless]
  rw [conditionalAt?, conditionalAt?, tokenAt_caseless, hIf, hCase]
  cases tokenAt ls i with
  | none => rfl
  | some t => simp

@[simp]
theorem conditionals_caseless : conditionals (ls.map Lexeme.caseless) = conditionals ls := by
  rw [conditionals, conditionals, List.length_map, funext (conditionalAt_caseless ls)]

/-! ## Calls -/

theorem callAt_caseless (wanted : List Char → Bool) (i : Nat) :
    callAt? wanted (ls.map Lexeme.caseless) i = callAt? wanted ls i := by
  rw [callAt?, callAt?, parseCall, parseCall, tokenAt_caseless]
  cases tokenAt ls i with
  | none => rfl
  | some t =>
    cases t <;> try rfl
    simp only [Option.map_some, Token.caseless, isCallAt_caseless, nextSignificant_caseless,
      matchingClose_caseless, tokenAt_caseless_eq_iff ls (s := .rparen) rfl, splitTopLevel_caseless]

@[simp]
theorem calls_caseless (wanted : List Char → Bool) :
    calls wanted (ls.map Lexeme.caseless) = calls wanted ls := by
  rw [calls, calls, List.length_map, funext (callAt_caseless ls wanted)]

@[simp]
theorem calledNames_caseless : calledNames (ls.map Lexeme.caseless) = calledNames ls := by
  induction ls with
  | nil => rfl
  | cons l ls ih =>
    obtain ⟨token, text, leading⟩ := l
    rw [List.map_cons, calledNames, calledNames, ih, followedByParen_caseless]
    cases token <;> rfl

end

/-! ## Groups -/

mutual

def Piece.caseless : Piece → Piece
  | .leaf l => .leaf l.caseless
  | .group opening inner closing => .group opening.caseless (Piece.caselessAll inner) closing.caseless

def Piece.caselessAll : List Piece → List Piece
  | [] => []
  | p :: rest => Piece.caseless p :: Piece.caselessAll rest

end

theorem Piece.caselessAll_eq_map (ps : List Piece) : Piece.caselessAll ps = ps.map Piece.caseless := by
  induction ps with
  | nil => rfl
  | cons p ps ih => rw [Piece.caselessAll, List.map_cons, ih]

def Grouping.caseless (g : Grouping) : Grouping :=
  ⟨g.frames.map (Prod.map Lexeme.caseless (List.map Piece.caseless)), g.current.map Piece.caseless⟩

theorem Grouping.step_caseless (g : Grouping) (l : Lexeme) :
    (Grouping.caseless g).step l.caseless = Grouping.caseless (g.step l) := by
  obtain ⟨frames, current⟩ := g
  simp only [Grouping.step, Lexeme.token_caseless, Token.opens_caseless, Token.closes_caseless]
  split
  · rfl
  split
  · cases frames with
    | nil => simp [Grouping.caseless, Piece.caseless]
    | cons frame frames => simp [Grouping.caseless, Piece.caseless, Piece.caselessAll_eq_map]
  · simp [Grouping.caseless, Piece.caseless]

theorem Grouping.finish_caseless (frames : List (Lexeme × List Piece)) (current : List Piece) :
    Grouping.finish (frames.map (Prod.map Lexeme.caseless (List.map Piece.caseless)))
        (current.map Piece.caseless) =
      (Grouping.finish frames current).map Piece.caseless := by
  induction frames generalizing current with
  | nil => rfl
  | cons frame frames ih =>
    rw [List.map_cons, Grouping.finish, Grouping.finish, ← ih]
    simp [Piece.caseless]

theorem group_caseless (ls : List Lexeme) :
    group (ls.map Lexeme.caseless) = (group ls).map Piece.caseless := by
  suffices hFold : ∀ g : Grouping, (ls.map Lexeme.caseless).foldl Grouping.step (Grouping.caseless g) =
      Grouping.caseless (ls.foldl Grouping.step g) by
    rw [group, group, Grouping.finished, Grouping.finished, ← Grouping.finish_caseless]
    rw [show Grouping.start = Grouping.caseless .start from rfl, hFold]
    rfl
  induction ls with
  | nil => exact fun g => rfl
  | cons l ls ih =>
    intro g
    rw [List.map_cons, List.foldl_cons, List.foldl_cons, Grouping.step_caseless, ih]

/-! ## Kinds -/

def Kind.caseless : Kind → Kind
  | lod keyword dimensions inner =>
    lod keyword.caseless (dimensions.map Text.caseless) (Text.caseless inner)
  | kind => kind

theorem Kind.name_caseless (kind : Kind) : kind.caseless.name = kind.name := by
  cases kind <;> rfl

theorem classify_caseless (ls : List Lexeme) :
    (classify (ls.map Lexeme.caseless)).caseless = (classify ls).caseless := by
  have hBlocks := congrArg List.head? (lodBlocks_caseless ls)
  rw [List.head?_map, List.head?_map] at hBlocks
  rw [classify, classify, conditionals_caseless, calledNames_caseless]
  cases hBlock : (lodBlocks ls).head? with
  | none =>
    rw [hBlock, Option.map_none, Option.map_eq_none_iff] at hBlocks
    rw [hBlocks]
  | some b =>
    rw [hBlock, Option.map_some, Option.map_eq_some_iff] at hBlocks
    obtain ⟨b', hBlock', hSame⟩ := hBlocks
    simp only [LodBlock.caseless, LodBlock.mk.injEq] at hSame
    obtain ⟨-, hKeyword, hDimensions, hInner⟩ := hSame
    have hNames : dimensionName (ls.map Lexeme.caseless) = Text.caseless ∘ dimensionName ls :=
      funext (dimensionName_caseless ls)
    rw [hBlock']
    simp only [Kind.caseless, hKeyword, hDimensions, hInner, hNames, slice_map, render_caseless,
      caseless_caseless, List.map_map]
    refine congrArg (Kind.lod _ · _) (List.map_congr_left fun d _ => ?_)
    exact caseless_caseless _

end DaxMigration.Formula
