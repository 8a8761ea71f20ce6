import DaxMigration.Proofs.Dax.Replacing
import DaxMigration.Proofs.Dax.Shapes
import DaxMigration.Proofs.Formula.Parts

/-!
# What splicing swaps

For each sort of construct, all that splicing can do to a row: which runs it swaps, and for what.
Every statement on splicing goes by these swaps and not by the positions that it works with.
-/

namespace DaxMigration.Dax

open Formula Text

/-- A row converted after the table calculations in it. -/
def convertArgument (t : Target) (room : Nat) (ls : List Lexeme) : Splicing (List Char) := do
  standardRemarked t (← spliceTableCalcs t room ls)

/-- A row converted after all constructs in it. -/
def convertInner (t : Target) (room : Nat) (ls : List Lexeme) : Splicing (List Char) := do
  let spliced ← spliceLods t room ls
  let spliced ← spliceConditionals t room spliced
  convertArgument t room spliced

/-! ## Table calculations -/

inductive TableSwap (t : Target) (room : Nat) : List Lexeme → List Lexeme → Prop
  | made {r : CallRun} {name : List Char} {function : TableCalc} {rows : List (List Lexeme)}
      {shape : Shape} (hCall : r.IsCall name) (hListed : Listed rows r.inner)
      (hSlots : ∀ row ∈ rows, IsSlot row)
      (hShape : Prescribed t (fun row e => Gives (convertArgument t room row) e) function rows shape) :
      TableSwap t room r.lexemes [Lexeme.verbatim shape.written r.first.leading]
  | kept {r : CallRun} {name : List Char} {inner : List Lexeme} (hCall : r.IsCall name)
      (hInner : Gives (spliceTableCalcs t room r.inner) inner) :
      TableSwap t room r.lexemes { r with inner := inner }.lexemes

theorem leading_of_drop {ls rest : List Lexeme} {i : Nat} {l : Lexeme} (h : ls.drop i = l :: rest) :
    (ls[i]?.map Lexeme.leading).getD [] = l.leading := by
  rw [← List.head?_drop, h]
  rfl

theorem length_le_of_drop {ls rest : List Lexeme} {i : Nat} {run : List Lexeme} (hFilled : run ≠ [])
    (h : ls.drop i = run ++ rest) : i + run.length ≤ ls.length := by
  have hLength := congrArg List.length h
  have hPositive := List.length_pos_of_ne_nil hFilled
  simp only [List.length_drop, List.length_append] at hLength
  omega

def keptCall (t : Target) (room : Nat) (ls : List Lexeme) (span : Span) : Splicing Replacement := do
  let opening := (nextSignificant ls (span.start + 1)).getD (span.start + 1)
  let closing := span.stop - 1
  let inner ← spliceTableCalcs t room ((Span.mk (opening + 1) closing).slice ls)
  return ⟨span, (Span.mk span.start (opening + 1)).slice ls ++ inner ++
    (Span.mk closing span.stop).slice ls⟩

/-- A kept call has what stands between its brackets spliced. -/
theorem keptCall_of_isCall {t : Target} {room i : Nat} {ls rest : List Lexeme} {r : CallRun}
    {name : List Char} (h : r.IsCall name) (hAt : ls.drop i = r.lexemes ++ rest) :
    keptCall t room ls ⟨i, i + r.lexemes.length⟩ = do
      return ⟨⟨i, i + r.lexemes.length⟩, { r with inner := ← spliceTableCalcs t room r.inner }.lexemes⟩ := by
  have hSplit : ls.drop i = [r.first, r.opening] ++ (r.inner ++ r.closing :: rest) := by
    simpa [CallRun.lexemes] using hAt
  have hOpening : ls.drop (i + 1) = r.opening :: (r.inner ++ r.closing :: rest) :=
    drop_of_drop (a := [r.first]) hSplit
  have hInner : ls.drop (i + 2) = r.inner ++ r.closing :: rest := drop_of_drop hSplit
  have hFirst : (Span.mk i (i + 2)).slice ls = [r.first, r.opening] := slice_of_drop hSplit
  have hLast : (Span.mk (i + 2 + r.inner.length) (i + r.lexemes.length)).slice ls = [r.closing] := by
    have hClosing := slice_of_drop (a := [r.closing]) (drop_of_drop hInner)
    rwa [show i + 2 + r.inner.length + [r.closing].length = i + r.lexemes.length by simp; omega]
      at hClosing
  have hNext : nextSignificant ls (i + 1) = some (i + 1) := by
    refine nextSignificant_of_drop hOpening ?_
    rw [Lexeme.isComment, h.opening]
    rfl
  have hStop : i + r.lexemes.length - 1 = i + 2 + r.inner.length := by simp; omega
  simp only [keptCall, hNext, Option.getD_some, hStop, hFirst, hLast, slice_of_drop hInner]
  simp [CallRun.lexemes]

theorem replaced_spliceTableCalcs {t : Target} {room : Nat} {ls ls' : List Lexeme}
    (hComment : ∀ l ∈ ls, l.isComment = false) (h : Gives (spliceTableCalcs t (room + 1) ls) ls') :
    Replaced (TableSwap t room) ls ls' := by
  refine Gives.replaced Call.span h (ordered_outermost ?_ _) ?_
  · intro i c hFound
    obtain ⟨-, r, rest, hAt, -, hEq⟩ := run_of_callAt hComment hFound
    rw [hEq]
    have hLength := length_le_of_drop (by simp [CallRun.lexemes]) hAt
    exact ⟨rfl, by simp, hLength⟩
  · intro c hc made hMade
    obtain ⟨i, -, hFound⟩ := found_of_mem_outermost hc
    obtain ⟨hWanted, r, rest, hAt, hCall, hEq⟩ := run_of_callAt hComment hFound
    obtain ⟨function, hFunction⟩ := Option.isSome_iff_exists.1 hWanted
    obtain ⟨span, name, args⟩ := c
    simp only [Call.mk.injEq] at hEq
    obtain ⟨rfl, -, rfl⟩ := hEq
    rw [slice_of_drop hAt]
    obtain ⟨result, hResult, hMade⟩ := hMade.of_bind
    rcases gives_convertTableCalc (convertArgument t room) hFunction hResult with
      ⟨rfl, -⟩ | ⟨shape, rfl, hShape⟩
    · have hKept : Gives (keptCall t room ls ⟨i, i + r.lexemes.length⟩) made := hMade
      rw [keptCall_of_isCall hCall hAt] at hKept
      obtain ⟨inner, hSpliced, hKept⟩ := hKept.of_bind
      rw [gives_pure_iff.1 hKept]
      exact ⟨rfl, .kept hCall hSpliced⟩
    · rw [gives_pure_iff.1 hMade]
      have hInner : ls.drop (i + 2) = r.inner ++ r.closing :: rest := by
        refine drop_of_drop (a := [r.first, r.opening]) ?_
        simpa [CallRun.lexemes] using hAt
      obtain ⟨rows, hListed, hSlots⟩ := Listed.exists_of_balanced hCall.balanced
      have hRows : (splitTopLevel ls ⟨i + 2, i + 2 + r.inner.length⟩).map (·.slice ls) = rows := by
        by_cases hFilled : ∃ l ∈ r.inner, l.isComment = false
        · exact hListed.splitTopLevel hSlots hFilled hInner
        · have hNone : splitTopLevel ls ⟨i + 2, i + 2 + r.inner.length⟩ = [] := by
            rw [splitTopLevel, if_neg]
            rwa [isFilled_iff, slice_of_drop hInner]
          rw [hNone] at hShape
          cases hShape
      rw [hRows] at hShape
      refine ⟨rfl, ?_⟩
      have hLeading := leading_of_drop (l := r.first) hAt
      simp only [Replacement.verbatim, hLeading]
      exact .made hCall hListed hSlots hShape

/-! ## Conditionals -/

def PartText (t : Target) (room : Nat) (run : List Lexeme) (text : List Char) : Prop :=
  ∃ row spliced, IsPart run row ∧ Gives (spliceConditionals t room row) spliced ∧
    text = qualified t spliced

inductive ConditionalSwap (t : Target) (room : Nat) : List Lexeme → List Lexeme → Prop
  | made {word : Lexeme} {body : List Lexeme} {name : String} {args : List Shape}
      (hBalanced : Balanced (word :: body))
      (hShape : (Shape.call name args).All (PartText t room (word :: body))) :
      ConditionalSwap t room (word :: body)
        [Lexeme.verbatim (Shape.call name args).written word.leading]

theorem replaced_spliceConditionals {t : Target} {room : Nat} {ls ls' : List Lexeme}
    (h : Gives (spliceConditionals t (room + 1) ls) ls') :
    Replaced (ConditionalSwap t room) ls ls' := by
  refine Gives.replaced Conditional.span h (ordered_outermost ?_ _) ?_
  · intro i c hFound
    obtain ⟨word, body, hRun⟩ := run_of_conditionalAt hFound
    obtain ⟨rest, hAt⟩ := hRun.split
    rw [hRun.span]
    exact ⟨rfl, by simp, length_le_of_drop (by simp) hAt⟩
  · intro c hc made hMade
    obtain ⟨i, -, hFound⟩ := found_of_mem_outermost hc
    obtain ⟨word, body, hRun⟩ := run_of_conditionalAt hFound
    obtain ⟨rest, hAt⟩ := hRun.split
    obtain ⟨text, hText, hMade⟩ := hMade.of_bind
    have hParts : ∀ s ∈ c.parts, ∀ u,
        Gives (do return qualified t (← spliceConditionals t room (s.slice ls))) u →
          PartText t room (word :: body) u := by
      intro s hs u hu
      obtain ⟨spliced, hSpliced, hu⟩ := hu.of_bind
      exact ⟨s.slice ls, spliced, hRun.parts s hs, hSpliced, gives_pure_iff.1 hu⟩
    obtain ⟨name, args, rfl, hShape⟩ := gives_convertConditional hParts hText
    have hLeading := leading_of_drop (l := word) hAt
    rw [gives_pure_iff.1 hMade, hRun.span, slice_of_drop hAt]
    refine ⟨rfl, ?_⟩
    simp only [Replacement.verbatim, hLeading]
    exact .made hRun.balanced hShape

/-! ## Level of detail -/

inductive LodSwap (t : Target) (room : Nat) : List Lexeme → List Lexeme → Prop
  | made {r : BlockRun} {inner : List Char} {keyword : LodKeyword} {names : List (List Char)}
      (hBlock : r.IsBlock) (hFilled : ∃ l ∈ r.inner, l.isComment = false)
      (hInner : Gives (convertInner t room r.inner) inner) :
      LodSwap t room r.lexemes
        [Lexeme.verbatim (lodShape t inner keyword names).written r.opening.leading]

theorem run_of_lodAt {ls : List Lexeme} {i : Nat} {b : LodBlock} (h : lodAt? ls i = some b) :
    ∃ (r : BlockRun) (rest : List Lexeme), ls.drop i = r.lexemes ++ rest ∧ r.IsBlock ∧
      b.span = ⟨i, i + r.lexemes.length⟩ ∧
      b.inner = ⟨i + 1 + r.head.length, i + 1 + r.head.length + r.inner.length⟩ ∧
      ∃ l ∈ r.inner, l.isComment = false := by
  obtain ⟨hOpening, hParse⟩ := parseLod_of_lodAt h
  exact run_of_parseLod hOpening hParse

theorem replaced_spliceLods {t : Target} {room : Nat} {ls ls' : List Lexeme}
    (h : Gives (spliceLods t (room + 1) ls) ls') : Replaced (LodSwap t room) ls ls' := by
  refine Gives.replaced LodBlock.span h (ordered_outermost ?_ _) ?_
  · intro i b hFound
    obtain ⟨r, rest, hAt, -, hSpan, -, -⟩ := run_of_lodAt hFound
    rw [hSpan]
    have hLength := length_le_of_drop (by simp [BlockRun.lexemes]) hAt
    exact ⟨rfl, by simp, hLength⟩
  · intro b hb made hMade
    obtain ⟨i, -, hFound⟩ := found_of_mem_outermost hb
    obtain ⟨r, rest, hAt, hBlock, hSpan, hInnerSpan, hFilled⟩ := run_of_lodAt hFound
    have hInner : ls.drop (i + 1 + r.head.length) = r.inner ++ r.closing :: rest := by
      have hSplit : ls.drop i = r.opening :: r.head ++ (r.inner ++ r.closing :: rest) := by
        simpa [BlockRun.lexemes] using hAt
      have hDrop := drop_of_drop hSplit
      rwa [List.length_cons, Nat.add_comm r.head.length, ← Nat.add_assoc] at hDrop
    have hMade : Gives (convertInner t room (b.inner.slice ls) >>= fun inner =>
        convertLod t ls inner b >>= fun text => pure (Replacement.verbatim ls b.span text)) made := by
      simpa only [convertInner, convertArgument, bind_assoc] using hMade
    obtain ⟨inner, hConverted, hMade⟩ := hMade.of_bind
    obtain ⟨text, hText, hMade⟩ := hMade.of_bind
    rw [hInnerSpan, slice_of_drop hInner] at hConverted
    rw [gives_pure_iff.1 hMade, hSpan, slice_of_drop hAt, (returns_convertLod t ls inner b).gives_iff.1 hText]
    refine ⟨rfl, ?_⟩
    have hLeading := leading_of_drop (l := r.opening) hAt
    simp only [Replacement.verbatim, hLeading]
    exact .made hBlock hFilled hConverted

/-! ## Derived rows -/

/-- The second row is the first with blocks swapped, and then conditionals. In such rows table
calculations are found. -/
inductive Derived (t : Target) : List Lexeme → List Lexeme → Prop
  | refl (ls : List Lexeme) : Derived t ls ls
  | lods {room : Nat} {ls ls' : List Lexeme} (h : Replaced (LodSwap t room) ls ls') :
      Derived t ls ls'
  | conditionals {room : Nat} {ls mid ls' : List Lexeme} (h : Derived t ls mid)
      (hSwaps : Replaced (ConditionalSwap t room) mid ls') : Derived t ls ls'

/-- A run of a derived row derives from a run of the row. -/
theorem Derived.of_part {t : Target} {ls ls' : List Lexeme} (h : Derived t ls ls')
    {part : List Lexeme} (hPart : part <:+: ls') : ∃ source, source <:+: ls ∧ Derived t source part := by
  induction h generalizing part with
  | refl => exact ⟨part, hPart, .refl part⟩
  | lods h =>
    obtain ⟨source, hSource, hSwaps⟩ := h.of_part (by rintro _ _ ⟨⟩; exact ⟨_, rfl⟩) hPart
    exact ⟨source, hSource, .lods hSwaps⟩
  | conditionals _ hSwaps ih =>
    obtain ⟨mid, hMid, hSwapped⟩ := hSwaps.of_part (by rintro _ _ ⟨⟩; exact ⟨_, rfl⟩) hPart
    obtain ⟨source, hSource, hDerived⟩ := ih hMid
    exact ⟨source, hSource, .conditionals hDerived hSwapped⟩

theorem derived_of_spliced {t : Target} {room room' : Nat} {ls mid ls' : List Lexeme}
    (hLods : Gives (spliceLods t room ls) mid)
    (hConditionals : Gives (spliceConditionals t room' mid) ls') : Derived t ls ls' := by
  cases room with
  | zero => exact absurd hLods (not_gives_failure _)
  | succ room =>
    cases room' with
    | zero => exact absurd hConditionals (not_gives_failure _)
    | succ room' =>
      exact .conditionals (.lods (replaced_spliceLods hLods)) (replaced_spliceConditionals hConditionals)

end DaxMigration.Dax
