import DaxMigration.Proofs.Dax.Fluency
import DaxMigration.Proofs.Dax.Swaps

/-!
# What splicing preserves

A spliced row has its brackets, commas and operators where the row had them, and what holds of
converted texts holds of its new lexemes. Both inductions on the room left are made here once, for
every property of texts that the standard rules and generated calls have.
-/

namespace DaxMigration.Dax

open Formula Text

structure Preserved (signs : Bool) (P : Lexeme → Prop) (ls ls' : List Lexeme) : Prop where
  lexemes : ∀ l ∈ ls', P l
  chain : ∀ before after, (before ++ ls ++ after).IsChain (Meets signs) →
    (before ++ ls' ++ after).IsChain (Meets signs)
  level : ∀ depth, level depth (ls'.map Lexeme.token) = level depth (ls.map Lexeme.token)
  separators : ∀ depth, separators (· == .comma) depth (ls'.map Lexeme.token) ≤
    separators (· == .comma) depth (ls.map Lexeme.token)
  filled : ls' = [] → ls = []

structure Neutral (signs : Bool) (P : Lexeme → Prop) (run made : List Lexeme) : Prop where
  lexemes : ∀ l ∈ made, P l
  chain : ∀ before after, (before ++ run ++ after).IsChain (Meets signs) →
    (before ++ made ++ after).IsChain (Meets signs)
  balanced : Balanced run
  slot : IsSlot made
  filled : made ≠ []

variable {signs : Bool} {P : Lexeme → Prop} {ls ls' : List Lexeme}

theorem separators_of_isSlot (h : IsSlot ls) (depth : Nat) :
    separators (· == .comma) depth (ls.map Lexeme.token) = 0 := by
  cases depth with
  | zero => exact h.unparted
  | succ depth => exact separators_deep (h.balanced.level_eq depth)

theorem level_of_replaced (h : Replaced (Neutral signs P) ls ls') (depth : Nat) :
    level depth (ls'.map Lexeme.token) = level depth (ls.map Lexeme.token) := by
  induction h generalizing depth with
  | nil => rfl
  | keep l _ ih => simp only [List.map_cons, level, ih]
  | swap hSwap _ ih =>
    rw [List.map_append, List.map_append, level_append, level_append,
      hSwap.slot.balanced.level_eq, hSwap.balanced.level_eq]
    exact ih depth

theorem separators_of_replaced (h : Replaced (Neutral signs P) ls ls') (depth : Nat) :
    separators (· == .comma) depth (ls'.map Lexeme.token) ≤
      separators (· == .comma) depth (ls.map Lexeme.token) := by
  induction h generalizing depth with
  | nil => exact le_rfl
  | keep l _ ih =>
    simp only [List.map_cons, separators]
    have hUp := ih (depth + 1)
    have hDown := ih (depth - 1)
    have hHere := ih depth
    split_ifs <;> omega
  | swap hSwap _ ih =>
    rw [List.map_append, List.map_append, separators_append (hSwap.slot.balanced.level_eq depth),
      separators_append (hSwap.balanced.level_eq depth), separators_of_isSlot hSwap.slot]
    have hHere := ih depth
    omega

theorem preserved_of_replaced (h : Replaced (Neutral signs P) ls ls') (hAll : ∀ l ∈ ls, P l) :
    Preserved signs P ls ls' where
  lexemes := h.all (fun hSwap _ => hSwap.lexemes) hAll
  chain := h.isChain fun hSwap => hSwap.chain
  level := level_of_replaced h
  separators := separators_of_replaced h
  filled := h.eq_nil fun hSwap => hSwap.filled

theorem Preserved.isSlot (h : Preserved signs P ls ls') (hSlot : IsSlot ls) : IsSlot ls' where
  balanced := (h.level 0).trans hSlot.balanced
  unparted := by
    have hNone := h.separators 0
    rw [hSlot.unparted] at hNone
    exact Nat.le_zero.1 hNone

theorem Preserved.flanked (h : Preserved signs P ls ls') (hFlanked : Flanked signs ls) :
    Flanked signs ls' := by
  have hEnclosed := hFlanked.enclosed (x := openSign) (y := closeSign) rfl rfl
  have hBoth := h.chain [openSign] [closeSign] (by simpa using hEnclosed)
  exact flanked_of_enclosed (by simpa using hBoth) rfl rfl

theorem Preserved.isChain (h : Preserved signs P ls ls') (hChain : ls.IsChain (Meets signs)) :
    ls'.IsChain (Meets signs) := by
  simpa using h.chain [] [] (by simpa using hChain)

theorem Preserved.trans {ls'' : List Lexeme} (h : Preserved signs P ls ls')
    (h' : Preserved signs P ls' ls'') : Preserved signs P ls ls'' where
  lexemes := h'.lexemes
  chain before after := h'.chain before after ∘ h.chain before after
  level depth := (h'.level depth).trans (h.level depth)
  separators depth := (h'.separators depth).trans (h.separators depth)
  filled := h.filled ∘ h'.filled

theorem Preserved.refl (hAll : ∀ l ∈ ls, P l) : Preserved signs P ls ls :=
  ⟨hAll, fun _ _ => id, fun _ => rfl, fun _ => le_rfl, id⟩

/-- Spliced text takes the place of any run. -/
theorem isChain_verbatim {before run after : List Lexeme} (text leading : List Char)
    (h : (before ++ run ++ after).IsChain (Meets signs)) :
    (before ++ [Lexeme.verbatim text leading] ++ after).IsChain (Meets signs) := by
  obtain ⟨hFirst, hAfter, -⟩ := List.isChain_append.1 h
  have hBefore := (List.isChain_append.1 hFirst).1
  have hLeft : (before ++ [Lexeme.verbatim text leading]).IsChain (Meets signs) := by
    refine List.isChain_append.2 ⟨hBefore, .singleton _, fun l _ m hm => ?_⟩
    obtain rfl : Lexeme.verbatim text leading = m := by simpa using hm
    exact ⟨fun hJoint => (nomatch hJoint), fun _ => rfl⟩
  refine List.isChain_append.2 ⟨hLeft, hAfter, fun l hl m _ => ?_⟩
  obtain rfl : Lexeme.verbatim text leading = l := by simpa using hl
  exact ⟨fun _ => rfl, fun hJoint => (nomatch hJoint)⟩

theorem neutral_verbatim {run : List Lexeme} {text leading : List Char}
    (hText : P (Lexeme.verbatim text leading)) (hBalanced : Balanced run) :
    Neutral signs P run [Lexeme.verbatim text leading] where
  lexemes := by simpa using hText
  chain _ _ := isChain_verbatim text leading
  balanced := hBalanced
  slot := ⟨rfl, rfl⟩
  filled := by simp

/-! ## Converted texts -/

/-- The texts have `X`, where lexemes have `P` and rows that are converted have `S`. -/
structure Sustains (t : Target) (signs : Bool) (P : Lexeme → Prop) (X : List Char → Prop)
    (S : List Lexeme → Prop) : Prop where
  comment {l : Lexeme} (h : P l) : l.isComment = false
  blank {l : Lexeme} (h : P l) : allBlank l.leading = true
  verbatim {text leading : List Char} (hText : X text) (hMarks : inked text ≠ [])
    (hBlank : allBlank leading = true) : P (Lexeme.verbatim text leading)
  slot {ls : List Lexeme} (h : IsSlot ls) : S ls
  kept {ls ls' : List Lexeme} (h : Preserved signs P ls ls') (hRow : S ls) : S ls'
  standard {ls : List Lexeme} (hAll : ∀ l ∈ ls, P l) (hFlanked : Flanked signs ls) (hRow : S ls) :
    X (standard t ls) ∧ (ls ≠ [] → inked (standard t ls) ≠ [])
  call {name : String} (hName : name ∈ generatedFunctions) {texts : List (List Char)}
    (h : ∀ u ∈ texts, X u) : X (callText name texts)
  texts : ∀ u ∈ [t.tableText, t.orderText, t.upToHere, [], "ASC".toList], X u
  column (d : List Char) : X (t.column d)
  conditionals {room : Nat} {ls ls' : List Lexeme} (hAll : ∀ l ∈ ls, P l)
    (hChain : ls.IsChain (Meets signs)) (h : Gives (spliceConditionals t room ls) ls') :
    Preserved signs P ls ls'

theorem fluent_texts (signs : Bool) (t : Target) :
    ∀ u ∈ [t.tableText, t.orderText, t.upToHere, [], "ASC".toList], Fluent signs u := by
  have hOrder : Fluent signs t.orderText := (apt_column signs t t.orderColumn).fluent
  have hEarlier : Fluent signs (callText "EARLIER" [t.orderText]) :=
    fluent_callText (by decide) (by simpa using hOrder)
  have hTest : Fluent signs " <= ".toList := fluent_of_plain signs (by decide)
  have hAscending : Fluent signs "ASC".toList := fluent_of_plain signs (by decide)
  have hEmpty : Fluent signs [] := fluent_of_blank signs rfl
  have hUpToHere : Fluent signs t.upToHere := (hOrder.append hTest).append hEarlier
  have hTable : Fluent signs t.tableText := (apt_tableRef signs t.table).fluent
  simp only [List.forall_mem_cons]
  exact ⟨hTable, hOrder, hUpToHere, hEmpty, hAscending, by simp⟩

def BodiesHave (S : List Lexeme → Prop) (ls : List Lexeme) : Prop :=
  ∀ r : BlockRun, r.IsBlock → (∃ l ∈ r.inner, l.isComment = false) → r.lexemes <:+: ls → S r.inner

theorem BodiesHave.within {S : List Lexeme → Prop} {ls ms : List Lexeme} (h : BodiesHave S ls)
    (hWithin : ms <:+: ls) : BodiesHave S ms :=
  fun r hBlock hFilled hRun => h r hBlock hFilled (hRun.trans hWithin)

theorem marks_callText {name : String} (hName : name ∈ generatedFunctions)
    (texts : List (List Char)) : inked (callText name texts) ≠ [] := by
  have hAll : ∀ name ∈ generatedFunctions, inked name.toList ≠ [] := by decide
  rw [callText, List.append_assoc, inked_append]
  exact fun hEmpty => hAll name hName (List.append_eq_nil_iff.1 hEmpty).1

variable {t : Target} {X : List Char → Prop} {S : List Lexeme → Prop}

section

variable (hSustains : Sustains t signs P X S)

include hSustains

/-- A row converted after the table calculations in it, where these preserve it. -/
theorem Sustains.convertArgument {room : Nat}
    (ih : ∀ {ls ls' : List Lexeme}, (∀ l ∈ ls, P l) → ls.IsChain (Meets signs) →
      Gives (spliceTableCalcs t room ls) ls' → Preserved signs P ls ls')
    (hAll : ∀ l ∈ ls, P l) (hFlanked : Flanked signs ls) (hRow : S ls) {text : List Char}
    (h : Gives (convertArgument t room ls) text) : X text ∧ (ls ≠ [] → inked text ≠ []) := by
  obtain ⟨spliced, hSpliced, hText⟩ := h.of_bind
  rw [gives_standardRemarked hText]
  have hPreserved := ih hAll hFlanked.chain hSpliced
  obtain ⟨hStandard, hMarks⟩ := hSustains.standard hPreserved.lexemes (hPreserved.flanked hFlanked)
    (hSustains.kept hPreserved hRow)
  exact ⟨hStandard, fun hFilled => hMarks fun hEmpty => hFilled (hPreserved.filled hEmpty)⟩

theorem Sustains.neutral_tableSwap {room : Nat}
    (ih : ∀ {ls ls' : List Lexeme}, (∀ l ∈ ls, P l) → ls.IsChain (Meets signs) →
      Gives (spliceTableCalcs t room ls) ls' → Preserved signs P ls ls')
    {run made : List Lexeme} (hAll : ∀ l ∈ run, P l) (hChain : run.IsChain (Meets signs))
    (h : TableSwap t room run made) : Neutral signs P run made := by
  cases h with
  | @made r name function rows shape hCall hListed hSlots hShape =>
    have hFlanked := hListed.flanked hChain.tail (by rw [hCall.opening]; rfl) (by rw [hCall.closing]; rfl)
    have hTexts : ∀ row ∈ rows, ∀ e, Gives (Dax.convertArgument t room row) e → X e := by
      intro row hRow e hGives
      have hLexemes : ∀ l ∈ row, P l := fun l hl =>
        hAll l (by simp [CallRun.lexemes, hListed.mem hRow hl])
      exact (hSustains.convertArgument ih hLexemes (hFlanked row hRow)
        (hSustains.slot (hSlots row hRow)) hGives).1
    have hWritten := (hShape.all hTexts hSustains.texts).written fun name hName texts hAll =>
      hSustains.call hName hAll
    have hMarks : inked shape.written ≠ [] := by
      cases hShape <;> exact marks_callText (by decide) _
    have hBlank := hSustains.blank (hAll r.first (by simp [CallRun.lexemes]))
    exact neutral_verbatim (hSustains.verbatim hWritten hMarks hBlank) hCall.isSlot.balanced
  | @kept r name inner hCall hInner =>
    have hLexemes : ∀ l ∈ r.inner, P l := fun l hl => hAll l (by simp [CallRun.lexemes, hl])
    have hInnerChain : r.inner.IsChain (Meets signs) :=
      (List.isChain_append.1 hChain.tail.tail).1
    have hPreserved := ih hLexemes hInnerChain hInner
    have hMade : { r with inner := inner }.IsCall name :=
      ⟨hCall.first, hCall.opening, (hPreserved.level 0).trans hCall.balanced, hCall.closing⟩
    refine ⟨?_, ?_, hCall.isSlot.balanced, hMade.isSlot, by simp [CallRun.lexemes]⟩
    · intro l hl
      simp only [CallRun.lexemes, List.mem_cons, List.mem_append, List.not_mem_nil, or_false] at hl
      rcases hl with rfl | rfl | hl | rfl
      · exact hAll _ (by simp [CallRun.lexemes])
      · exact hAll _ (by simp [CallRun.lexemes])
      · exact hPreserved.lexemes l hl
      · exact hAll _ (by simp [CallRun.lexemes])
    · intro before after hAround
      have hThis := hPreserved.chain (before ++ [r.first, r.opening]) (r.closing :: after)
        (by simpa [CallRun.lexemes] using hAround)
      simpa [CallRun.lexemes] using hThis

/-- Splicing table calculations preserves a row. -/
theorem Sustains.spliceTableCalcs {room : Nat} (hAll : ∀ l ∈ ls, P l)
    (hChain : ls.IsChain (Meets signs)) (h : Gives (spliceTableCalcs t room ls) ls') :
    Preserved signs P ls ls' := by
  induction room generalizing ls ls' with
  | zero => exact absurd h (not_gives_failure _)
  | succ room ih =>
    have hReplaced := replaced_spliceTableCalcs (fun l hl => hSustains.comment (hAll l hl)) h
    refine preserved_of_replaced (hReplaced.within.mono ?_) hAll
    rintro run made ⟨hSwap, hWithin⟩
    exact hSustains.neutral_tableSwap ih (fun l hl => hAll l (hWithin.subset hl))
      (isChain_within hChain hWithin) hSwap

/-- The converted text of a row, where splicing its blocks preserves it. -/
theorem Sustains.convertInner {room : Nat}
    (ih : ∀ {ls'}, Gives (Dax.spliceLods t room ls) ls' → Preserved signs P ls ls')
    (hFlanked : Flanked signs ls) (hRow : S ls) {text : List Char}
    (h : Gives (convertInner t room ls) text) : X text ∧ (ls ≠ [] → inked text ≠ []) := by
  obtain ⟨first, hFirst, h⟩ := h.of_bind
  obtain ⟨second, hSecond, h⟩ := h.of_bind
  have hLods := ih hFirst
  have hConditionals := hSustains.conditionals hLods.lexemes (hLods.isChain hFlanked.chain) hSecond
  have hBoth := hLods.trans hConditionals
  obtain ⟨hText, hMarks⟩ := hSustains.convertArgument hSustains.spliceTableCalcs hBoth.lexemes
    (hBoth.flanked hFlanked) (hSustains.kept hBoth hRow) h
  exact ⟨hText, fun hFilled => hMarks fun hEmpty => hFilled (hBoth.filled hEmpty)⟩

theorem Sustains.neutral_lodSwap {room : Nat}
    (ih : ∀ {ls ls' : List Lexeme}, (∀ l ∈ ls, P l) → ls.IsChain (Meets signs) → BodiesHave S ls →
      Gives (Dax.spliceLods t room ls) ls' → Preserved signs P ls ls')
    {run made : List Lexeme} (hAll : ∀ l ∈ run, P l) (hChain : run.IsChain (Meets signs))
    (hBodies : BodiesHave S run) (h : LodSwap t room run made) : Neutral signs P run made := by
  cases h with
  | @made r inner keyword names hBlock hFilled hInner =>
    have hBody : r.inner <:+: r.lexemes :=
      ⟨r.opening :: r.head, [r.closing], by simp [BlockRun.lexemes]⟩
    have hFlanked := hBlock.flanked hChain
    obtain ⟨hText, hMarks⟩ := hSustains.convertInner
      (ih (fun l hl => hAll l (hBody.subset hl)) hFlanked.chain (hBodies.within hBody))
      hFlanked (hBodies r hBlock hFilled (List.infix_refl _)) hInner
    have hShape := all_lodShape hText (hSustains.texts _ List.mem_cons_self) hSustains.column
      keyword names
    have hWritten := hShape.written fun name hName texts hAll => hSustains.call hName hAll
    have hInked : inked (lodShape t inner keyword names).written ≠ [] := by
      obtain ⟨l, hl, -⟩ := hFilled
      have hInner := hMarks (List.ne_nil_of_mem hl)
      cases keyword <;> cases names <;>
        first | exact hInner | exact marks_callText (by decide) _
    have hBlank := hSustains.blank (hAll r.opening (by simp [BlockRun.lexemes]))
    exact neutral_verbatim (hSustains.verbatim hWritten hInked hBlank) hBlock.isSlot.balanced

/-- Splicing level-of-detail blocks preserves a row in which all their expressions may be
converted. -/
theorem Sustains.spliceLods {room : Nat} (hAll : ∀ l ∈ ls, P l) (hChain : ls.IsChain (Meets signs))
    (hBodies : BodiesHave S ls) (h : Gives (spliceLods t room ls) ls') :
    Preserved signs P ls ls' := by
  induction room generalizing ls ls' with
  | zero => exact absurd h (not_gives_failure _)
  | succ room ih =>
    refine preserved_of_replaced ((replaced_spliceLods h).within.mono ?_) hAll
    rintro run made ⟨hSwap, hWithin⟩
    exact hSustains.neutral_lodSwap ih (fun l hl => hAll l (hWithin.subset hl))
      (isChain_within hChain hWithin) (hBodies.within hWithin) hSwap

end

end DaxMigration.Dax
