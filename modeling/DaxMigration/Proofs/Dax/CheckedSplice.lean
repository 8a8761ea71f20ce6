import DaxMigration.Proofs.Dax.DivisionLoop
import DaxMigration.Proofs.Dax.Swaps

/-!
# Checked splicing

The replacement of constructs with every slice, element and recursive call checked. The bounds of
recognized constructs hold for every list, so no check fails, neither on a formula however malformed
nor on a row with text spliced into it.
-/

namespace DaxMigration.Dax

open Formula Text

def checkedStandard (t : Target) (ls : List Lexeme) : Checked (List Char) := do
  modify (· ++ (unsupportedCalls t ls).map .unsupported)
  return trim (← checkedDivision (qualify t none (normalize (mapFunctions t ls))))

/-- Converted text in place of a span of which the first lexeme is read. -/
def checkedVerbatim (ls : List Lexeme) (span : Span) (text : List Char) : Checked Replacement := do
  let first ← checkedElement ls span.start
  return ⟨span, [.verbatim text first.leading]⟩

/-- The loop over the replacements: what stands between two of them is kept, and each ends behind the
one before. -/
def checkedReplace (ls : List Lexeme) : (cursor : Nat) → List Replacement → Checked (List Lexeme)
  | cursor, [] => checkedSlice ls ⟨cursor, ls.length⟩
  | cursor, r :: rest => do
    let kept ← checkedSlice ls ⟨cursor, r.span.start⟩
    checkLess cursor r.span.stop
    return kept ++ r.lexemes ++ (← checkedReplace ls r.span.stop rest)

def checkedConditionals (t : Target) : (room : Nat) → List Lexeme → Checked (List Lexeme)
  | 0, _ => throw .tooDeep
  | room + 1, ls => do
    let branch (s : Span) : Checked (List Char) := do
      return qualified t (← checkedConditionals t room (← shorterSlice ls s))
    let replacements ← (conditionals ls).mapM fun c => do
      checkedVerbatim ls c.span (← convertConditional branch c)
    checkedReplace ls 0 replacements

def checkedTableCalcs (t : Target) : (room : Nat) → List Lexeme → Checked (List Lexeme)
  | 0, _ => throw .tooDeep
  | room + 1, ls => do
    let argument (s : Span) : Checked (List Char) := do
      checkedStandard t (← checkedTableCalcs t room (← shorterSlice ls s))
    let isTableCalc (name : List Char) := (Formula.TableCalc.ofName? name).isSome
    let replacements ← (calls isTableCalc ls).mapM fun call => do
      checkSlices ls call.args
      match ← convertTableCalc t ls argument call with
      | some text => checkedVerbatim ls call.span text
      | none =>
        let opening := (nextSignificant ls (call.span.start + 1)).getD (call.span.start + 1)
        let closing ← checkedPred call.span.stop
        let front ← checkedSlice ls ⟨call.span.start, opening + 1⟩
        let inner ← checkedTableCalcs t room (← shorterSlice ls ⟨opening + 1, closing⟩)
        let last ← checkedElement ls closing
        return ⟨call.span, front ++ inner ++ [last]⟩
    checkedReplace ls 0 replacements

def checkedLodBlocks (ls : List Lexeme) : Checked (List LodBlock) := do
  let opening := (List.range ls.length).filter fun i => tokenAt ls i == some .lbrace
  checkSlices ls (opening.filterMap (lodHeadAt? ls))
  return lodBlocks ls

def checkedLods (t : Target) : (room : Nat) → List Lexeme → Checked (List Lexeme)
  | 0, _ => throw .tooDeep
  | room + 1, ls => do
    let replacements ← (← checkedLodBlocks ls).mapM fun b => do
      let spliced ← checkedLods t room (← shorterSlice ls b.inner)
      checkLess spliced.length ls.length
      let spliced ← checkedConditionals t room spliced
      checkLess spliced.length ls.length
      let spliced ← checkedTableCalcs t room spliced
      let inner ← checkedStandard t spliced
      checkSlices ls b.dimensions
      checkedVerbatim ls b.span (← unstopped (convertLod t ls inner b))
    checkedReplace ls 0 replacements

/-! ## No check fails -/

theorem checkedStandard_eq (t : Target) (ls : List Lexeme) :
    checkedStandard t ls = unstopped (standardRemarked t ls) := by
  rw [checkedStandard, checkedDivision_eq]
  rfl

theorem checkedVerbatim_eq {ls : List Lexeme} {span : Span} (h : span.start < ls.length)
    (text : List Char) :
    checkedVerbatim ls span text = pure (Replacement.verbatim ls span text) := by
  rw [checkedVerbatim, checkedElement_eq h, pure_bind, Replacement.verbatim,
    List.getElem?_eq_getElem h]
  rfl

theorem checkedReplace_eq {ls : List Lexeme} {cursor : Nat} {rs : List Replacement}
    (hCursor : cursor ≤ ls.length) (h : Ordered ls.length cursor (rs.map (·.span))) :
    checkedReplace ls cursor rs = pure (replaceFrom ls cursor rs) := by
  induction rs generalizing cursor with
  | nil =>
    rw [checkedReplace, checkedSlice_eq ⟨hCursor, le_rfl⟩, replaceFrom, Span.slice, List.take_length]
  | cons r rs ih =>
    obtain ⟨hStart, hStop, hLength, hRest⟩ := h
    rw [checkedReplace, checkedSlice_eq ⟨hStart, hStop.le.trans hLength⟩, pure_bind,
      checkLess_eq (lt_of_le_of_lt hStart hStop), pure_bind, ih hLength hRest, pure_bind, replaceFrom]

section Replacing

variable {β : Type} {ls : List Lexeme} {bs : List β} {span : β → Span}
  {convert : β → Splicing Replacement} {checked : β → Checked Replacement}

theorem spans_of_gives_mapM {rs : List Replacement} (h : Gives (bs.mapM convert) rs)
    (hSpan : ∀ b ∈ bs, ∀ r, Gives (convert b) r → r.span = span b) :
    rs.map (·.span) = bs.map span := by
  have hMade := forall₂_imp_mem h.of_mapM hSpan
  clear h hSpan
  induction hMade with
  | nil => rfl
  | cons hFirst _ ih => rw [List.map_cons, List.map_cons, hFirst, ih]

/-- Where the constructs come in order and no check fails in one of them, none does around them. -/
theorem checkedReplacing (hConvert : ∀ b ∈ bs, checked b = unstopped (convert b))
    (hSpan : ∀ b ∈ bs, ∀ r, Gives (convert b) r → r.span = span b)
    (hOrdered : Ordered ls.length 0 (bs.map span)) :
    (bs.mapM checked >>= checkedReplace ls 0) =
      unstopped (bs.mapM convert >>= fun rs => pure (replaceSpans ls rs)) := by
  rw [unstopped_mapM_of hConvert]
  refine unstopped_bind_of fun rs hRs => ?_
  rw [checkedReplace_eq (Nat.zero_le _) (spans_of_gives_mapM hRs hSpan ▸ hOrdered)]
  rfl

end Replacing

theorem shorterSlice_of_inside {ls : List Lexeme} {s : Span} (h : s.Inside ls.length) :
    (shorterSlice ls s : Checked (List Lexeme)) = pure (s.slice ls) :=
  shorterSlice_eq h.within h.length_slice_lt

theorem checkedConditionals_eq (t : Target) (room : Nat) (ls : List Lexeme) :
    checkedConditionals t room ls = unstopped (spliceConditionals t room ls) := by
  induction room generalizing ls with
  | zero => rfl
  | succ room ih =>
    rw [checkedConditionals, spliceConditionals]
    refine checkedReplacing (fun c hc => ?_) (fun c hc r hr => ?_)
      (ordered_of_foundAt (fun i c hFound => (bounded_of_conditionalAt hFound).located) _)
    · obtain ⟨i, -, hFound⟩ := found_of_mem_outermost hc
      have hBounded := bounded_of_conditionalAt hFound
      rw [convertConditional_unstopped (c := c) (fun s hs => ?_), unstopped_bind]
      · refine bind_congr fun text => ?_
        rw [checkedVerbatim_eq hBounded.located.start_lt, unstopped_pure]
      · rw [shorterSlice_of_inside (hBounded.parts s hs), pure_bind, ih, unstopped_bind]
        rfl
    · obtain ⟨text, -, hr⟩ := hr.of_bind
      rw [gives_pure_iff.1 hr]
      rfl

theorem slice_last {ls : List Lexeme} {i stop : Nat} (hStop : stop = i + 1) (h : i < ls.length) :
    (Span.mk i stop).slice ls = [ls[i]] := by
  subst hStop
  exact slice_of_drop (a := [ls[i]]) (List.drop_eq_getElem_cons h)

theorem checkedTableCalcs_eq (t : Target) (room : Nat) (ls : List Lexeme) :
    checkedTableCalcs t room ls = unstopped (spliceTableCalcs t room ls) := by
  induction room generalizing ls with
  | zero => rfl
  | succ room ih =>
    rw [checkedTableCalcs, spliceTableCalcs]
    refine checkedReplacing (fun c hc => ?_) (fun c hc r hr => ?_)
      (ordered_of_foundAt (fun i c hFound => (bounded_of_callAt hFound).located) _)
    · obtain ⟨i, -, hFound⟩ := found_of_mem_outermost hc
      have hBounded := bounded_of_callAt hFound
      have hStart := hBounded.located.start
      rw [checkSlices_eq fun s hs => (hBounded.args s hs).within, pure_bind,
        convertTableCalc_unstopped (fun s hs => ?_), unstopped_bind]
      · refine bind_congr fun result => ?_
        cases result with
        | some text => exact checkedVerbatim_eq hBounded.located.start_lt text
        | none =>
          have hPositive : 0 < c.span.stop := lt_of_le_of_lt (Nat.zero_le i) hBounded.located.advances
          have hClosing : c.span.stop - 1 < ls.length :=
            lt_of_lt_of_le (Nat.pred_lt hPositive.ne') hBounded.located.within
          have hFront : (Span.mk i ((nextSignificant ls (i + 1)).getD (i + 1) + 1)).Within ls.length :=
            ⟨hBounded.opening.trans (Nat.le_succ _),
              hBounded.enclosed.within.1.trans hBounded.enclosed.within.2⟩
          simp only [hStart, checkedPred_eq hPositive, checkedSlice_eq hFront, pure_bind,
            shorterSlice_of_inside hBounded.enclosed, ih, unstopped_bind, checkedElement_eq hClosing,
            slice_last (Nat.sub_add_cancel hPositive).symm hClosing, unstopped_pure]
      · rw [shorterSlice_of_inside (hBounded.args s hs), pure_bind, ih, unstopped_bind]
        exact bind_congr fun spliced => checkedStandard_eq t spliced
    · obtain ⟨result, -, hr⟩ := hr.of_bind
      cases result with
      | some text =>
        rw [gives_pure_iff.1 hr]
        rfl
      | none =>
        obtain ⟨inner, -, hr⟩ := hr.of_bind
        rw [gives_pure_iff.1 hr]

theorem checkedLodBlocks_eq (ls : List Lexeme) : checkedLodBlocks ls = pure (lodBlocks ls) := by
  rw [checkedLodBlocks, checkSlices_eq, pure_bind]
  intro s hs
  obtain ⟨i, hi, hHead⟩ := List.mem_filterMap.1 hs
  exact lodHead_within (by simpa using (List.mem_filter.1 hi).2) hHead

/-! ## Lengths -/

/-- A row in which no run is swapped for a longer one gets no longer. -/
theorem Replaced.length_le {Swap : List Lexeme → List Lexeme → Prop} {old new : List Lexeme}
    (h : Replaced Swap old new) (hSwap : ∀ {run made}, Swap run made → made.length ≤ run.length) :
    new.length ≤ old.length := by
  induction h with
  | nil => exact le_rfl
  | keep l _ ih => simpa using ih
  | swap hThis _ ih =>
    rw [List.length_append, List.length_append]
    exact Nat.add_le_add (hSwap hThis) ih

theorem length_le_of_spliceLods {t : Target} {room : Nat} {ls ls' : List Lexeme}
    (h : Gives (spliceLods t room ls) ls') : ls'.length ≤ ls.length := by
  cases room with
  | zero => exact absurd h (not_gives_failure _)
  | succ room =>
    refine (replaced_spliceLods h).length_le ?_
    rintro _ _ ⟨⟩
    simp [BlockRun.lexemes]

theorem length_le_of_spliceConditionals {t : Target} {room : Nat} {ls ls' : List Lexeme}
    (h : Gives (spliceConditionals t room ls) ls') : ls'.length ≤ ls.length := by
  cases room with
  | zero => exact absurd h (not_gives_failure _)
  | succ room =>
    refine (replaced_spliceConditionals h).length_le ?_
    rintro _ _ ⟨⟩
    simp

/-- What is spliced inside a block is shorter than the row around it at every stage. -/
theorem checkedLods_eq (t : Target) (room : Nat) (ls : List Lexeme) :
    checkedLods t room ls = unstopped (spliceLods t room ls) := by
  induction room generalizing ls with
  | zero => rfl
  | succ room ih =>
    rw [checkedLods, spliceLods, checkedLodBlocks_eq, pure_bind]
    refine checkedReplacing (fun b hb => ?_) (fun b hb r hr => ?_)
      (ordered_of_foundAt (fun i b hFound => (bounded_of_lodAt hFound).located) _)
    · -- Each stage gets the row that the one before has made, which is no longer than the slice.
      obtain ⟨i, -, hFound⟩ := found_of_mem_outermost hb
      have hBounded := bounded_of_lodAt hFound
      have hShorter := hBounded.inner.length_slice_lt
      rw [shorterSlice_of_inside hBounded.inner, pure_bind, ih]
      refine unstopped_bind_of fun lods hLods => ?_
      have hLods := lt_of_le_of_lt (length_le_of_spliceLods hLods) hShorter
      rw [checkLess_eq hLods, pure_bind, checkedConditionals_eq]
      refine unstopped_bind_of fun conditionals hConditionals => ?_
      have hConditionals := lt_of_le_of_lt (length_le_of_spliceConditionals hConditionals) hLods
      rw [checkLess_eq hConditionals, pure_bind]
      simp only [checkedTableCalcs_eq, checkedStandard_eq, checkSlices_eq hBounded.dimensions,
        checkedVerbatim_eq hBounded.located.start_lt, pure_bind, unstopped_bind, unstopped_pure]
    · obtain ⟨lods, -, hr⟩ := hr.of_bind
      obtain ⟨conditionals, -, hr⟩ := hr.of_bind
      obtain ⟨tableCalcs, -, hr⟩ := hr.of_bind
      obtain ⟨inner, -, hr⟩ := hr.of_bind
      obtain ⟨text, -, hr⟩ := hr.of_bind
      rw [gives_pure_iff.1 hr]
      rfl

end DaxMigration.Dax
