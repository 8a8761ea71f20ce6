import DaxMigration.Proofs.Dax.Counting

/-!
# Counting again

What an unclosed reference takes in is counted as a text of its own, where again a reference may be
unclosed. A text has at most one such reference, and that is its last lexeme. So one count calls for
at most one other, of a text that begins behind a square bracket: the counts are a chain with no
more calls than there are opening square brackets.
-/

namespace DaxMigration.Dax

open Formula Text

/-! ## What is counted again -/

/-- What a reference takes in that is not written with a closing bracket. -/
def takenIn? (l : Lexeme) : Option (List Char) :=
  match l.token with
  | .field name => if isClosedField l name then none else some l.text.tail
  | _ => none

def recounted (cs : List Char) : List (List Char) :=
  (tokenize cs).filterMap takenIn?

theorem takenIn?_of_terminated {l : Lexeme} (h : l.token.isField = true → l.isTerminated = true) :
    takenIn? l = none := by
  obtain ⟨token, text, leading⟩ := l
  cases token with
  | field name => exact if_pos (h rfl)
  | _ => rfl

theorem takenIn?_of_unclosed {l : Lexeme} (h : Unclosed ']' l) : takenIn? l = some l.text.tail := by
  have hOpen := h.isTerminated
  obtain ⟨name, hToken, -⟩ := h.exists_field
  rw [Lexeme.isTerminated, hToken] at hOpen
  have hNotClosed : isClosedField l name = false := hOpen
  simp [takenIn?, hToken, hNotClosed]

/-- Either all references of a text are closed, or the last lexeme alone is one that is not. -/
theorem recounted_cases (cs : List Char) :
    ClosesFields cs ∧ recounted cs = [] ∨
      ∃ before l, tokenize cs = before ++ [l] ∧ (∀ m ∈ before, m.isTerminated = true) ∧
        Unclosed ']' l ∧ recounted cs = [l.text.tail] := by
  by_cases hClosed : ClosesFields cs
  · refine .inl ⟨hClosed, List.filterMap_eq_nil_iff.2 fun l hl => ?_⟩
    exact takenIn?_of_terminated (hClosed l hl)
  · obtain ⟨l, hl, hField, hOpen⟩ := by simpa [ClosesFields] using hClosed
    obtain ⟨before, hSplit, hBefore, hUnclosed⟩ := tokenize_of_open_field hl hField hOpen
    have hFront : before.filterMap takenIn? = [] :=
      List.filterMap_eq_nil_iff.2 fun m hm => takenIn?_of_terminated fun _ => hBefore m hm
    refine .inr ⟨before, l, hSplit, hBefore, hUnclosed, ?_⟩
    rw [recounted, hSplit, List.filterMap_append, hFront, List.filterMap_cons,
      takenIn?_of_unclosed hUnclosed]
    rfl

theorem length_recounted_le (cs : List Char) : (recounted cs).length ≤ 1 := by
  rcases recounted_cases cs with ⟨-, hNone⟩ | ⟨_, l, -, -, -, hOne⟩
  · rw [hNone]
    exact Nat.zero_le 1
  · rw [hOne]
    exact le_rfl

/-- What is counted again is the end of the text behind a square bracket. -/
theorem suffix_of_mem_recounted {cs d : List Char} (h : d ∈ recounted cs) : '[' :: d <:+ cs := by
  rcases recounted_cases cs with ⟨-, hNone⟩ | ⟨before, l, hSplit, -, hUnclosed, hOne⟩
  · rw [hNone] at h
    cases h
  · rw [hOne, List.mem_singleton] at h
    obtain ⟨name, -, hText⟩ := hUnclosed.exists_field
    have hWhole : '[' :: d = l.text := by rw [h, hText, List.tail_cons]
    rw [hWhole]
    exact suffix_of_unclosed hSplit hUnclosed

theorem count_lt_of_suffix {c : Char} {cs d : List Char} (h : c :: d <:+ cs) :
    d.count c < cs.count c := by
  have hLess := h.sublist.count_le c
  rw [List.count_cons_self] at hLess
  exact hLess

/-! ## The chain of counts -/

/-- What the count of a text adds by itself: its parentheses, its stray square brackets, and one for
each reference that is not closed. -/
def ownTally (cs : List Char) : Tally :=
  rowTally (tokenize cs) + ⟨0, (recounted cs).length⟩

/-- A count calls for just the counts of what its unclosed references take in. -/
theorem tally_eq_recounted (cs : List Char) :
    tally cs = (recounted cs).foldl (fun acc d => acc + tally d) (ownTally cs) := by
  rcases recounted_cases cs with ⟨hClosed, hNone⟩ | ⟨before, l, hSplit, hBefore, hUnclosed, hOne⟩
  · rw [tally_of_closed hClosed, ownTally, hNone, Tally.eq_iff]
    simp
  · have hLast : rowTally [l] = .zero := by
      obtain ⟨hLiteral, name, leading⟩ := hUnclosed
      cases hLiteral
      rfl
    rw [tally_of_unclosed hSplit hUnclosed hBefore, ownTally, hOne, hSplit, rowTally_append, hLast,
      Tally.eq_iff]
    simp [Tally.zero]

/-- The texts that are counted for one: itself, and each that is taken in by the one before. -/
inductive CountChain : List Char → List (List Char) → Prop
  | last {cs : List Char} (hNone : recounted cs = []) : CountChain cs [cs]
  | more {cs d : List Char} {ds : List (List Char)} (hOne : recounted cs = [d])
      (hRest : CountChain d ds) : CountChain cs (cs :: ds)

theorem CountChain.length_le {cs : List Char} {ds : List (List Char)} (h : CountChain cs ds) :
    ds.length ≤ cs.count '[' + 1 := by
  induction h with
  | last => simp
  | @more cs d ds hOne _ ih =>
    have hFewer := count_lt_of_suffix (suffix_of_mem_recounted (by rw [hOne]; simp : d ∈ recounted cs))
    rw [List.length_cons]
    omega

theorem foldl_add_ownTally (acc : Tally) (ds : List (List Char)) :
    ds.foldl (fun acc d => acc + ownTally d) acc =
      acc + ds.foldl (fun acc d => acc + ownTally d) .zero := by
  induction ds generalizing acc with
  | nil =>
    rw [Tally.eq_iff]
    simp [Tally.zero]
  | cons d ds ih =>
    rw [List.foldl_cons, List.foldl_cons, ih, ih (.zero + ownTally d), Tally.eq_iff]
    simp only [Tally.parens_add, Tally.brackets_add, Tally.zero]
    omega

theorem CountChain.tally_eq {cs : List Char} {ds : List (List Char)} (h : CountChain cs ds) :
    tally cs = ds.foldl (fun acc d => acc + ownTally d) .zero := by
  induction h with
  | @last cs hNone =>
    rw [tally_eq_recounted, hNone, Tally.eq_iff]
    simp [Tally.zero]
  | @more cs d ds hOne _ ih =>
    rw [tally_eq_recounted, hOne, List.foldl_cons, List.foldl_nil, List.foldl_cons,
      foldl_add_ownTally, ih, Tally.eq_iff]
    simp [Tally.zero]

/-- Every count comes to an end. -/
theorem exists_countChain (cs : List Char) : ∃ ds, CountChain cs ds := by
  induction hn : cs.length using Nat.strongRecOn generalizing cs with
  | ind n ih =>
    subst hn
    rcases recounted_cases cs with ⟨-, hNone⟩ | ⟨_, l, -, -, -, hOne⟩
    · exact ⟨[cs], .last hNone⟩
    · have hSuffix := suffix_of_mem_recounted (by rw [hOne]; simp : l.text.tail ∈ recounted cs)
      obtain ⟨ds, hRest⟩ := ih _ hSuffix.length_le _ rfl
      exact ⟨cs :: ds, .more hOne hRest⟩

/-- A reference is not written as its name is, if and only if it is the last lexeme and reaches to the
end of the text with all its closing brackets doubled. -/
theorem text_ne_bracketed_iff {cs name : List Char} {before after : List Lexeme} {l : Lexeme}
    (hSplit : tokenize cs = before ++ l :: after) (hToken : l.token = .field name) :
    l.text ≠ bracketed name ↔
      after = [] ∧ l.text = '[' :: double ']' name ∧ l.text <:+ cs := by
  constructor
  · intro hText
    have hMem : l ∈ tokenize cs := by
      rw [hSplit]
      exact List.mem_append_right _ List.mem_cons_self
    have hOpen : l.isTerminated = false := by
      rw [Lexeme.isTerminated, hToken]
      exact beq_eq_false_iff_ne.2 hText
    obtain ⟨front, hLast, hFront, hUnclosed⟩ := tokenize_of_open_field hMem (by rw [hToken]; rfl) hOpen
    have hNone : after = [] := by
      rcases List.eq_nil_or_concat after with hNone | ⟨between, m, hAfter⟩
      · exact hNone
      · -- behind it, the last lexeme would be the same one, and it would stand among those in front
        rw [hSplit, hAfter, List.concat_eq_append, ← List.cons_append, ← List.append_assoc] at hLast
        obtain ⟨hBefore, -⟩ := List.append_inj' hLast rfl
        have hClosed := hFront l (by rw [← hBefore]; simp)
        rw [hOpen] at hClosed
        cases hClosed
    subst hNone
    obtain ⟨content, hField, hOpened⟩ := hUnclosed.exists_field
    obtain rfl : name = content := Token.field.inj (hToken.symm.trans hField)
    exact ⟨rfl, hOpened, suffix_of_unclosed hSplit hUnclosed⟩
  · rintro ⟨-, hText, -⟩ hSame
    have hLength := congrArg List.length (hText.symm.trans hSame)
    simp [bracketed] at hLength

/-- The count of a text is one finite chain: at most one reference of the text is not closed, the one
that reaches to its end; what it takes in is counted again, a shorter text with fewer square brackets;
and no count is without an end, or longer than there are opening square brackets. -/
theorem tally_chain (cs : List Char) :
    (∀ before l after name, tokenize cs = before ++ l :: after → l.token = .field name →
      (l.text ≠ bracketed name ↔
        after = [] ∧ l.text = '[' :: double ']' name ∧ l.text <:+ cs)) ∧
    (recounted cs).length ≤ 1 ∧
    (∀ d ∈ recounted cs, '[' :: d <:+ cs ∧ d.length < cs.length ∧ d.count '[' < cs.count '[') ∧
    tally cs = (recounted cs).foldl (fun acc d => acc + tally d) (ownTally cs) ∧
    ∃ ds, CountChain cs ds ∧ ds.length ≤ cs.count '[' + 1 ∧
      tally cs = ds.foldl (fun acc d => acc + ownTally d) .zero := by
  refine ⟨fun before l after name hSplit hToken => text_ne_bracketed_iff hSplit hToken,
    length_recounted_le cs, fun d hd => ?_, tally_eq_recounted cs, ?_⟩
  · have hSuffix := suffix_of_mem_recounted hd
    exact ⟨hSuffix, hSuffix.length_le, count_lt_of_suffix hSuffix⟩
  · obtain ⟨ds, hChain⟩ := exists_countChain cs
    exact ⟨ds, hChain, hChain.length_le, hChain.tally_eq⟩

/-- An unclosed reference behind a closed one, and in what it takes in another. -/
theorem tally_chain_nested :
    let cs := "([x] + [[y]]z".toList
    let ls := tokenize cs
    ls.length = 4 ∧ (∃ l ∈ ls.getLast?, l.token = .field "[y]z".toList ∧
        l.text ≠ bracketed "[y]z".toList ∧ l.text <:+ cs) ∧
      recounted cs = ["[y]]z".toList] ∧ "[y]]z".toList.count '[' < cs.count '[' ∧
      recounted "[y]]z".toList = ["y]]z".toList] ∧ recounted "y]]z".toList = [] ∧
      tally cs = ⟨1, 0⟩ ∧ ∃ ds, CountChain cs ds ∧ ds.length ≤ 4 := by
  intro cs ls
  obtain ⟨hOpen, -, hAgain, -, ds, hChain, hLength, -⟩ := tally_chain cs
  let l : Lexeme := ⟨.field "[y]z".toList, "[[y]]z".toList, [' ']⟩
  have hSplit : ls = ls.take 3 ++ l :: [] := by decide +kernel
  have hText : l.text ≠ bracketed "[y]z".toList := by decide +kernel
  have hSuffix := ((hOpen (ls.take 3) l [] _ hSplit rfl).1 hText).2.2
  have hOne : recounted cs = ["[y]]z".toList] := by decide +kernel
  have hFewer := (hAgain "[y]]z".toList (by rw [hOne]; simp)).2.2
  refine ⟨by decide +kernel, ⟨l, by decide +kernel, rfl, hText, hSuffix⟩, hOne, hFewer,
    by decide +kernel, by decide +kernel, by decide +kernel, ds, hChain, ?_⟩
  exact hLength

end DaxMigration.Dax
