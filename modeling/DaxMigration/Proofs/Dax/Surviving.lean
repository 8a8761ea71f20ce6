import DaxMigration.Proofs.Dax.Calls
import DaxMigration.Proofs.Dax.Folding
import DaxMigration.Proofs.Dax.Splicing
import DaxMigration.Proofs.Formula.Conditionals

/-!
# Texts that survive

Trimming takes white space from the ends of a text, and a quotient that becomes a call loses its
sign. Nothing else is lost: every other lexeme without white space at its ends stands in the text
that a row is converted to, and whatever a part of a conditional is converted to stands in the call
that the conditional becomes.
-/

namespace DaxMigration.Dax

open Formula Text

structure Tight (x : List Char) : Prop where
  filled : x ≠ []
  head : ∀ c ∈ x.head?, isBlank c = false
  last : ∀ c ∈ x.getLast?, isBlank c = false

variable {x : List Char}

section

variable (hx : Tight x)

include hx

/-! ## Trimming -/

theorem infix_trimStart {cs : List Char} (h : x <:+: cs) : x <:+: trimStart cs := by
  obtain ⟨before, after, rfl⟩ := h
  obtain ⟨c, tail, rfl⟩ := List.exists_cons_of_ne_nil hx.filled
  have hFirst : isBlank c = false := hx.head c rfl
  induction before with
  | nil =>
    rw [List.nil_append, trimStart, List.cons_append, List.dropWhile_cons_of_neg (by simp [hFirst])]
    exact (List.prefix_append (c :: tail) after).isInfix
  | cons d before ih =>
    rw [trimStart, List.cons_append, List.cons_append]
    cases hBlank : isBlank d with
    | true =>
      rw [List.dropWhile_cons_of_pos hBlank]
      exact ih
    | false =>
      rw [List.dropWhile_cons_of_neg (by simp [hBlank])]
      exact ⟨d :: before, after, by simp⟩

theorem prefix_trimEnd (after : List Char) : x <+: trimEnd (x ++ after) := by
  obtain ⟨hFilled, -, hLast⟩ := hx
  induction x with
  | nil => exact absurd rfl hFilled
  | cons c tail ih =>
    rw [List.cons_append, trimEnd, dropTrailing_cons]
    cases tail with
    | nil =>
      have hKept : isBlank c = false := hLast c rfl
      rw [hKept, Bool.and_false, if_neg (by simp)]
      exact ⟨dropTrailing isBlank after, rfl⟩
    | cons d tail =>
      obtain ⟨rest, hRest⟩ := ih (by simp) (by simpa using hLast)
      rw [trimEnd] at hRest
      rw [← hRest, if_neg (by simp)]
      exact ⟨rest, rfl⟩

theorem infix_trimEnd {cs : List Char} (h : x <:+: cs) : x <:+: trimEnd cs := by
  obtain ⟨before, after, rfl⟩ := h
  rw [List.append_assoc]
  induction before with
  | nil => exact (prefix_trimEnd hx after).isInfix
  | cons d before ih =>
    have hFilled : dropTrailing isBlank (before ++ (x ++ after)) ≠ [] := by
      intro hEmpty
      rw [trimEnd, hEmpty] at ih
      exact hx.filled (List.eq_nil_of_infix_nil ih)
    rw [List.cons_append, trimEnd, dropTrailing_cons, if_neg (by simp [hFilled])]
    exact ih.trans (List.suffix_cons d _).isInfix

theorem infix_trim {cs : List Char} (h : x <:+: cs) : x <:+: trim cs :=
  infix_trimEnd hx (infix_trimStart hx h)

/-! ## Terms -/

omit hx in
theorem infix_flatMap {α : Type} {f : α → List Char} {a : α} {as : List α} (ha : a ∈ as)
    (h : x <:+: f a) : x <:+: as.flatMap f := by
  obtain ⟨before, after, rfl⟩ := List.append_of_mem ha
  rw [List.flatMap_append, List.flatMap_cons]
  exact h.trans ⟨before.flatMap f, after.flatMap f, by rw [List.append_assoc]⟩

omit hx in
theorem infix_written {u : TermUnit} (h : x <:+: u.text) : x <:+: u.written :=
  h.trans (List.suffix_append u.leading u.text).isInfix

omit hx in
theorem infix_join {u : TermUnit} {us : List TermUnit} (hu : u ∈ us) (h : x <:+: u.text) :
    x <:+: join us :=
  infix_flatMap hu (infix_written h)

omit hx in
theorem infix_applyOperator_left {acc : List Char} (h : x <:+: acc) (operator : TermUnit)
    (factor : List TermUnit) : x <:+: applyOperator acc operator factor := by
  simp only [applyOperator]
  split
  · refine h.trans ⟨"DIVIDE(".toList, ", ".toList ++ trim (join factor) ++ ", 0)".toList, ?_⟩
    simp only [List.append_assoc]
  · exact h.trans ⟨[], operator.written ++ join factor, by simp⟩

theorem infix_applyOperator_right (acc : List Char) (operator : TermUnit) {factor : List TermUnit}
    (h : x <:+: join factor) : x <:+: applyOperator acc operator factor := by
  simp only [applyOperator]
  split
  · refine (infix_trim hx h).trans ⟨"DIVIDE(".toList ++ acc ++ ", ".toList, ", 0)".toList, ?_⟩
    simp only [List.append_assoc]
  · exact h.trans ⟨acc ++ operator.written, [], by simp⟩

omit hx in
theorem infix_applyOperator_sign (acc : List Char) {operator : TermUnit} (factor : List TermUnit)
    (hSign : operator.isDivide = false) (h : x <:+: operator.text) :
    x <:+: applyOperator acc operator factor := by
  simp only [applyOperator, hSign, Bool.false_and]
  exact (infix_written h).trans ⟨acc, join factor, by simp⟩

omit hx in
theorem infix_foldl_applyOperator {acc : List Char} (h : x <:+: acc)
    (factors : List (TermUnit × List TermUnit)) :
    x <:+: factors.foldl (fun acc q => applyOperator acc q.1 q.2) acc := by
  induction factors generalizing acc with
  | nil => exact h
  | cons q factors ih => exact ih (infix_applyOperator_left h q.1 q.2)

theorem infix_foldl_of_mem {q : TermUnit × List TermUnit} {factors : List (TermUnit × List TermUnit)}
    (hq : q ∈ factors)
    (h : q.1.isDivide = false ∧ x <:+: q.1.text ∨ x <:+: join q.2) (acc : List Char) :
    x <:+: factors.foldl (fun acc q => applyOperator acc q.1 q.2) acc := by
  obtain ⟨before, after, rfl⟩ := List.append_of_mem hq
  rw [List.foldl_append, List.foldl_cons]
  refine infix_foldl_applyOperator ?_ after
  rcases h with ⟨hSign, hText⟩ | hFactor
  · exact infix_applyOperator_sign _ q.2 hSign hText
  · exact infix_applyOperator_right hx _ q.1 hFactor

omit hx in
/-- The parts of a cut hold everything that was cut. -/
theorem mem_cutAt {p : TermUnit → Bool} {u : TermUnit} {us : List TermUnit} (h : u ∈ us) :
    u ∈ (cutAt p us).1 ∨ ∃ q ∈ (cutAt p us).2, u = q.1 ∨ u ∈ q.2 := by
  induction us with
  | nil => cases h
  | cons v us ih =>
    rw [cutAt]
    rcases List.mem_cons.1 h with rfl | h
    · cases p u with
      | true => exact .inr ⟨_, List.mem_cons_self, .inl rfl⟩
      | false => exact .inl List.mem_cons_self
    · cases p v with
      | true =>
        rcases ih h with hFirst | ⟨q, hq, hu⟩
        · exact .inr ⟨_, List.mem_cons_self, .inr hFirst⟩
        · exact .inr ⟨q, List.mem_cons_of_mem _ hq, hu⟩
      | false =>
        rcases ih h with hFirst | hRest
        · exact .inl (List.mem_cons_of_mem _ hFirst)
        · exact .inr hRest

theorem infix_foldTerm {u : TermUnit} {term : List TermUnit} (hu : u ∈ term)
    (hSign : u.isDivide = false) (h : x <:+: u.text) : x <:+: foldTerm term := by
  rw [foldTerm]
  split
  · refine List.IsInfix.trans ?_ (List.suffix_append _ _).isInfix
    rcases mem_cutAt (p := TermUnit.isOperator) hu with hFirst | ⟨q, hq, rfl | hFactor⟩
    · exact infix_foldl_applyOperator (infix_trim hx (infix_join hFirst h)) _
    · exact infix_foldl_of_mem hx hq (.inl ⟨hSign, h⟩) _
    · exact infix_foldl_of_mem hx hq (.inr (infix_join hFactor h)) _
  · exact infix_join hu h

theorem infix_foldTerms {u : TermUnit} {us : List TermUnit} (hu : u ∈ us)
    (hSign : u.isDivide = false) (h : x <:+: u.text) : x <:+: foldTerms us := by
  rw [foldTerms]
  rcases mem_cutAt (p := TermUnit.isBoundary) hu with hFirst | ⟨q, hq, hPart⟩
  · exact (infix_foldTerm hx hFirst hSign h).trans (List.prefix_append _ _).isInfix
  · refine List.IsInfix.trans ?_ (List.suffix_append _ _).isInfix
    refine infix_flatMap hq ?_
    rcases hPart with rfl | hPart
    · exact (infix_written h).trans (List.prefix_append _ _).isInfix
    · exact (infix_foldTerm hx hPart hSign h).trans (List.suffix_append _ _).isInfix

end

/-! ## Rows -/

mutual

theorem infix_unitOf (hx : Tight x) {l : Lexeme} (hSlash : l.token ≠ .slash) (h : x <:+: l.text)
    (p : Piece) (hl : l ∈ p.flatten) (k : Option UnitKind) :
    (unitOf k p).isDivide = false ∧ x <:+: (unitOf k p).text := by
  cases p with
  | leaf m =>
    obtain rfl : l = m := by simpa [Piece.flatten] using hl
    refine ⟨Bool.eq_false_iff.2 fun hDivide => ?_, h⟩
    obtain ⟨m, hSame, hToken⟩ := isDivide_unitOf hDivide
    cases hSame
    exact hSlash hToken
  | group opening inner closing =>
    refine ⟨rfl, ?_⟩
    simp only [Piece.flatten, List.mem_cons, List.mem_append, List.not_mem_nil, or_false] at hl
    rw [unitOf]
    rcases hl with rfl | hInner | rfl
    · exact h.trans ⟨[], foldTerms (units none inner) ++ closing.written, by simp⟩
    · obtain ⟨u, hu, hSign, hText⟩ := infix_units hx hSlash h inner hInner none
      exact (infix_foldTerms hx hu hSign hText).trans ⟨opening.text, closing.written, by simp⟩
    · exact h.trans ⟨opening.text ++ foldTerms (units none inner) ++ l.leading, [], by
        simp [Lexeme.written]⟩

theorem infix_units (hx : Tight x) {l : Lexeme} (hSlash : l.token ≠ .slash) (h : x <:+: l.text)
    (ps : List Piece) (hl : l ∈ Piece.flattenAll ps) (k : Option UnitKind) :
    ∃ u ∈ units k ps, u.isDivide = false ∧ x <:+: u.text := by
  cases ps with
  | nil => cases hl
  | cons p rest =>
    rw [Piece.flattenAll, List.mem_append] at hl
    rw [units]
    rcases hl with hFirst | hRest
    · exact ⟨_, List.mem_cons_self, infix_unitOf hx hSlash h p hFirst k⟩
    · obtain ⟨u, hu, hUnit⟩ := infix_units hx hSlash h rest hRest (kindAfter k p)
      exact ⟨u, List.mem_cons_of_mem _ hu, hUnit⟩

end

/-- No lexeme but a division sign is lost where quotients are converted. -/
theorem infix_convertDivision (hx : Tight x) {l : Lexeme} {ls : List Lexeme} (hl : l ∈ ls)
    (hSlash : l.token ≠ .slash) (h : x <:+: l.text) : x <:+: convertDivision ls := by
  rw [← flatten_group ls] at hl
  obtain ⟨u, hu, hSign, hText⟩ := infix_units hx hSlash h (group ls) hl none
  exact infix_foldTerms hx hu hSign hText

theorem infix_render (hx : Tight x) {l : Lexeme} {ls : List Lexeme} (hl : l ∈ ls) (h : x <:+: l.text) :
    x <:+: render ls := by
  cases ls with
  | nil => cases hl
  | cons m ls =>
    rw [render]
    refine infix_trim hx ?_
    rcases List.mem_cons.1 hl with rfl | hl
    · exact h.trans (List.prefix_append _ _).isInfix
    · refine List.IsInfix.trans ?_ (List.suffix_append _ _).isInfix
      exact infix_flatMap hl (h.trans (List.suffix_append _ _).isInfix)

/-! ## Conditionals -/

theorem infix_callText {name : String} {args : List (List Char)} {u : List Char} (hu : u ∈ args)
    (h : x <:+: u) : x <:+: callText name args := by
  suffices hArgs : u <:+: commaSeparated args from
    (h.trans hArgs).trans ⟨name.toList ++ ['('], [')'], by simp [callText]⟩
  induction args with
  | nil => cases hu
  | cons a args ih =>
    cases args with
    | nil =>
      obtain rfl : u = a := by simpa using hu
      simp [commaSeparated, List.intercalate]
    | cons b args =>
      rw [commaSeparated_cons]
      rcases List.mem_cons.1 hu with rfl | hu
      · exact (List.prefix_append _ _).isInfix
      · exact (ih hu).trans ⟨a ++ [',', ' '], [], by simp⟩

section Conditionals

variable {branch : Span → Splicing (List Char)}

def Shows (branch : Span → Splicing (List Char)) (x : List Char) (s : Span) : Prop :=
  ∀ u, Gives (branch s) u → x <:+: u

theorem infix_nestBranches {acc result : Option (List Char)} {bs : List Branch}
    (h : Gives (nestBranches branch acc bs) result)
    (hShown : (∃ u ∈ acc, x <:+: u) ∨ ∃ b ∈ bs, Shows branch x b.condition ∨ Shows branch x b.value) :
    ∃ u ∈ result, x <:+: u := by
  induction bs generalizing acc with
  | nil =>
    rw [gives_pure_iff.1 h]
    simpa using hShown
  | cons b bs ih =>
    obtain ⟨condition, hCondition, h⟩ := h.of_bind
    obtain ⟨value, hValue, h⟩ := h.of_bind
    refine ih h ?_
    rcases hShown with ⟨u, hu, hText⟩ | ⟨b', hb, hPart⟩
    · exact .inl ⟨_, rfl, infix_callText (List.mem_append_right _ (Option.mem_toList.2 hu)) hText⟩
    rcases List.mem_cons.1 hb with rfl | hb
    · refine .inl ⟨_, rfl, ?_⟩
      rcases hPart with hShows | hShows
      · exact infix_callText (by simp) (hShows condition hCondition)
      · exact infix_callText (by simp) (hShows value hValue)
    · exact .inr ⟨b', hb, hPart⟩

theorem infix_armArguments {bs : List Branch} {texts : List (List Char)}
    (h : Gives (armArguments branch bs) texts)
    (hShown : ∃ b ∈ bs, Shows branch x b.condition ∨ Shows branch x b.value) :
    ∃ u ∈ texts, x <:+: u := by
  induction bs generalizing texts with
  | nil => simp at hShown
  | cons b bs ih =>
    obtain ⟨condition, hCondition, h⟩ := h.of_bind
    obtain ⟨value, hValue, h⟩ := h.of_bind
    obtain ⟨others, hOthers, h⟩ := h.of_bind
    rw [gives_pure_iff.1 h]
    obtain ⟨b', hb, hPart⟩ := hShown
    rcases List.mem_cons.1 hb with rfl | hb
    · rcases hPart with hShows | hShows
      · exact ⟨condition, by simp, hShows condition hCondition⟩
      · exact ⟨value, by simp, hShows value hValue⟩
    · obtain ⟨u, hu, hText⟩ := ih hOthers ⟨b', hb, hPart⟩
      exact ⟨u, by simp [hu], hText⟩

theorem infix_optionalBranch {s : Option Span} {result : Option (List Char)}
    (h : Gives (optionalBranch branch s) result) (hShown : ∃ span ∈ s, Shows branch x span) :
    ∃ u ∈ result, x <:+: u := by
  obtain ⟨span, rfl, hShows⟩ := hShown
  obtain ⟨u, hu, rfl⟩ := h.of_map
  exact ⟨u, rfl, hShows u hu⟩

theorem mem_spans {c : Clauses} {s : Span} :
    s ∈ c.spans ↔ (∃ b ∈ c.branches, s = b.condition ∨ s = b.value) ∨ s ∈ c.otherwise := by
  simp [Clauses.spans]

/-- What a part is converted to is never lost. -/
theorem infix_convertConditional {c : Conditional} {s : Span} {text : List Char} (hs : s ∈ c.parts)
    (hShows : Shows branch x s) (h : Gives (convertConditional branch c) text) : x <:+: text := by
  cases c with
  | ifBlock span clauses =>
    obtain ⟨fallback, hFallback, h⟩ := h.of_bind
    obtain ⟨made, hMade, h⟩ := h.of_bind
    obtain ⟨u, rfl, hText⟩ : ∃ u ∈ made, x <:+: u := by
      refine infix_nestBranches hMade ?_
      rcases mem_spans.1 hs with ⟨b, hb, hPart⟩ | hOtherwise
      · refine .inr ⟨b, List.mem_reverse.2 hb, ?_⟩
        rcases hPart with rfl | rfl
        · exact .inl hShows
        · exact .inr hShows
      · exact .inl (infix_optionalBranch hFallback ⟨s, hOtherwise, hShows⟩)
    split at h
    · obtain ⟨_, -, h⟩ := h.of_bind
      rwa [gives_pure_iff.1 h]
    · rwa [gives_pure_iff.1 h]
  | caseBlock span subject clauses =>
    obtain ⟨first, hFirst, h⟩ := h.of_bind
    obtain ⟨arms, hArms, h⟩ := h.of_bind
    obtain ⟨fallback, hFallback, h⟩ := h.of_bind
    obtain ⟨u, hu, hText⟩ : ∃ u ∈ first :: arms ++ fallback.toList, x <:+: u := by
      rcases List.mem_cons.1 hs with rfl | hs
      · exact ⟨first, by simp, hShows first hFirst⟩
      rcases mem_spans.1 hs with ⟨b, hb, hPart⟩ | hOtherwise
      · have hShown : Shows branch x b.condition ∨ Shows branch x b.value := by
          rcases hPart with rfl | rfl
          · exact .inl hShows
          · exact .inr hShows
        obtain ⟨u, hu, hText⟩ := infix_armArguments hArms ⟨b, hb, hShown⟩
        exact ⟨u, by simp [hu], hText⟩
      · obtain ⟨u, hu, hText⟩ := infix_optionalBranch hFallback ⟨s, hOtherwise, hShows⟩
        exact ⟨u, by simp [Option.mem_def.1 hu], hText⟩
    split at h
    · obtain ⟨_, -, h⟩ := h.of_bind
      rw [gives_pure_iff.1 h]
      exact infix_callText hu hText
    · rw [gives_pure_iff.1 h]
      exact infix_callText hu hText

end Conditionals

end DaxMigration.Dax
