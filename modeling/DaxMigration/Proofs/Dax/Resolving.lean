import DaxMigration.Proofs.Dax.Quotients
import DaxMigration.Proofs.Dax.Resolved

/-!
# Resolved rows stay resolved

The pass that makes calls of quotients brings in no construct and takes no argument from a call.
-/

namespace DaxMigration.Dax

open Formula Divisible

theorem inert_divideWord : Inert (.identifier divideWord) :=
  inert_identifier (by decide)

theorem resolved_quotient {left right : List Token} (hLeft : Resolved false 0 left)
    (hRight : Resolved false 0 right) : Resolved false 0 (quotient left right) := by
  have hZero : Inert (.number ['0']) := ⟨⟨rfl, rfl⟩, by simp, rfl, by simp⟩
  have hEnd : Resolved false 1 [.comma, .number ['0']] := .comma (.inert hZero .nil)
  have hSecond : Resolved false 1 (right ++ [.comma, .number ['0']]) := by
    simpa using hRight.append (by simp) hEnd
  have hArgs : Resolved false 2 (left ++ .comma :: (right ++ [.comma, .number ['0']])) := by
    simpa using hLeft.append (by simp) (.comma hSecond)
  have hCall := Resolved.inert inert_divideWord (.group hArgs .nil)
  simpa [quotient] using hCall

structure Terms.Resolves (n : Nat) (f : Terms Token) : Prop where
  done : Resolved false n f.done
  waiting : ∀ w ∈ f.waiting, Resolved false 0 w.1 ∧ Inert w.2
  operand : Resolved false 0 f.operand

namespace Terms.Resolves

variable {n : Nat} {f : Terms Token}

theorem start : Resolves 0 .start :=
  ⟨.nil, by simp [Terms.start], .nil⟩

theorem value (h : f.Resolves n) : Resolved false 0 f.value := by
  obtain ⟨done, waiting, operand, last⟩ := f
  obtain ⟨hDone, hWaiting, hOperand⟩ := h
  cases waiting with
  | none => exact hOperand
  | some w =>
    obtain ⟨left, sign⟩ := w
    obtain ⟨hLeft, hSign⟩ := hWaiting _ rfl
    simp only [Terms.value, combine]
    split
    · exact resolved_quotient hLeft hOperand
    · exact hLeft.append (by simp) (.inert hSign hOperand)

theorem result (h : f.Resolves n) : Resolved false n f.result :=
  h.done.append (by simp) h.value

theorem group (h : f.Resolves n) {ts : List Token} (hs : Resolved false 0 ts) :
    (f.group ts).Resolves n :=
  ⟨h.done, h.waiting, h.operand.append (by simp) hs⟩

theorem leaf (h : f.Resolves n) {t : Token} (hInert : Inert t) : (f.leaf t).Resolves n := by
  have hOne : Resolved false 0 [t] := .inert hInert .nil
  have hWaiting : ∀ w ∈ some (f.value, t), Resolved false 0 w.1 ∧ Inert w.2 := by
    rintro w hw
    obtain rfl : (f.value, t) = w := by simpa using hw
    exact ⟨h.value, hInert⟩
  cases hKind : unitKind f.last t with
  | operand =>
    rw [Terms.leaf_of_operand hKind]
    exact ⟨h.done, h.waiting, h.operand.append (by simp) hOne⟩
  | boundary =>
    rw [Terms.leaf_of_boundary hKind]
    exact ⟨h.result.append (by simp) hOne, by simp, .nil⟩
  | multiply =>
    rw [Terms.leaf_of_sign (.inr hKind)]
    exact ⟨h.done, hWaiting, .nil⟩
  | divide =>
    rw [Terms.leaf_of_sign (.inl hKind)]
    exact ⟨h.done, hWaiting, .nil⟩

theorem comma (h : f.Resolves n) : (f.leaf .comma).Resolves (n + 1) := by
  have hKind : unitKind f.last .comma = .boundary := by
    simp [unitKind, Token.isWord, Token.isDivisionBoundary]
  rw [Terms.leaf_of_boundary hKind]
  exact ⟨h.result.append (by simp) (.comma .nil), by simp, .nil⟩

end Terms.Resolves

/-! ## Ends of rows -/

structure Edged (ts us : List Token) : Prop where
  filled : us = [] → ts = []
  head : ∀ u ∈ us.head?, u = .identifier divideWord ∨ u ∈ ts.head?
  last : ∀ u ∈ us.getLast?, u = .rparen ∨ u ∈ ts.getLast?

namespace Edged

variable {ts us vs : List Token}

theorem refl (ts : List Token) : Edged ts ts :=
  ⟨id, fun _ hu => .inr hu, fun _ hu => .inr hu⟩

theorem trans (h : Edged ts us) (h' : Edged us vs) : Edged ts vs where
  filled hEmpty := h.filled (h'.filled hEmpty)
  head v hv := (h'.head v hv).elim .inl (h.head v)
  last v hv := (h'.last v hv).elim .inl (h.last v)

/-- What stands in front of both rows. -/
theorem append_left (before : List Token) (h : Edged ts us) : Edged (before ++ ts) (before ++ us) := by
  obtain ⟨hFilled, hHead, hLast⟩ := h
  refine ⟨fun hEmpty => ?_, fun u hu => ?_, fun u hu => ?_⟩
  · obtain ⟨rfl, hNone⟩ := List.append_eq_nil_iff.1 hEmpty
    exact hFilled hNone
  · cases before with
    | nil => exact hHead u hu
    | cons t before => exact .inr hu
  · cases us with
    | nil =>
      rw [hFilled rfl]
      exact .inr hu
    | cons v us =>
      rw [List.getLast?_append_of_ne_nil _ (by simp)] at hu
      refine (hLast u hu).imp id fun hMem => ?_
      have hNotEmpty : ts ≠ [] := by rintro rfl; cases hMem
      rwa [List.getLast?_append_of_ne_nil _ hNotEmpty]

/-- What stands behind both rows. -/
theorem append_right (after : List Token) (h : Edged ts us) : Edged (ts ++ after) (us ++ after) := by
  obtain ⟨hFilled, hHead, hLast⟩ := h
  refine ⟨fun hEmpty => ?_, fun u hu => ?_, fun u hu => ?_⟩
  · obtain ⟨hNone, rfl⟩ := List.append_eq_nil_iff.1 hEmpty
    rw [hFilled hNone]
    rfl
  · cases us with
    | nil =>
      rw [hFilled rfl]
      exact .inr hu
    | cons v us =>
      refine (hHead u hu).imp id fun hMem => ?_
      cases ts with
      | nil => cases hMem
      | cons t ts => exact hMem
  · cases after with
    | nil => simpa using hLast u (by simpa using hu)
    | cons t after =>
      rw [List.getLast?_append_of_ne_nil _ (by simp)] at hu ⊢
      exact .inr hu

theorem bracketed (inner inner' : List Token) :
    Edged (.lparen :: (inner ++ [.rparen])) (.lparen :: (inner' ++ [.rparen])) where
  filled := by simp
  head _ hu := .inr hu
  last u hu := by
    rw [← List.cons_append, List.getLast?_append] at hu
    exact .inl (by simpa using hu.symm)

end Edged

/-- More tokens at the end of an operand are more tokens at the end of the term. -/
theorem edged_combine (left : List Token) (sign : Token) (right ts : List Token) :
    Edged (combine left sign right ++ ts) (combine left sign (right ++ ts)) := by
  by_cases hQuotient : sign = .slash ∧ left ≠ [] ∧ right ++ ts ≠ []
  · have hCall : combine left sign (right ++ ts) = quotient left (right ++ ts) := if_pos hQuotient
    rw [hCall]
    refine ⟨by simp [quotient], fun u hu => .inl (by simpa [quotient] using hu.symm), fun u hu => .inl ?_⟩
    have hLast : (quotient left (right ++ ts)).getLast? = some Token.rparen := by
      simp [quotient, List.getLast?_cons, List.getLast?_append]
    rw [hLast] at hu
    exact (Option.some.inj hu).symm
  · have hNone : ¬(sign = .slash ∧ left ≠ [] ∧ right ≠ []) := fun h =>
      hQuotient ⟨h.1, h.2.1, by simp [h.2.2]⟩
    have hLong : combine left sign (right ++ ts) = left ++ sign :: (right ++ ts) := if_neg hQuotient
    have hShort : combine left sign right = left ++ sign :: right := if_neg hNone
    rw [hLong, hShort, List.append_assoc, List.cons_append]
    exact .refl _

theorem Terms.edged_group (f : Terms Token) (ts : List Token) :
    Edged (f.result ++ ts) (f.group ts).result := by
  obtain ⟨done, waiting, operand, last⟩ := f
  rw [Terms.result, List.append_assoc]
  refine .append_left done ?_
  cases waiting with
  | none => exact .refl _
  | some w => exact edged_combine w.1 w.2 operand ts

theorem Terms.edged_leaf (f : Terms Token) (t : Token) : Edged (f.result ++ [t]) (f.leaf t).result := by
  cases hKind : unitKind f.last t with
  | operand =>
    rw [Terms.leaf_of_operand hKind]
    exact f.edged_group [t]
  | boundary =>
    rw [Terms.leaf_of_boundary hKind]
    simp only [Terms.result, Terms.value, List.append_nil]
    exact .refl _
  | multiply | divide =>
    have hSign : unitKind f.last t = .divide ∨ unitKind f.last t = .multiply := by simp [hKind]
    have hSame : (f.leaf t).result = f.result ++ [t] := by
      rw [Terms.leaf_of_sign hSign]
      simp [Terms.result, Terms.value, combine]
    rw [hSame]
    exact .refl _

/-! ## Levels that are read -/

/-- Brackets are read into the operand that they stand in. -/
theorem Pass.run_bracketed {frames : List (Token × Terms Token)} {f g : Terms Token}
    {inner : List Token} (h : Pass.run ⟨(.lparen, f) :: frames, .start⟩ inner =
      ⟨(.lparen, f) :: frames, g⟩) (ts : List Token) :
    Pass.run ⟨frames, f⟩ (.lparen :: (inner ++ .rparen :: ts)) =
      Pass.run ⟨frames, f.group (.lparen :: (g.result ++ [.rparen]))⟩ ts := by
  have hOpen : Pass.step ⟨frames, f⟩ Token.lparen = ⟨(.lparen, f) :: frames, .start⟩ := rfl
  rw [Pass.run_cons, hOpen, Pass.run_append, h]
  rfl

/-- A resolved row is read into the level that it stands in, with its commas and its ends. -/
theorem Resolved.run {n : Nat} {ts : List Token} (h : Resolved false n ts)
    (frames : List (Token × Terms Token)) {f : Terms Token} {k : Nat} (hf : f.Resolves k) :
    ∃ g, Pass.run ⟨frames, f⟩ ts = ⟨frames, g⟩ ∧ g.Resolves (k + n) ∧ Edged (f.result ++ ts) g.result := by
  induction h generalizing frames f k with
  | nil => exact ⟨f, rfl, hf, by rw [List.append_nil]; exact .refl _⟩
  | @inert n t ts hInert _ ih =>
    obtain ⟨g, hRun, hg, hEdged⟩ := ih frames (hf.leaf hInert)
    have hStep : Pass.step ⟨frames, f⟩ t = ⟨frames, f.leaf t⟩ := by
      simp [Pass.step, hInert.inner.opens, hInert.inner.closes]
    refine ⟨g, by rw [Pass.run_cons, hStep, hRun], hg, ?_⟩
    simpa using ((f.edged_leaf t).append_right ts).trans hEdged
  | @comma n ts _ ih =>
    obtain ⟨g, hRun, hg, hEdged⟩ := ih frames hf.comma
    refine ⟨g, hRun, by rwa [Nat.add_right_comm] at hg, ?_⟩
    simpa using ((f.edged_leaf .comma).append_right ts).trans hEdged
  | @group m n inner ts _ _ ihInner ih =>
    obtain ⟨read, hInner, hResolves, -⟩ := ihInner ((.lparen, f) :: frames) .start
    obtain ⟨g, hRun, hg, hEdged⟩ := ih frames (hf.group (.group hResolves.result .nil))
    refine ⟨g, by rw [Pass.run_bracketed hInner, hRun], hg, ?_⟩
    have hBrackets := (Edged.bracketed inner read.result).append_left f.result
    simpa using ((hBrackets.trans (f.edged_group _)).append_right ts).trans hEdged
  | @kept m n name args ts hName hKept _ _ ihInner ih =>
    obtain ⟨read, hInner, hResolves, hEnds⟩ :=
      ihInner ((.lparen, f.group [.identifier name]) :: frames) .start
    have hSame : read.result = [] ↔ args = [] := by
      constructor
      · intro hEmpty
        exact hEnds.filled hEmpty
      · rintro rfl
        obtain rfl : Terms.start = read := by simpa using hInner
        rfl
    have hCall : Resolved false 0 (.identifier name :: .lparen :: (read.result ++ [.rparen])) := by
      refine .kept hName ?_ hResolves.result .nil
      rw [Nat.zero_add]
      simpa only [argumentCount, hSame] using hKept
    obtain ⟨g, hRun, hg, hEdged⟩ := ih frames (hf.group hCall)
    refine ⟨g, ?_, hg, ?_⟩
    · rw [Pass.run_cons, Pass.step_plain (isPlainToken_name hName), Pass.run_bracketed hInner,
        Terms.group_group]
      exact hRun
    · have hBrackets := ((Edged.bracketed args read.result).append_left [.identifier name]).append_left f.result
      simpa using ((hBrackets.trans (f.edged_group _)).append_right ts).trans hEdged
  | @named n name field ts hName _ ih =>
    have hColumn : Resolved false 0 [.identifier name, .field field] := .named hName .nil
    obtain ⟨g, hRun, hg, hEdged⟩ := ih frames (hf.group hColumn)
    refine ⟨g, ?_, hg, ?_⟩
    · rw [Pass.run_cons, Pass.step_plain (isPlainToken_name hName), Pass.run_cons,
        Pass.step_plain (isPlainToken_literal rfl), Terms.group_group]
      exact hRun
    · simpa using ((f.edged_group [.identifier name, .field field]).append_right ts).trans hEdged
  | alone hBare => cases hBare

/-- Quotients made calls leave a row resolved, and change its ends for those of calls at most. -/
theorem Resolved.divided {n : Nat} {ts : List Token} (h : Resolved false n ts) :
    Resolved false n (divided ts) ∧ (Pass.start.run ts).frames = [] ∧ Edged ts (divided ts) := by
  obtain ⟨g, hRun, hg, hEdged⟩ := h.run [] .start
  rw [Nat.zero_add] at hg
  have hStart : Pass.start.run ts = ⟨[], g⟩ := hRun
  rw [Dax.divided, hStart]
  exact ⟨hg.result, rfl, hEdged⟩

end DaxMigration.Dax
