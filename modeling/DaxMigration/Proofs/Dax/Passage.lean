import DaxMigration.Proofs.Dax.Terms

/-!
# Translated rows

The pass goes by the tokens only. Where every element is translated to one that plays the same part,
or an operand to several operands, the pass over the translation leaves the translation of what it
leaves.
-/

namespace DaxMigration.Dax

open Formula Divisible

variable {α β : Type} [Divisible α] [Divisible β]

structure Alike (s t : Token) : Prop where
  opens : s.opens = t.opens
  closes : s.closes = t.closes
  comment : s.isComment = t.isComment
  kind : ∀ k, unitKind k s = unitKind k t
  slash : s = .slash ↔ t = .slash

theorem Alike.refl (t : Token) : Alike t t :=
  ⟨rfl, rfl, rfl, fun _ => rfl, .rfl⟩

theorem Alike.trans {s t u : Token} (h : Alike s t) (h' : Alike t u) : Alike s u where
  opens := h.opens.trans h'.opens
  closes := h.closes.trans h'.closes
  comment := h.comment.trans h'.comment
  kind k := (h.kind k).trans (h'.kind k)
  slash := h.slash.trans h'.slash

theorem IsPlainToken.of_alike {s t : Token} (h : IsPlainToken t) (hAlike : Alike s t) :
    IsPlainToken s where
  opens := hAlike.opens.trans h.opens
  closes := hAlike.closes.trans h.closes
  comment := hAlike.comment.trans h.comment
  kind k := (hAlike.kind k).trans (h.kind k)

structure IsTranslation (f : α → List β) : Prop where
  filled : ∀ a, f a ≠ []
  quotient : ∀ left right, (quotient left right).flatMap f =
    quotient (left.flatMap f) (right.flatMap f)

inductive Translates (f : α → List β) (a : α) : Prop
  | one {b : β} (hSame : f a = [b]) (hAlike : Alike (token a) (token b))
  | operand (hPlain : IsPlainToken (token a)) (hAll : ∀ b ∈ f a, IsPlainToken (token b))

inductive Waits (f : α → List β) : Option (List α × α) → Option (List β × β) → Prop
  | none : Waits f none none
  | some {left : List α} {sign : α} {sign' : β} (hSign : f sign = [sign'])
      (hSlash : token sign = .slash ↔ token sign' = .slash) :
      Waits f (some (left, sign)) (some (left.flatMap f, sign'))

structure Terms.Maps (f : α → List β) (s : Terms α) (t : Terms β) : Prop where
  done : t.done = s.done.flatMap f
  waiting : Waits f s.waiting t.waiting
  operand : t.operand = s.operand.flatMap f
  last : t.last = s.last

namespace Terms.Maps

variable {f : α → List β} (hf : IsTranslation f)

theorem start : Maps f .start .start :=
  ⟨rfl, .none, rfl, rfl⟩

include hf in
theorem flatMap_eq_nil {as : List α} : as.flatMap f = [] ↔ as = [] := by
  constructor
  · intro h
    cases as with
    | nil => rfl
    | cons a as =>
      rw [List.flatMap_cons, List.append_eq_nil_iff] at h
      exact absurd h.1 (hf.filled a)
  · rintro rfl
    rfl

include hf in
theorem value {s : Terms α} {t : Terms β} (h : Maps f s t) : t.value = s.value.flatMap f := by
  obtain ⟨done, waiting, operand, last⟩ := s
  obtain ⟨done', waiting', operand', last'⟩ := t
  obtain ⟨_, hWaiting, hOperand, _⟩ := h
  simp only at hWaiting hOperand
  subst hOperand
  cases hWaiting with
  | none => rfl
  | @some left sign sign' hSign hSlash =>
    simp only [Terms.value, combine]
    by_cases hQuotient : token sign = .slash ∧ left ≠ [] ∧ operand ≠ []
    · rw [if_pos hQuotient, if_pos, hf.quotient]
      simpa [← hSlash, flatMap_eq_nil hf] using hQuotient
    · rw [if_neg hQuotient, if_neg, List.flatMap_append, List.flatMap_cons, hSign]
      · rfl
      · simpa [← hSlash, flatMap_eq_nil hf] using hQuotient

include hf in
theorem result {s : Terms α} {t : Terms β} (h : Maps f s t) : t.result = s.result.flatMap f := by
  rw [Terms.result, Terms.result, List.flatMap_append, h.value hf, h.done]

theorem group {s : Terms α} {t : Terms β} (h : Maps f s t) (as : List α) :
    Maps f (s.group as) (t.group (as.flatMap f)) :=
  ⟨h.done, h.waiting, by simp [Terms.group, h.operand], rfl⟩

include hf in
theorem leaf {s : Terms α} {t : Terms β} (h : Maps f s t) {a : α} {b : β} (hSame : f a = [b])
    (hAlike : Alike (token a) (token b)) : Maps f (s.leaf a) (t.leaf b) := by
  have hKind : unitKind t.last (token b) = unitKind s.last (token a) := by
    rw [h.last, hAlike.kind]
  have hLast : t.lastAfter b = s.lastAfter a := by
    rw [Terms.lastAfter, Terms.lastAfter, hKind, hAlike.comment, h.last]
  cases hCase : unitKind s.last (token a) with
  | operand =>
    rw [Terms.leaf_of_operand hCase, Terms.leaf_of_operand (hKind.trans hCase)]
    exact ⟨h.done, h.waiting, by simp [h.operand, hSame], hLast⟩
  | boundary =>
    rw [Terms.leaf_of_boundary hCase, Terms.leaf_of_boundary (hKind.trans hCase)]
    exact ⟨by simp [h.result hf, hSame], .none, rfl, hLast⟩
  | multiply =>
    rw [Terms.leaf_of_sign (.inr hCase), Terms.leaf_of_sign (.inr (hKind.trans hCase)), h.value hf]
    exact ⟨h.done, .some hSame hAlike.slash, rfl, hLast⟩
  | divide =>
    rw [Terms.leaf_of_sign (.inl hCase), Terms.leaf_of_sign (.inl (hKind.trans hCase)), h.value hf]
    exact ⟨h.done, .some hSame hAlike.slash, rfl, hLast⟩

end Terms.Maps

structure Pass.Maps (f : α → List β) (s : Pass α) (t : Pass β) : Prop where
  frames : List.Forall₂ (fun a b => f a.1 = [b.1] ∧ Terms.Maps f a.2 b.2) s.frames t.frames
  current : Terms.Maps f s.current t.current

/-- Operands one after the other. -/
theorem Pass.run_plain {bs : List β} (hFilled : bs ≠ []) (h : ∀ b ∈ bs, IsPlainToken (token b))
    (frames : List (β × Terms β)) (t : Terms β) :
    Pass.run ⟨frames, t⟩ bs = ⟨frames, t.group bs⟩ := by
  induction bs generalizing t with
  | nil => exact absurd rfl hFilled
  | cons b bs ih =>
    rw [Pass.run_cons, Pass.step_plain (h b List.mem_cons_self)]
    by_cases hEnd : bs = []
    · rw [hEnd]
      rfl
    · rw [ih hEnd fun c hc => h c (List.mem_cons_of_mem _ hc), Terms.group_group]
      rfl

theorem Pass.Maps.step {f : α → List β} (hf : IsTranslation f) {s : Pass α} {t : Pass β}
    (h : Pass.Maps f s t) {a : α} (ha : Translates f a) : Pass.Maps f (s.step a) (t.run (f a)) := by
  obtain ⟨frames, current⟩ := s
  obtain ⟨frames', current'⟩ := t
  obtain ⟨hFrames, hCurrent⟩ := h
  cases ha with
  | operand hPlain hAll =>
    rw [Pass.step_plain hPlain, Pass.run_plain (hf.filled a) hAll]
    have hGroup := hCurrent.group [a]
    rw [List.flatMap_singleton] at hGroup
    exact ⟨hFrames, hGroup⟩
  | @one b hSame hAlike =>
    rw [hSame, Pass.run_cons, Pass.run_nil]
    simp only [Pass.step, ← hAlike.opens, ← hAlike.closes]
    cases (token a).opens with
    | true => exact ⟨.cons ⟨hSame, hCurrent⟩ hFrames, .start⟩
    | false =>
      cases (token a).closes with
      | false => exact ⟨hFrames, hCurrent.leaf hf hSame hAlike⟩
      | true =>
        cases hFrames with
        | nil => exact ⟨.nil, hCurrent.leaf hf hSame hAlike⟩
        | @cons frame frame' rest rest' hFrame hRest =>
          obtain ⟨hOpening, hOuter⟩ := hFrame
          have hGroup := hOuter.group (frame.1 :: (current.result ++ [a]))
          rw [List.flatMap_cons, List.flatMap_append, List.flatMap_singleton, hOpening, hSame,
            ← hCurrent.result hf] at hGroup
          exact ⟨hRest, hGroup⟩

theorem Pass.Maps.run {f : α → List β} (hf : IsTranslation f) {s : Pass α} {t : Pass β}
    (h : Pass.Maps f s t) {as : List α} (has : ∀ a ∈ as, Translates f a) :
    Pass.Maps f (s.run as) (t.run (as.flatMap f)) := by
  induction as generalizing s t with
  | nil => exact h
  | cons a as ih =>
    rw [Pass.run_cons, List.flatMap_cons, Pass.run_append]
    exact ih (h.step hf (has a List.mem_cons_self)) fun b hb => has b (List.mem_cons_of_mem _ hb)

/-- The pass over a translated row. -/
theorem divided_flatMap {f : α → List β} (hf : IsTranslation f) {as : List α}
    (has : ∀ a ∈ as, Translates f a) :
    divided (as.flatMap f) = (divided as).flatMap f ∧
      ((Pass.start.run as).frames = [] ↔ (Pass.start.run (as.flatMap f)).frames = []) := by
  have hStart : Pass.Maps f (Pass.start (α := α)) (Pass.start (α := β)) := ⟨.nil, .start⟩
  have hEnd := hStart.run hf has
  refine ⟨hEnd.current.result hf, ?_⟩
  have hLength := hEnd.frames.length_eq
  rw [← List.length_eq_zero_iff, ← List.length_eq_zero_iff, hLength]

end DaxMigration.Dax
