import DaxMigration.Dax.Division
import DaxMigration.Proofs.Formula.Rows
import Mathlib.Data.List.Forall2

/-!
# Division in one pass

The quotients of a row are found in one pass from left to right, on its lexemes instead of their
text. A level of brackets keeps what no later operator changes, the left operand that waits for its
right one, and the operand that is being read. Division writes what the pass leaves.
-/

namespace DaxMigration.Dax

open Formula Text

/-- The token of an element, and the call that takes the place of a quotient. -/
class Divisible (α : Type) where
  token : α → Token
  quotient : List α → List α → List α

open Divisible

/-- A left operand, an operator and a right operand. A quotient that lacks an operand stays as it
is. -/
def combine {α : Type} [Divisible α] (left : List α) (sign : α) (right : List α) : List α :=
  if token sign = .slash ∧ left ≠ [] ∧ right ≠ [] then quotient left right
  else left ++ sign :: right

structure Terms (α : Type) where
  done : List α
  waiting : Option (List α × α)
  operand : List α
  /-- The kind of the last unit besides comments. -/
  last : Option UnitKind

namespace Terms

variable {α : Type} [Divisible α]

def start : Terms α := ⟨[], none, [], none⟩

def value (f : Terms α) : List α :=
  match f.waiting with
  | none => f.operand
  | some (left, sign) => combine left sign f.operand

def result (f : Terms α) : List α :=
  f.done ++ f.value

def leaf (f : Terms α) (a : α) : Terms α :=
  let kind := unitKind f.last (token a)
  let last := if (token a).isComment then f.last else some kind
  match kind with
  | .operand => ⟨f.done, f.waiting, f.operand ++ [a], last⟩
  | .boundary => ⟨f.result ++ [a], none, [], last⟩
  | .multiply | .divide => ⟨f.done, some (f.value, a), [], last⟩

def group (f : Terms α) (as : List α) : Terms α :=
  ⟨f.done, f.waiting, f.operand ++ as, some .operand⟩

def lastAfter (f : Terms α) (a : α) : Option UnitKind :=
  if (token a).isComment then f.last else some (unitKind f.last (token a))

theorem leaf_of_operand {f : Terms α} {a : α} (h : unitKind f.last (token a) = .operand) :
    f.leaf a = ⟨f.done, f.waiting, f.operand ++ [a], f.lastAfter a⟩ := by
  simp [leaf, lastAfter, h]

theorem leaf_of_boundary {f : Terms α} {a : α} (h : unitKind f.last (token a) = .boundary) :
    f.leaf a = ⟨f.result ++ [a], none, [], f.lastAfter a⟩ := by
  simp [leaf, lastAfter, h]

theorem leaf_of_sign {f : Terms α} {a : α} (h : unitKind f.last (token a) = .divide ∨
    unitKind f.last (token a) = .multiply) :
    f.leaf a = ⟨f.done, some (f.value, a), [], f.lastAfter a⟩ := by
  rcases h with h | h <;> simp [leaf, lastAfter, h]

omit [Divisible α] in
theorem group_group (f : Terms α) (as bs : List α) :
    (f.group as).group bs = f.group (as ++ bs) := by
  simp [group]

end Terms

/-- The brackets that are open, innermost first, each with the level outside it. -/
structure Pass (α : Type) where
  frames : List (α × Terms α)
  current : Terms α

namespace Pass

variable {α : Type} [Divisible α]

def start : Pass α := ⟨[], .start⟩

def step (g : Pass α) (a : α) : Pass α :=
  if (token a).opens then ⟨(a, g.current) :: g.frames, .start⟩
  else if (token a).closes then
    match g.frames with
    | [] => ⟨[], g.current.leaf a⟩
    | (opening, outer) :: frames => ⟨frames, outer.group (opening :: (g.current.result ++ [a]))⟩
  else ⟨g.frames, g.current.leaf a⟩

def run (g : Pass α) (as : List α) : Pass α :=
  as.foldl step g

@[simp]
theorem run_nil (g : Pass α) : g.run [] = g := rfl

@[simp]
theorem run_cons (g : Pass α) (a : α) (as : List α) : g.run (a :: as) = (g.step a).run as := rfl

@[simp]
theorem run_append (g : Pass α) (as bs : List α) : g.run (as ++ bs) = (g.run as).run bs :=
  List.foldl_append

theorem step_operand {a : α} {f : Terms α} (hOpens : (token a).opens = false)
    (hCloses : (token a).closes = false) (hComment : (token a).isComment = false)
    (hKind : unitKind f.last (token a) = .operand) (frames : List (α × Terms α)) :
    step ⟨frames, f⟩ a = ⟨frames, f.group [a]⟩ := by
  have hLeaf : f.leaf a = f.group [a] := by
    rw [Terms.leaf_of_operand hKind, Terms.lastAfter, hComment, hKind]
    rfl
  simp [step, hOpens, hCloses, hLeaf]

end Pass

structure IsPlainToken (t : Token) : Prop where
  opens : t.opens = false
  closes : t.closes = false
  comment : t.isComment = false
  kind : ∀ k, unitKind k t = .operand

theorem Pass.step_plain {α : Type} [Divisible α] {a : α} (h : IsPlainToken (token a))
    (frames : List (α × Terms α)) (f : Terms α) :
    Pass.step ⟨frames, f⟩ a = ⟨frames, f.group [a]⟩ :=
  step_operand h.opens h.closes h.comment (h.kind _) frames

/-- The row with its quotients made calls, where every bracket is closed. -/
def divided {α : Type} [Divisible α] (as : List α) : List α :=
  (Pass.start.run as).current.result

section All

variable {α : Type} [Divisible α] {P : α → Prop}
  (hQuotient : ∀ left right, (∀ a ∈ left, P a) → (∀ a ∈ right, P a) → ∀ a ∈ quotient left right, P a)

structure Terms.All (P : α → Prop) (f : Terms α) : Prop where
  done : ∀ a ∈ f.done, P a
  waiting : ∀ w ∈ f.waiting, (∀ a ∈ w.1, P a) ∧ P w.2
  operand : ∀ a ∈ f.operand, P a

omit [Divisible α] in
theorem Terms.All.start : Terms.All P .start :=
  ⟨by simp [Terms.start], by simp [Terms.start], by simp [Terms.start]⟩

include hQuotient in
theorem Terms.All.value {f : Terms α} (h : f.All P) : ∀ a ∈ f.value, P a := by
  obtain ⟨done, waiting, operand, last⟩ := f
  cases waiting with
  | none => exact h.operand
  | some w =>
    obtain ⟨left, sign⟩ := w
    obtain ⟨hLeft, hSign⟩ := h.waiting _ rfl
    simp only [Terms.value, combine]
    split
    · exact hQuotient left operand hLeft h.operand
    · intro a ha
      rcases List.mem_append.1 ha with ha | ha
      · exact hLeft a ha
      rcases List.mem_cons.1 ha with rfl | ha
      · exact hSign
      · exact h.operand a ha

include hQuotient in
theorem Terms.All.result {f : Terms α} (h : f.All P) : ∀ a ∈ f.result, P a := fun a ha =>
  (List.mem_append.1 ha).elim (h.done a) (h.value hQuotient a)

include hQuotient in
theorem Terms.All.leaf {f : Terms α} (h : f.All P) {a : α} (ha : P a) : (f.leaf a).All P := by
  have hResult := h.result hQuotient
  have hValue := h.value hQuotient
  have hSnoc : ∀ {bs : List α}, (∀ b ∈ bs, P b) → ∀ b ∈ bs ++ [a], P b := by
    intro bs hbs b hb
    rcases List.mem_append.1 hb with hb | hb
    · exact hbs b hb
    · rw [List.mem_singleton.1 hb]
      exact ha
  have hWaiting : ∀ w ∈ some (f.value, a), (∀ b ∈ w.1, P b) ∧ P w.2 := by
    intro w hw
    obtain rfl : (f.value, a) = w := by simpa using hw
    exact ⟨hValue, ha⟩
  cases hKind : unitKind f.last (token a) with
  | operand => rw [Terms.leaf_of_operand hKind]; exact ⟨h.done, h.waiting, hSnoc h.operand⟩
  | boundary => rw [Terms.leaf_of_boundary hKind]; exact ⟨hSnoc hResult, by simp, by simp⟩
  | multiply => rw [Terms.leaf_of_sign (.inr hKind)]; exact ⟨h.done, hWaiting, by simp⟩
  | divide => rw [Terms.leaf_of_sign (.inl hKind)]; exact ⟨h.done, hWaiting, by simp⟩

structure Pass.All (P : α → Prop) (s : Pass α) : Prop where
  frames : ∀ frame ∈ s.frames, P frame.1 ∧ frame.2.All P
  current : s.current.All P

include hQuotient in
theorem Pass.All.step {s : Pass α} (h : s.All P) {a : α} (ha : P a) : (s.step a).All P := by
  obtain ⟨frames, current⟩ := s
  obtain ⟨hFrames, hCurrent⟩ := h
  simp only [Pass.step]
  cases (token a).opens with
  | true => exact ⟨List.forall_mem_cons.2 ⟨⟨ha, hCurrent⟩, hFrames⟩, .start⟩
  | false =>
    cases (token a).closes with
    | false => exact ⟨hFrames, hCurrent.leaf hQuotient ha⟩
    | true =>
      cases frames with
      | nil => exact ⟨by simp, hCurrent.leaf hQuotient ha⟩
      | cons frame frames =>
        obtain ⟨⟨hOpening, hOuter⟩, hRest⟩ := List.forall_mem_cons.1 hFrames
        refine ⟨hRest, hOuter.done, hOuter.waiting, fun b hb => ?_⟩
        rcases List.mem_append.1 hb with hb | hb
        · exact hOuter.operand b hb
        rcases List.mem_cons.1 hb with rfl | hb
        · exact hOpening
        rcases List.mem_append.1 hb with hb | hb
        · exact hCurrent.result hQuotient b hb
        · rw [List.mem_singleton.1 hb]
          exact ha

include hQuotient in
theorem Pass.All.run {s : Pass α} (h : s.All P) {as : List α} (has : ∀ a ∈ as, P a) :
    (s.run as).All P := by
  induction as generalizing s with
  | nil => exact h
  | cons a as ih =>
    obtain ⟨ha, hRest⟩ := List.forall_mem_cons.1 has
    exact ih (h.step hQuotient ha) hRest

include hQuotient in
/-- What holds of the elements of a row, and of the calls made of such, holds of the divided row. -/
theorem all_divided {as : List α} (has : ∀ a ∈ as, P a) : ∀ a ∈ divided as, P a := by
  have hStart : (Pass.start (α := α)).All P := ⟨by simp [Pass.start], .start⟩
  exact (hStart.run hQuotient has).current.result hQuotient

end All

/-! ## Lexemes -/

def isFactorSign : Token → Bool
  | .asterisk | .slash | .percent => true
  | _ => false

def leadOf : List Lexeme → List Char
  | [] => []
  | l :: _ => if isFactorSign l.token then [] else l.leading

def unlead : List Lexeme → List Lexeme
  | [] => []
  | l :: ls => if isFactorSign l.token then l :: ls else { l with leading := [] } :: ls

def spaced : List Lexeme → List Lexeme
  | [] => []
  | l :: ls => { l with leading := [' '] } :: ls

def divideName (leading : List Char) : Lexeme := ⟨.identifier "DIVIDE".toList, "DIVIDE".toList, leading⟩

def commaSign : Lexeme := ⟨.comma, [','], []⟩

def openSign : Lexeme := ⟨.lparen, ['('], []⟩

def closeSign : Lexeme := ⟨.rparen, [')'], []⟩

def zeroSign : Lexeme := ⟨.number ['0'], ['0'], [' ']⟩

instance : Divisible Lexeme where
  token := Lexeme.token
  quotient left right := divideName (leadOf left) :: openSign :: (unlead left ++
    commaSign :: (spaced right ++ [commaSign, zeroSign, closeSign]))

@[simp]
theorem token_lexeme (l : Lexeme) : token l = l.token := rfl

structure Solid (l : Lexeme) : Prop where
  trimmed : Trimmed l.text
  blank : allBlank l.leading = true

theorem Solid.with_leading {l : Lexeme} (h : Solid l) {leading : List Char}
    (hBlank : allBlank leading = true) : Solid { l with leading := leading } :=
  ⟨h.trimmed, hBlank⟩

theorem leadOf_append_unlead (ls : List Lexeme) : leadOf ls ++ written (unlead ls) = written ls := by
  cases ls with
  | nil => rfl
  | cons l ls => by_cases hSign : isFactorSign l.token <;> simp [leadOf, unlead, hSign]

theorem trim_written {l : Lexeme} {ls : List Lexeme} (h : ∀ m ∈ l :: ls, Solid m) :
    trim (written (l :: ls)) = l.text ++ written ls := by
  have hFirst := h l List.mem_cons_self
  obtain ⟨c, text, hText⟩ := List.exists_cons_of_ne_nil hFirst.trimmed.filled
  have hHead : isBlank c = false := hFirst.trimmed.head c (by rw [hText]; rfl)
  have hLast : ∀ d ∈ (written (l :: ls)).getLast?, isBlank d = false :=
    last_written fun m hm => (h m hm).trimmed
  have hStart : trimStart (written (l :: ls)) = l.text ++ written ls := by
    rw [written_cons, trimStart, List.dropWhile_append_of_pos (List.all_eq_true.1 hFirst.blank),
      hText, List.cons_append, List.dropWhile_cons_of_neg (by simp [hHead])]
  rw [trim, hStart]
  refine dropTrailing_eq_self fun d hd => hLast d ?_
  rw [written_cons, List.getLast?_append, hd]
  rfl

/-- What holds of a lexeme after any white space, and of those that a quotient brings with it. -/
structure IsStable (P : Lexeme → Prop) : Prop where
  blank {l : Lexeme} (h : P l) : allBlank l.leading = true
  leading {l : Lexeme} (h : P l) {leading : List Char} (hBlank : allBlank leading = true) :
    P { l with leading := leading }
  divide : P (divideName [])
  signs : ∀ l ∈ [openSign, commaSign, zeroSign, closeSign], P l

namespace IsStable

variable {P : Lexeme → Prop} (hP : IsStable P)

include hP

theorem blank_leadOf {ls : List Lexeme} (h : ∀ l ∈ ls, P l) : allBlank (leadOf ls) = true := by
  cases ls with
  | nil => rfl
  | cons l ls =>
    rw [leadOf]
    split
    · rfl
    · exact hP.blank (h l List.mem_cons_self)

theorem unlead {ls : List Lexeme} (h : ∀ l ∈ ls, P l) : ∀ l ∈ unlead ls, P l := by
  cases ls with
  | nil => exact h
  | cons l ls =>
    rw [Dax.unlead]
    split
    · exact h
    · obtain ⟨hFirst, hRest⟩ := List.forall_mem_cons.1 h
      exact List.forall_mem_cons.2 ⟨hP.leading hFirst rfl, hRest⟩

theorem spaced {ls : List Lexeme} (h : ∀ l ∈ ls, P l) : ∀ l ∈ spaced ls, P l := by
  cases ls with
  | nil => exact h
  | cons l ls =>
    obtain ⟨hFirst, hRest⟩ := List.forall_mem_cons.1 h
    exact List.forall_mem_cons.2 ⟨hP.leading hFirst (by decide), hRest⟩

theorem quotient {left right : List Lexeme} (hLeft : ∀ l ∈ left, P l) (hRight : ∀ l ∈ right, P l) :
    ∀ l ∈ quotient left right, P l := by
  intro l hl
  simp only [Divisible.quotient, List.mem_cons, List.mem_append, List.not_mem_nil, or_false] at hl
  rcases hl with rfl | rfl | hl | rfl | hl | rfl | rfl | rfl
  · exact hP.leading hP.divide (hP.blank_leadOf hLeft)
  · exact hP.signs _ (by simp)
  · exact hP.unlead hLeft l hl
  · exact hP.signs _ (by simp)
  · exact hP.spaced hRight l hl
  · exact hP.signs _ (by simp)
  · exact hP.signs _ (by simp)
  · exact hP.signs _ (by simp)

/-- What holds of the lexemes of a row holds of the lexemes of the divided row. -/
theorem divided {ls : List Lexeme} (h : ∀ l ∈ ls, P l) : ∀ l ∈ divided ls, P l :=
  all_divided (fun _ _ => hP.quotient) h

end IsStable

theorem isStable_solid : IsStable Solid where
  blank h := h.blank
  leading h := h.with_leading
  divide := ⟨(@settled_of_plain "DIVIDE".toList (by decide) (by decide) (by decide)).trimmed, rfl⟩
  signs := by
    have hBracket : Solid openSign ∧ Solid commaSign ∧ Solid closeSign :=
      ⟨⟨(settled_single (by decide) (by decide)).trimmed, rfl⟩,
        ⟨(settled_single (by decide) (by decide)).trimmed, rfl⟩,
        ⟨(settled_single (by decide) (by decide)).trimmed, rfl⟩⟩
    have hZero : Solid zeroSign :=
      ⟨(settled_of_plain (by decide) (by decide) (by decide)).trimmed, by decide⟩
    simp [hBracket, hZero]

/-! ## Units -/

def outerLead (us : List TermUnit) : List Char :=
  (us.head?.map TermUnit.leading).getD []

theorem cutAt_of_none {p : TermUnit → Bool} {us : List TermUnit} (h : ∀ u ∈ us, p u = false) :
    cutAt p us = (us, []) := by
  induction us with
  | nil => rfl
  | cons u us ih =>
    rw [cutAt, ih fun v hv => h v (List.mem_cons_of_mem _ hv)]
    simp [h u List.mem_cons_self]

theorem cutAt_append {p : TermUnit → Bool} {b : TermUnit} (hb : p b = true)
    (us vs : List TermUnit) : cutAt p (us ++ b :: vs) =
      ((cutAt p us).1, (cutAt p us).2 ++ (b, (cutAt p vs).1) :: (cutAt p vs).2) := by
  induction us with
  | nil => simp [cutAt, hb]
  | cons u us ih =>
    rw [List.cons_append, cutAt, ih, cutAt]
    by_cases hu : p u <;> simp [hu]

theorem units_append (previous : Option UnitKind) (ps qs : List Piece) :
    units previous (ps ++ qs) = units previous ps ++ units (ps.foldl kindAfter previous) qs := by
  induction ps generalizing previous with
  | nil => rfl
  | cons p ps ih => simp [units, ih]

/-- A boundary parts the units: what stands on either side of it is folded by itself. -/
theorem foldTerms_append {b : TermUnit} (hb : b.isBoundary = true) (us vs : List TermUnit) :
    foldTerms (us ++ b :: vs) = foldTerms us ++ (b.written ++ foldTerms vs) := by
  simp [foldTerms, cutAt_append (p := TermUnit.isBoundary) hb]

theorem foldTerms_of_none {us : List TermUnit} (hus : ∀ u ∈ us, u.isBoundary = false) :
    foldTerms us = foldTerm us := by
  simp [foldTerms, cutAt_of_none hus]

theorem foldl_applyOperator_of_none {factors : List (TermUnit × List TermUnit)}
    (h : ∀ q ∈ factors, q.1.isDivide = false) (acc : List Char) :
    factors.foldl (fun acc q => applyOperator acc q.1 q.2) acc =
      acc ++ factors.flatMap fun q => q.1.written ++ join q.2 := by
  induction factors generalizing acc with
  | nil => simp
  | cons q factors ih =>
    rw [List.foldl_cons, ih fun r hr => h r (List.mem_cons_of_mem _ hr)]
    simp [applyOperator, h q List.mem_cons_self]

structure Operands (us : List TermUnit) (ls : List Lexeme) : Prop where
  kind : ∀ u ∈ us, u.kind = .operand
  text : join us = written ls
  lead : outerLead us = leadOf ls
  filled : ls = [] → us = []
  head : ∀ l ∈ ls.head?, isFactorSign l.token = false
  solid : ∀ l ∈ ls, Solid l

theorem Operands.nil : Operands [] [] :=
  ⟨by simp, rfl, rfl, fun _ => rfl, by simp, by simp⟩

theorem Operands.append {us vs : List TermUnit} {ls ms : List Lexeme} (h : Operands us ls)
    (h' : Operands vs ms) : Operands (us ++ vs) (ls ++ ms) where
  kind u hu := (List.mem_append.1 hu).elim (h.kind u) (h'.kind u)
  text := by
    have hLeft := h.text
    have hRight := h'.text
    simp only [join] at hLeft hRight
    simp [join, hLeft, hRight]
  lead := by
    cases ls with
    | nil =>
      rw [h.filled rfl]
      exact h'.lead
    | cons l ls =>
      cases us with
      | nil => exact absurd h.text.symm (by simp [join, (h.solid l List.mem_cons_self).trimmed.filled])
      | cons u us => exact h.lead
  filled hEmpty := by
    obtain ⟨hLeft, hRight⟩ := List.append_eq_nil_iff.1 hEmpty
    rw [h.filled hLeft, h'.filled hRight]
    rfl
  head := by
    cases ls with
    | nil => exact h'.head
    | cons l ls => exact h.head
  solid l hl := (List.mem_append.1 hl).elim (h.solid l) (h'.solid l)

structure Accumulated (us : List TermUnit) (ls : List Lexeme) : Prop where
  inner : ∀ u ∈ us, u.isBoundary = false
  first : outerLead (cutAt TermUnit.isOperator us).1 ++ trim (join (cutAt TermUnit.isOperator us).1) =
    join (cutAt TermUnit.isOperator us).1
  text : (cutAt TermUnit.isOperator us).2.foldl (fun acc q => applyOperator acc q.1 q.2)
    (trim (join (cutAt TermUnit.isOperator us).1)) = written (unlead ls)
  lead : outerLead (cutAt TermUnit.isOperator us).1 = leadOf ls
  solid : ∀ l ∈ ls, Solid l

theorem Accumulated.foldTerm_eq {us : List TermUnit} {ls : List Lexeme} (h : Accumulated us ls) :
    foldTerm us = written ls := by
  suffices hText : foldTerm us = outerLead (cutAt TermUnit.isOperator us).1 ++
      (cutAt TermUnit.isOperator us).2.foldl (fun acc q => applyOperator acc q.1 q.2)
        (trim (join (cutAt TermUnit.isOperator us).1)) by
    rw [hText, h.text, h.lead, leadOf_append_unlead]
  unfold foldTerm
  split
  · rfl
  · rename_i hNone
    have hNone : ∀ q ∈ (cutAt TermUnit.isOperator us).2, q.1.isDivide = false := by
      have hAll : ∀ u ∈ us, u.isDivide = false := by simpa using hNone
      exact fun q hq => ((forall_cutAt _ hAll).2 q hq).1
    rw [foldl_applyOperator_of_none hNone, ← List.append_assoc, h.first, join_cutAt]

theorem trim_written_eq {ls : List Lexeme} (hSolid : ∀ l ∈ ls, Solid l)
    (hHead : ∀ l ∈ ls.head?, isFactorSign l.token = false) :
    trim (written ls) = written (unlead ls) := by
  cases ls with
  | nil => rfl
  | cons l ls => rw [trim_written hSolid, unlead, if_neg (by simp [hHead l rfl])]; rfl

theorem Operands.accumulated {us : List TermUnit} {ls : List Lexeme} (h : Operands us ls) :
    Accumulated us ls := by
  have hCut : cutAt TermUnit.isOperator us = (us, []) :=
    cutAt_of_none fun u hu => by simp [TermUnit.isOperator, h.kind u hu]
  have hTrim : trim (join us) = written (unlead ls) := by
    rw [h.text, trim_written_eq h.solid h.head]
  refine ⟨fun u hu => by simp [TermUnit.isBoundary, h.kind u hu], ?_, ?_, ?_, h.solid⟩
  · rw [hCut, hTrim, h.lead, leadOf_append_unlead, h.text]
  · rw [hCut]
    exact hTrim
  · rw [hCut]
    exact h.lead

structure Joins (u : TermUnit) (l : Lexeme) : Prop where
  kind : u.isOperator = true
  divides : u.isDivide = true ↔ l.token = .slash
  text : u.written = l.written
  sign : isFactorSign l.token = true
  solid : Solid l

theorem isEmpty_written {ls : List Lexeme} (h : ∀ l ∈ ls, Solid l) :
    (written ls).isEmpty = ls.isEmpty := by
  cases ls with
  | nil => rfl
  | cons l ls => simp [(h l List.mem_cons_self).trimmed.filled]

theorem isEmpty_unlead (ls : List Lexeme) : (unlead ls).isEmpty = ls.isEmpty := by
  cases ls with
  | nil => rfl
  | cons l ls => by_cases hSign : isFactorSign l.token <;> simp [unlead, hSign]

theorem leadOf_combine {sign : Lexeme} (hSign : isFactorSign sign.token = true)
    (left right : List Lexeme) : leadOf (combine left sign right) = leadOf left := by
  unfold combine
  split
  · rfl
  · cases left with
    | nil => simp [leadOf, hSign]
    | cons l ls => rfl

theorem solid_combine {sign : Lexeme} {left right : List Lexeme} (hSign : Solid sign)
    (hLeft : ∀ l ∈ left, Solid l) (hRight : ∀ l ∈ right, Solid l) :
    ∀ l ∈ combine left sign right, Solid l := by
  unfold combine
  split
  · exact isStable_solid.quotient hLeft hRight
  · intro l hl
    rcases List.mem_append.1 hl with hl | hl
    · exact hLeft l hl
    rcases List.mem_cons.1 hl with rfl | hl
    · exact hSign
    · exact hRight l hl

theorem text_of_spaced {ls : List Lexeme} (hFilled : ls ≠ [])
    (hHead : ∀ l ∈ ls.head?, isFactorSign l.token = false) :
    written (spaced ls) = ' ' :: written (unlead ls) := by
  cases ls with
  | nil => exact absurd rfl hFilled
  | cons l ls => simp [spaced, unlead, hHead l rfl]

/-- What is written for one more operator is what its operands combine to. -/
theorem applyOperator_eq {u : TermUnit} {us : List TermUnit} {sign : Lexeme}
    {left right : List Lexeme} (hSign : Joins u sign) (hLeft : ∀ l ∈ left, Solid l)
    (hRight : Operands us right) :
    applyOperator (written (unlead left)) u us = written (unlead (combine left sign right)) := by
  have hTrim : trim (join us) = written (unlead right) := by
    rw [hRight.text, trim_written_eq hRight.solid hRight.head]
  have hEmptyLeft : (written (unlead left)).isEmpty = left.isEmpty := by
    rw [isEmpty_written (isStable_solid.unlead hLeft), isEmpty_unlead]
  have hEmptyRight : (written (unlead right)).isEmpty = right.isEmpty := by
    rw [isEmpty_written (isStable_solid.unlead hRight.solid), isEmpty_unlead]
  unfold applyOperator combine
  simp only [hTrim, hEmptyLeft, hEmptyRight, token_lexeme]
  by_cases hQuotient : sign.token = .slash ∧ left ≠ [] ∧ right ≠ []
  · obtain ⟨hSlash, hLeftFilled, hRightFilled⟩ := hQuotient
    rw [if_pos (by simp [hSign.divides.2 hSlash, hLeftFilled, hRightFilled]),
      if_pos ⟨hSlash, hLeftFilled, hRightFilled⟩]
    simp [quotient, unlead, divideName, openSign, commaSign, zeroSign, closeSign, isFactorSign,
      text_of_spaced hRightFilled hRight.head]
  · have hKept : (¬sign.token = .slash ∨ left = []) ∨ right = [] := by tauto
    rw [if_neg hQuotient, if_neg (by simpa [hSign.divides, imp_iff_not_or] using hKept),
      hSign.text, hRight.text]
    cases left with
    | nil => simp [unlead, hSign.sign, Lexeme.written]
    | cons l ls => by_cases hFirst : isFactorSign l.token <;> simp [unlead, hFirst, Lexeme.written]

/-- One more operator with its right operand. -/
theorem Accumulated.join {us vs : List TermUnit} {u : TermUnit} {sign : Lexeme}
    {left right : List Lexeme} (h : Accumulated us left) (hSign : Joins u sign)
    (hRight : Operands vs right) : Accumulated (us ++ u :: vs) (combine left sign right) := by
  have hNone : ∀ v ∈ vs, v.isOperator = false := fun v hv => by
    simp [TermUnit.isOperator, hRight.kind v hv]
  have hCut := cutAt_append hSign.kind us vs
  rw [cutAt_of_none hNone] at hCut
  refine ⟨?_, ?_, ?_, ?_, solid_combine hSign.solid h.solid hRight.solid⟩
  · intro w hw
    rcases List.mem_append.1 hw with hw | hw
    · exact h.inner w hw
    rcases List.mem_cons.1 hw with rfl | hw
    · have hKind := hSign.kind
      simp only [TermUnit.isOperator, Bool.or_eq_true, beq_iff_eq] at hKind
      rcases hKind with hKind | hKind <;> simp [TermUnit.isBoundary, hKind]
    · simp [TermUnit.isBoundary, hRight.kind w hw]
  · rw [hCut]
    exact h.first
  · rw [hCut, List.foldl_append, h.text]
    exact applyOperator_eq hSign h.solid hRight
  · rw [hCut, leadOf_combine hSign.sign]
    exact h.lead

inductive Runs : List TermUnit → Option (List Lexeme × Lexeme) → List Lexeme → Prop
  | first {us : List TermUnit} {ls : List Lexeme} (h : Operands us ls) : Runs us none ls
  | next {us vs : List TermUnit} {u : TermUnit} {sign : Lexeme} {left right : List Lexeme}
      (hLeft : Accumulated us left) (hSign : Joins u sign) (hRight : Operands vs right) :
      Runs (us ++ u :: vs) (some (left, sign)) right

theorem Runs.accumulated {us : List TermUnit} {f : Terms Lexeme} (h : Runs us f.waiting f.operand) :
    Accumulated us f.value := by
  obtain ⟨done, waiting, operand, last⟩ := f
  cases h with
  | first h => exact h.accumulated
  | next hLeft hSign hRight => exact hLeft.join hSign hRight

theorem Runs.append {us vs : List TermUnit} {waiting : Option (List Lexeme × Lexeme)}
    {ls ms : List Lexeme} (h : Runs us waiting ls) (h' : Operands vs ms) :
    Runs (us ++ vs) waiting (ls ++ ms) := by
  cases h with
  | first h => exact .first (h.append h')
  | next hLeft hSign hRight =>
    rw [List.append_assoc, List.cons_append]
    exact .next hLeft hSign (hRight.append h')

def Emits (us : List TermUnit) (ls : List Lexeme) : Prop :=
  ∀ vs, foldTerms (us ++ vs) = written ls ++ foldTerms vs

theorem Emits.boundary {us vs : List TermUnit} {u : TermUnit} {ls ms : List Lexeme} {l : Lexeme}
    (h : Emits us ls) (h' : Accumulated vs ms) (hKind : u.isBoundary = true)
    (hText : u.written = l.written) : Emits (us ++ vs ++ [u]) (ls ++ ms ++ [l]) := by
  intro ws
  have hAll := h (vs ++ u :: ws)
  rw [foldTerms_append hKind, foldTerms_of_none h'.inner, h'.foldTerm_eq, hText] at hAll
  simpa [Lexeme.written] using hAll

/-! ## Pieces -/

structure Tracks (ps : List Piece) (f : Terms Lexeme) : Prop where
  last : ps.foldl kindAfter none = f.last
  split : ∃ us vs, units none ps = us ++ vs ∧ Emits us f.done ∧ Runs vs f.waiting f.operand
  solid : ∀ l ∈ f.done, Solid l

theorem tracks_nil : Tracks [] .start where
  last := rfl
  split := ⟨[], [], rfl, fun _ => rfl, .first .nil⟩
  solid := by simp [Terms.start]

theorem Tracks.result {ps : List Piece} {f : Terms Lexeme} (h : Tracks ps f) :
    foldTerms (units none ps) = written f.result ∧ ∀ l ∈ f.result, Solid l := by
  obtain ⟨us, vs, hUnits, hEmits, hRuns⟩ := h.split
  have hValue := hRuns.accumulated
  constructor
  · rw [hUnits, hEmits, foldTerms_of_none hValue.inner, hValue.foldTerm_eq, Terms.result,
      written_append]
  · intro l hl
    rcases List.mem_append.1 hl with hl | hl
    · exact h.solid l hl
    · exact hValue.solid l hl

theorem units_snoc (ps : List Piece) (p : Piece) :
    units none (ps ++ [p]) = units none ps ++ [unitOf (ps.foldl kindAfter none) p] := by
  rw [units_append]
  rfl

theorem operands_single {u : TermUnit} {l : Lexeme} {ls : List Lexeme} (hKind : u.kind = .operand)
    (hLead : u.leading = l.leading) (hText : u.written = written (l :: ls))
    (hSign : isFactorSign l.token = false) (hSolid : ∀ m ∈ l :: ls, Solid m) :
    Operands [u] (l :: ls) where
  kind := by simpa using hKind
  text := by simpa [Dax.join] using hText
  lead := by simp [outerLead, leadOf, hLead, hSign]
  filled := by simp
  head := by simpa using hSign
  solid := hSolid

theorem unitKind_of_isFactorSign {t : Token} (h : isFactorSign t = true) (k : Option UnitKind) :
    unitKind k t = .divide ∧ t = .slash ∨ unitKind k t = .multiply ∧ t ≠ .slash := by
  unfold isFactorSign at h
  split at h <;> simp_all [unitKind]

theorem unitKind_of_not_isFactorSign {t : Token} (h : isFactorSign t = false) (k : Option UnitKind) :
    unitKind k t = .operand ∨ unitKind k t = .boundary := by
  unfold unitKind
  extract_lets afterOperator
  split
  · cases h
  · cases h
  · cases h
  · exact .inr rfl
  · split <;> simp
  · split <;> simp
  · cases hNegation : afterOperator && Token.isWord "NOT" t <;>
      cases t.isDivisionBoundary <;> simp

def leafUnit (k : Option UnitKind) (l : Lexeme) : TermUnit :=
  ⟨l.leading, l.text, unitKind k l.token⟩

theorem joins_leafUnit {l : Lexeme} (hSolid : Solid l) (hSign : isFactorSign l.token = true)
    (k : Option UnitKind) : Joins (leafUnit k l) l := by
  have hKinds := unitKind_of_isFactorSign hSign k
  refine ⟨?_, ?_, rfl, hSign, hSolid⟩
  · rcases hKinds with ⟨hKind, _⟩ | ⟨hKind, _⟩ <;> simp [TermUnit.isOperator, leafUnit, hKind]
  · rcases hKinds with ⟨hKind, hToken⟩ | ⟨hKind, hToken⟩
    · exact iff_of_true (by simp [TermUnit.isDivide, leafUnit, hKind]) hToken
    · exact iff_of_false (by simp [TermUnit.isDivide, leafUnit, hKind]) hToken

/-- Reading one more lexeme that is no bracket. -/
theorem Tracks.leaf {ps : List Piece} {f : Terms Lexeme} (h : Tracks ps f) {l : Lexeme}
    (hSolid : Solid l) : Tracks (ps ++ [Piece.leaf l]) (f.leaf l) := by
  obtain ⟨us, vs, hUnits, hEmits, hRuns⟩ := h.split
  have hLast : (ps ++ [Piece.leaf l]).foldl kindAfter none = f.lastAfter l := by
    rw [List.foldl_append, h.last]
    rfl
  have hSnoc : units none (ps ++ [Piece.leaf l]) = us ++ (vs ++ [leafUnit f.last l]) := by
    rw [units_snoc, hUnits, h.last, List.append_assoc]
    rfl
  cases hSign : isFactorSign l.token with
  | true =>
    have hKind : unitKind f.last l.token = .divide ∨ unitKind f.last l.token = .multiply :=
      (unitKind_of_isFactorSign hSign f.last).imp And.left And.left
    rw [Terms.leaf_of_sign hKind]
    exact ⟨hLast, ⟨us, _, hSnoc, hEmits,
      .next hRuns.accumulated (joins_leafUnit hSolid hSign f.last) .nil⟩, h.solid⟩
  | false =>
    rcases unitKind_of_not_isFactorSign hSign f.last with hKind | hKind
    · have hOperand : Operands [leafUnit f.last l] [l] :=
        operands_single hKind rfl (by simp [TermUnit.written, leafUnit]) hSign (by simpa using hSolid)
      rw [Terms.leaf_of_operand hKind]
      exact ⟨hLast, ⟨us, _, hSnoc, hEmits, hRuns.append hOperand⟩, h.solid⟩
    · have hBoundary : Emits (us ++ vs ++ [leafUnit f.last l]) (f.done ++ f.value ++ [l]) :=
        hEmits.boundary hRuns.accumulated (by simp [TermUnit.isBoundary, leafUnit, hKind]) rfl
      rw [Terms.leaf_of_boundary hKind]
      refine ⟨hLast, ⟨_, [], ?_, hBoundary, .first .nil⟩, ?_⟩
      · rw [hSnoc, List.append_nil, List.append_assoc]
      · intro m hm
        rcases List.mem_append.1 hm with hm | hm
        · exact h.result.2 m hm
        · rw [List.mem_singleton.1 hm]
          exact hSolid

theorem not_isFactorSign_of_opens {t : Token} (h : t.opens = true) : isFactorSign t = false := by
  cases t <;> simp_all [Token.opens, isFactorSign]

/-- Reading the bracket that closes a level. -/
theorem Tracks.group {ps inner : List Piece} {f g : Terms Lexeme} (h : Tracks ps f)
    (hInner : Tracks inner g) {opening closing : Lexeme} (hOpen : opening.token.opens = true)
    (hOpening : Solid opening) (hClosing : Solid closing) :
    Tracks (ps ++ [.group opening inner closing])
      (f.group (opening :: (g.result ++ [closing]))) := by
  obtain ⟨us, vs, hUnits, hEmits, hRuns⟩ := h.split
  obtain ⟨hText, hSolid⟩ := hInner.result
  have hOperand := @operands_single (unitOf f.last (.group opening inner closing))
    opening (g.result ++ [closing]) (by simp [unitOf]) (by simp [unitOf])
    (by simp [unitOf, TermUnit.written, hText, Lexeme.written]) (not_isFactorSign_of_opens hOpen)
    (by
      intro m hm
      rcases List.mem_cons.1 hm with rfl | hm
      · exact hOpening
      rcases List.mem_append.1 hm with hm | hm
      · exact hSolid m hm
      · rw [List.mem_singleton.1 hm]
        exact hClosing)
  refine ⟨by rw [List.foldl_append]; rfl, ⟨us, _, ?_, hEmits, hRuns.append hOperand⟩, h.solid⟩
  rw [units_snoc, hUnits, h.last, List.append_assoc]

/-! ## Rows -/

structure Holds (frame : Lexeme × List Piece) (frame' : Lexeme × Terms Lexeme) : Prop where
  same : frame.1 = frame'.1
  opens : frame.1.token.opens = true
  solid : Solid frame.1
  tracks : Tracks frame.2 frame'.2

structure Mirrors (g : Grouping) (s : Pass Lexeme) : Prop where
  frames : List.Forall₂ Holds g.frames s.frames
  current : Tracks g.current s.current

theorem Mirrors.step {g : Grouping} {s : Pass Lexeme} (h : Mirrors g s) {l : Lexeme}
    (hSolid : Solid l) : Mirrors (g.step l) (s.step l) := by
  obtain ⟨frames, current⟩ := g
  obtain ⟨frames', current'⟩ := s
  obtain ⟨hFrames, hCurrent⟩ := h
  simp only [Grouping.step, Pass.step, token_lexeme]
  cases hOpens : l.token.opens with
  | true =>
    simp only [if_true]
    exact ⟨.cons ⟨rfl, hOpens, hSolid, hCurrent⟩ hFrames, tracks_nil⟩
  | false =>
    cases hCloses : l.token.closes with
    | false =>
      simp only [Bool.false_eq_true, if_false]
      exact ⟨hFrames, hCurrent.leaf hSolid⟩
    | true =>
      simp only [Bool.false_eq_true, if_false, if_true]
      cases hFrames with
      | nil => exact ⟨.nil, hCurrent.leaf hSolid⟩
      | @cons frame frame' rest rest' hFrame hRest =>
        obtain ⟨opening, before⟩ := frame
        obtain ⟨opening', outer⟩ := frame'
        obtain ⟨hSame, hOpen, hOpening, hTracks⟩ := hFrame
        simp only at hSame
        subst hSame
        exact ⟨hRest, hTracks.group hCurrent hOpen hOpening hSolid⟩

theorem Mirrors.run {g : Grouping} {s : Pass Lexeme} (h : Mirrors g s) {ls : List Lexeme}
    (hSolid : ∀ l ∈ ls, Solid l) : Mirrors (ls.foldl Grouping.step g) (s.run ls) := by
  induction ls generalizing g s with
  | nil => exact h
  | cons l ls ih =>
    exact ih (h.step (hSolid l List.mem_cons_self)) fun m hm => hSolid m (List.mem_cons_of_mem _ hm)

/-- Division writes the row that the pass leaves. -/
theorem convertDivision_eq {ls : List Lexeme} (hSolid : ∀ l ∈ ls, Solid l)
    (hClosed : (Pass.start.run ls).frames = []) :
    convertDivision ls = written (divided ls) ∧ ∀ l ∈ divided ls, Solid l := by
  have hStart : Mirrors .start Pass.start := ⟨.nil, tracks_nil⟩
  have hEnd := hStart.run hSolid
  have hFrames : (ls.foldl Grouping.step .start).frames = [] := by
    have hAll := hEnd.frames
    rw [hClosed] at hAll
    exact List.forall₂_nil_right_iff.1 hAll
  have hResult := hEnd.current.result
  rw [convertDivision, Formula.group, Grouping.finished, hFrames]
  exact hResult

end DaxMigration.Dax
