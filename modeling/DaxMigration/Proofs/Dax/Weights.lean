import DaxMigration.Proofs.Dax.Quotients
import Mathlib.Tactic.Ring

/-!
# Signs and depth

The pass and the grammar agree on an expression up to the depth at which its signs stand: a quotient
whose operand is cut leaves a sign outside the call it belongs in. So the depths of all signs
together tell whether what the pass leaves is the expression with its quotients made calls.
-/

namespace DaxMigration.Dax

open Formula Divisible

def rise : Token → Int
  | .lparen => 1
  | .rparen => -1
  | _ => 0

def signCount : Token → Int
  | .plus | .minus => 1
  | _ => 0

def net (ts : List Token) : Int :=
  (ts.map rise).sum

def signs (ts : List Token) : Int :=
  (ts.map signCount).sum

def weight : List Token → Int
  | [] => 0
  | t :: ts => rise t * signs ts + weight ts

theorem net_append (a b : List Token) : net (a ++ b) = net a + net b := by
  simp [net]

theorem signs_append (a b : List Token) : signs (a ++ b) = signs a + signs b := by
  simp [signs]

theorem net_cons (t : Token) (a : List Token) : net (t :: a) = rise t + net a := by
  simp [net]

theorem signs_cons (t : Token) (a : List Token) : signs (t :: a) = signCount t + signs a := by
  simp [signs]

theorem weight_cons (t : Token) (a : List Token) :
    weight (t :: a) = rise t * signs a + weight a := rfl

theorem weight_append (a b : List Token) : weight (a ++ b) = weight a + weight b + net a * signs b := by
  induction a with
  | nil => simp [weight, net]
  | cons t a ih =>
    rw [List.cons_append, weight, weight, ih, signs_append, net_cons]
    ring

theorem signs_nonneg (ts : List Token) : 0 ≤ signs ts := by
  induction ts with
  | nil => exact Int.le_refl 0
  | cons t ts ih =>
    have hCount : 0 ≤ signCount t := by unfold signCount; split <;> decide
    rw [signs_cons]
    omega

/-- What the pass leaves, next to what is meant: they are the same if the expression is sound, and
otherwise signs stand less deep in the former. -/
structure Compares (out meant : List Token) (sound : Bool) : Prop where
  net_out : net out = 0
  net_meant : net meant = 0
  signs : signs out = signs meant
  same : sound = true → out = meant
  below : sound = false → weight out < weight meant

namespace Compares

theorem weight_le {out meant : List Token} {sound : Bool} (h : Compares out meant sound) :
    weight out ≤ weight meant := by
  cases sound with
  | true => rw [h.same rfl]
  | false => exact le_of_lt (h.below rfl)

theorem refl {ts : List Token} (h : net ts = 0) : Compares ts ts true :=
  ⟨h, h, rfl, fun _ => rfl, by simp⟩

theorem append {a b out meant : List Token} {sa sb : Bool} (ha : Compares a out sa)
    (hb : Compares b meant sb) : Compares (a ++ b) (out ++ meant) (sa && sb) where
  net_out := by rw [net_append, ha.net_out, hb.net_out, add_zero]
  net_meant := by rw [net_append, ha.net_meant, hb.net_meant, add_zero]
  signs := by rw [signs_append, signs_append, ha.signs, hb.signs]
  same hSound := by
    obtain ⟨hLeft, hRight⟩ := by simpa using hSound
    rw [ha.same hLeft, hb.same hRight]
  below hSound := by
    have hLeft := ha.weight_le
    have hRight := hb.weight_le
    rw [weight_append, weight_append, ha.net_out, ha.net_meant]
    cases sa with
    | false =>
      have := ha.below rfl
      omega
    | true =>
      have := hb.below (by simpa using hSound)
      omega

theorem cons {a out : List Token} {sound : Bool} {t : Token} (h : Compares a out sound)
    (ht : rise t = 0) : Compares (t :: a) (t :: out) sound := by
  have hHead : Compares [t] [t] true := .refl (by simp [net, ht])
  simpa using hHead.append h

theorem bracketed {a out : List Token} {sound : Bool} (h : Compares a out sound) :
    Compares (.lparen :: (a ++ [.rparen])) (.lparen :: (out ++ [.rparen])) sound where
  net_out := by rw [net_cons, net_append, h.net_out]; rfl
  net_meant := by rw [net_cons, net_append, h.net_meant]; rfl
  signs := by rw [signs_cons, signs_cons, signs_append, signs_append, h.signs]
  same hSound := by rw [h.same hSound]
  below hSound := by
    have hBelow := h.below hSound
    have hSigns := h.signs
    rw [weight, weight, signs_append, signs_append, weight_append, weight_append, h.net_out,
      h.net_meant, hSigns]
    omega

end Compares

/-- A quotient is one level deeper than its operands. -/
theorem weight_quotient {left right : List Token} (hLeft : net left = 0) (hRight : net right = 0) :
    weight (quotient left right) = weight left + signs left + (weight right + signs right) := by
  have hEnd : weight [Token.comma, .number ['0'], .rparen] = 0 := rfl
  have hEndSigns : signs [Token.comma, .number ['0'], .rparen] = 0 := rfl
  simp only [quotient, weight_cons, signs_cons, signs_append, weight_append, rise, signCount, hLeft,
    hRight, hEnd, hEndSigns]
  ring

theorem net_quotient {left right : List Token} (hLeft : net left = 0) (hRight : net right = 0) :
    net (quotient left right) = 0 := by
  have hEnd : net [Token.comma, .number ['0'], .rparen] = -1 := rfl
  simp only [quotient, net_cons, net_append, rise, hLeft, hRight, hEnd]
  omega

theorem signs_quotient (left right : List Token) :
    signs (quotient left right) = signs left + signs right := by
  have hEnd : signs [Token.comma, .number ['0'], .rparen] = 0 := rfl
  simp only [quotient, signs_cons, signs_append, signCount, hEnd]
  omega

/-- A quotient from whose operands something is cut off: what is done before the left one, and what
follows the right one. -/
theorem Compares.over {done left right tail meant meant' : List Token} {sl sr v w : Bool}
    (hl : Compares (done ++ left) meant sl) (hr : Compares (right ++ tail) meant' sr)
    (hDone : net done = 0) (hTail : net tail = 0) (hWhole : v = true → done = [])
    (hCut : v = false → 0 < Dax.signs done) (hWhole' : w = true → tail = [])
    (hCut' : w = false → 0 < Dax.signs tail) :
    Compares (done ++ quotient left right ++ tail) (quotient meant meant')
      (sl && sr && (v && w)) := by
  have hLeft : net left = 0 := by
    have := hl.net_out
    rw [net_append] at this
    omega
  have hRight : net right = 0 := by
    have := hr.net_out
    rw [net_append] at this
    omega
  have hSigns := hl.signs
  have hSigns' := hr.signs
  rw [signs_append] at hSigns hSigns'
  refine ⟨?_, net_quotient hl.net_meant hr.net_meant, ?_, ?_, ?_⟩
  · rw [net_append, net_append, hDone, net_quotient hLeft hRight, hTail]
    rfl
  · rw [signs_append, signs_append, signs_quotient, signs_quotient, ← hSigns, ← hSigns']
    omega
  · intro hSound
    simp only [Bool.and_eq_true] at hSound
    obtain ⟨⟨hsl, hsr⟩, hv, hw⟩ := hSound
    have hSame := hl.same hsl
    have hSame' := hr.same hsr
    rw [hWhole hv, List.nil_append] at hSame ⊢
    rw [hWhole' hw, List.append_nil] at hSame' ⊢
    rw [hSame, hSame']
  · intro hSound
    have hle := hl.weight_le
    have hle' := hr.weight_le
    have hBelow := hl.below
    have hBelow' := hr.below
    have hNonneg := signs_nonneg done
    have hNonneg' := signs_nonneg tail
    rw [weight_append, hDone] at hle hBelow
    rw [weight_append, hRight] at hle' hBelow'
    rw [weight_append, weight_append, net_append, hDone, net_quotient hLeft hRight,
      weight_quotient hLeft hRight, weight_quotient hl.net_meant hr.net_meant, ← hSigns, ← hSigns']
    cases sl with
    | false =>
      have := hBelow rfl
      omega
    | true =>
      cases sr with
      | false =>
        have := hBelow' rfl
        omega
      | true =>
        cases v with
        | false =>
          have := hCut rfl
          omega
        | true =>
          have := hCut' (by simpa using hSound)
          omega

namespace Cut

def tail (c : Cut) : List Token :=
  match c.rest with
  | none => []
  | some (middle, last) => middle ++ last

structure IsLevel (c : Cut) (isWhole : Bool) : Prop where
  first : net c.first = 0
  whole : isWhole = true → c.rest = none
  cut : isWhole = false → ∃ middle last, c.rest = some (middle, last) ∧ net middle = 0 ∧
    net last = 0 ∧ last ≠ [] ∧ 0 < signs middle

theorem tail_before (ts : List Token) (c : Cut) : (c.before ts).tail = c.tail := rfl

theorem all_split (t : Token) (c : Cut) :
    (c.split t).first ++ (c.split t).tail = t :: (c.first ++ c.tail) := by
  obtain ⟨first, rest⟩ := c
  cases rest <;> simp [split, tail]

theorem IsLevel.before {c : Cut} {isWhole : Bool} (h : c.IsLevel isWhole) {ts : List Token}
    (hts : net ts = 0) : (c.before ts).IsLevel isWhole where
  first := by rw [Cut.before, net_append, hts, h.first, add_zero]
  whole := h.whole
  cut := h.cut

theorem IsLevel.split {c : Cut} {isWhole : Bool} (h : c.IsLevel isWhole) (hFilled : c.first ≠ [])
    (s : Sign) : (c.split s.token).IsLevel false := by
  have hRise : rise s.token = 0 := by cases s <;> rfl
  have hSign : signCount s.token = 1 := by cases s <;> rfl
  obtain ⟨first, rest⟩ := c
  cases isWhole with
  | true =>
    obtain rfl : rest = none := h.whole rfl
    refine ⟨rfl, by simp, fun _ => ⟨[s.token], first, rfl, ?_, h.first, hFilled, ?_⟩⟩
    · rw [net_cons, hRise]
      rfl
    · rw [signs_cons, hSign]
      decide
  | false =>
    obtain ⟨middle, last, hRest, hMiddle, hLast, hEnd, hSigns⟩ := h.cut rfl
    obtain rfl : rest = some (middle, last) := hRest
    refine ⟨rfl, by simp, fun _ => ⟨s.token :: (first ++ middle), last, rfl, ?_, hLast, hEnd, ?_⟩⟩
    · have hFirst : net first = 0 := h.first
      rw [net_cons, net_append, hRise, hFirst, hMiddle]
      rfl
    · have := signs_nonneg first
      rw [signs_cons, signs_append, hSign]
      omega

theorem IsLevel.net_tail {c : Cut} {isWhole : Bool} (h : c.IsLevel isWhole) : net c.tail = 0 := by
  cases isWhole with
  | true =>
    rw [tail, h.whole rfl]
    rfl
  | false =>
    obtain ⟨middle, last, hRest, hMiddle, hLast, _⟩ := h.cut rfl
    rw [tail, hRest, net_append, hMiddle, hLast]
    rfl

theorem IsLevel.tail_of_whole {c : Cut} (h : c.IsLevel true) : c.tail = [] := by
  rw [tail, h.whole rfl]

theorem IsLevel.signs_tail {c : Cut} (h : c.IsLevel false) : 0 < signs c.tail := by
  obtain ⟨middle, last, hRest, _, _, _, hSigns⟩ := h.cut rfl
  have := signs_nonneg last
  rw [tail, hRest, signs_append]
  omega

theorem after_append (c : Cut) (done value : List Token) :
    (c.after done value).1 ++ (c.after done value).2 = done ++ value ++ c.tail := by
  obtain ⟨first, rest⟩ := c
  cases rest <;> simp [after, tail]

end Cut

structure Splits (out : List Token × List Token) (meant : List Token) (sound isWhole : Bool) :
    Prop where
  all : Compares (out.1 ++ out.2) meant sound
  done : net out.1 = 0
  filled : out.2 ≠ []
  whole : isWhole = true → out.1 = []
  cut : isWhole = false → 0 < signs out.1

theorem Splits.net_value {out : List Token × List Token} {meant : List Token}
    {sound isWhole : Bool} (h : Splits out meant sound isWhole) : net out.2 = 0 := by
  have := h.all.net_out
  rw [net_append, h.done] at this
  omega

/-- A term with an operand read to its end. -/
theorem Splits.of_after {c : Cut} {done value meant : List Token} {sound v w : Bool}
    (hLevel : c.IsLevel w) (hAll : Compares (done ++ value ++ c.tail) meant sound)
    (hDone : net done = 0) (hValue : net value = 0) (hFilled : value ≠ [])
    (hWhole : v = true → done = []) (hCut : v = false → 0 < signs done) :
    Splits (c.after done value) meant sound (v && w) := by
  rw [← Cut.after_append] at hAll
  cases w with
  | true =>
    have hRest := hLevel.whole rfl
    rw [Cut.after, hRest] at hAll ⊢
    exact ⟨hAll, hDone, hFilled, by simpa using hWhole, by simpa using hCut⟩
  | false =>
    obtain ⟨middle, last, hRest, hMiddle, hLast, hEnd, hSigns⟩ := hLevel.cut rfl
    rw [Cut.after, hRest] at hAll ⊢
    refine ⟨hAll, ?_, hEnd, by simp, fun _ => ?_⟩
    · simp only [net_append, hDone, hValue, hMiddle]
      rfl
    · have := signs_nonneg done
      have := signs_nonneg value
      simp only [signs_append]
      omega

end DaxMigration.Dax

namespace DaxMigration.Formula

open Dax

variable {table : Option Token}

theorem compares_field (hTable : ∀ t ∈ table, IsTable t) (name : List Char) :
    Compares (table.toList ++ [.field name]) (table.toList ++ [.field name]) true := by
  refine .refl ?_
  cases table with
  | none => rfl
  | some t => cases hTable t rfl <;> rfl

theorem Atom.out_ne_nil (a : Atom) : a.out table ≠ [] := by
  cases a <;> simp [Atom.out]

structure OperandCompares (table : Option Token) (x : Operand) : Prop where
  all (atHead : Bool) : Compares ((x.cut table atHead).first ++ (x.cut table atHead).tail)
    (x.divided.tokens table) x.isSound
  level (atHead : Bool) : (x.cut table atHead).IsLevel (x.isWhole atHead)
  filled : (x.cut table true).first ≠ []

theorem OperandCompares.atom {a : Atom}
    (h : Compares (a.out table) (a.divided.tokens table) a.isSound) :
    OperandCompares table (.atom a) where
  all atHead := by
    rw [Operand.cut, Cut.tail, List.append_nil]
    exact h
  level atHead := by
    rw [Operand.cut]
    exact ⟨h.net_out, fun _ => rfl, by simp [Operand.isWhole]⟩
  filled := a.out_ne_nil

theorem OperandCompares.signed {x : Operand} (h : OperandCompares table x) (s : Sign) :
    OperandCompares table (.signed s x) where
  all atHead := by
    have hRise : rise s.token = 0 := by cases s <;> rfl
    cases atHead with
    | true =>
      rw [Operand.cut, Cut.tail_before]
      exact (h.all false).cons hRise
    | false =>
      rw [Operand.cut, Cut.all_split]
      exact (h.all true).cons hRise
  level atHead := by
    cases atHead with
    | true =>
      rw [Operand.cut]
      refine (h.level false).before ?_
      cases s <;> rfl
    | false =>
      rw [Operand.cut]
      exact (h.level true).split h.filled s
  filled := by
    rw [Operand.cut]
    simp [Cut.before]

theorem OperandCompares.power {a : Atom} {x : Operand}
    (ha : Compares (a.out table) (a.divided.tokens table) a.isSound)
    (hx : OperandCompares table x) : OperandCompares table (.power a x) := by
  have hCut : ∀ atHead, (Operand.power a x).cut table atHead =
      (x.cut table false).before (a.out table ++ [.caret]) := by
    intro atHead
    cases atHead <;> rw [Operand.cut]
  refine ⟨fun atHead => ?_, fun atHead => ?_, ?_⟩
  · have hAll := ha.append ((hx.all false).cons (t := .caret) rfl)
    rw [hCut, Cut.tail_before, Cut.before]
    simpa [Operand.divided, Operand.tokens, Operand.isSound] using hAll
  · have hHead : net (a.out table ++ [.caret]) = 0 := by
      rw [net_append, ha.net_out]
      rfl
    have hLevel := (hx.level false).before hHead
    rw [hCut]
    cases atHead <;> exact hLevel
  · rw [hCut]
    simp [Cut.before]

theorem splits_operand {x : Operand} (h : OperandCompares table x) :
    Splits ((Term.operand x).out table) (x.divided.tokens table) x.isSound (x.isWhole true) := by
  rw [Term.out]
  have hLevel := h.level true
  exact Splits.of_after (v := true) hLevel (h.all true) rfl hLevel.first h.filled
    (fun _ => rfl) (by simp)

theorem splits_product {t : Term} {x : Operand}
    (ht : Splits (t.out table) (t.divided.tokens table) t.isSound t.isWhole)
    (hx : OperandCompares table x) (op : Factor) :
    Splits ((Term.product t op x).out table) ((Term.product t op x).divided.tokens table)
      (Term.product t op x).isSound (Term.product t op x).isWhole := by
  have hLevel := hx.level true
  have hFirst := hLevel.first
  have hPlain : op ≠ .over → Splits ((Term.product t op x).out table)
      (t.divided.tokens table ++ op.token :: x.divided.tokens table) (t.isSound && x.isSound)
      (t.isWhole && x.isWhole true) := by
    intro hNe
    have hRise : rise op.token = 0 := by cases op <;> rfl
    have hCombine : combine (t.out table).2 op.token (x.cut table true).first =
        (t.out table).2 ++ op.token :: (x.cut table true).first :=
      if_neg fun hAll => hNe (by cases op <;> simp_all [Factor.token])
    have hAll := ht.all.append ((hx.all true).cons hRise)
    rw [Term.out, hCombine]
    refine .of_after hLevel (by simpa using hAll) ht.done ?_ (by simp) ht.whole ht.cut
    rw [net_append, net_cons, ht.net_value, hRise, hFirst]
    rfl
  cases op with
  | times =>
    have hOther : (Factor.times != .over) = true := rfl
    simpa [Term.divided, Term.tokens, Term.isSound, Term.isWhole, hOther] using hPlain (by decide)
  | modulo =>
    have hOther : (Factor.modulo != .over) = true := rfl
    simpa [Term.divided, Term.tokens, Term.isSound, Term.isWhole, hOther] using hPlain (by decide)
  | «over» =>
    have hCombine : combine (t.out table).2 Factor.over.token (x.cut table true).first =
        Divisible.quotient (t.out table).2 (x.cut table true).first :=
      if_pos ⟨rfl, ht.filled, hx.filled⟩
    have hAll := Compares.over ht.all (hx.all true) ht.done hLevel.net_tail ht.whole ht.cut
      (w := x.isWhole true) (fun h => (h ▸ hLevel).tail_of_whole) fun h => (h ▸ hLevel).signs_tail
    have hMeant : (Term.product t .over x).divided.tokens table =
        Divisible.quotient (t.divided.tokens table) (x.divided.tokens table) := by
      simp [Term.divided, Term.tokens, Operand.tokens, Atom.tokens, Args.tokens, Expr.tokens,
        zeroArgs, Divisible.quotient]
    rw [Term.out, hCombine, hMeant]
    exact .of_after hLevel (by simpa [Term.isSound] using hAll) ht.done
      (net_quotient ht.net_value hFirst) (by simp [Divisible.quotient]) ht.whole ht.cut

theorem compares_expr_loose {out meant out' meant' : List Token} {sound sound' : Bool}
    (h : Compares out meant sound) (h' : Compares out' meant' sound') (op : Loose) :
    Compares (out ++ op.token :: out') (meant ++ op.token :: meant') (sound && sound') :=
  h.append (h'.cons (by cases op <;> rfl))

mutual

theorem Atom.compares (hTable : ∀ t ∈ table, IsTable t) (a : Atom) :
    Compares (a.out table) (a.divided.tokens table) a.isSound := by
  cases a with
  | number | text | quoted => exact .refl rfl
  | field name => exact compares_field hTable name
  | constant name => exact .refl rfl
  | call name args => exact (args.compares hTable).bracketed.cons rfl
  | group e => exact (e.compares hTable).bracketed

theorem Operand.compares (hTable : ∀ t ∈ table, IsTable t) (x : Operand) :
    OperandCompares table x := by
  cases x with
  | atom a => exact .atom (a.compares hTable)
  | signed s x => exact (x.compares hTable).signed s
  | power a x => exact .power (a.compares hTable) (x.compares hTable)

theorem Term.compares (hTable : ∀ t ∈ table, IsTable t) (t : Term) :
    Splits (t.out table) (t.divided.tokens table) t.isSound t.isWhole := by
  cases t with
  | operand x => exact splits_operand (x.compares hTable)
  | product t op x => exact splits_product (t.compares hTable) (x.compares hTable) op

/-- What the pass leaves of an expression, next to the expression with its quotients made calls. -/
theorem Expr.compares (hTable : ∀ t ∈ table, IsTable t) (e : Expr) :
    Compares (e.out table) (e.divided.tokens table) e.isSound := by
  cases e with
  | term t => exact (t.compares hTable).all
  | negation e => exact (e.compares hTable).cons rfl
  | loose t op e => exact compares_expr_loose (t.compares hTable).all (e.compares hTable) op

theorem Args.compares (hTable : ∀ t ∈ table, IsTable t) (args : Args) :
    Compares (args.out table) (args.divided.tokens table) args.isSound := by
  cases args with
  | last e => exact e.compares hTable
  | more e rest => exact (e.compares hTable).append ((rest.compares hTable).cons rfl)

end

/-- The pass leaves an expression with its quotients made calls exactly if both operands of every
quotient are whole. -/
theorem Expr.out_eq_iff (hTable : ∀ t ∈ table, IsTable t) (e : Expr) :
    e.out table = e.divided.tokens table ↔ e.isSound = true := by
  have hCompares := e.compares hTable
  constructor
  · intro hSame
    cases hSound : e.isSound with
    | true => rfl
    | false =>
      have hBelow := hCompares.below hSound
      rw [hSame] at hBelow
      exact absurd hBelow (lt_irrefl _)
  · exact hCompares.same

end DaxMigration.Formula
