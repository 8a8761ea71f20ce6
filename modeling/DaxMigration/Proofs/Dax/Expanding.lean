import DaxMigration.Proofs.Dax.Resolved
import Mathlib.Data.List.Forall2

/-!
# Expanding tokens

A resolved row stays one when operands are written out as resolved rows of their own and names are
exchanged for names that are no table calculations.
-/

namespace DaxMigration.Dax

open Formula

/-- What may stand for a token: itself, tokens that say nothing about constructs for one that is no
bracket, no comma and no field, or a row for an operand. A field may stand behind a name, which must
not come to stand in front of a bracket. -/
inductive Expands (bare : Bool) : Token → List Token → Prop
  | same (t : Token) : Expands bare t [t]
  | inert {t : Token} {ts : List Token} (hInner : t.IsInner) (hComma : t ≠ .comma)
      (hField : t.isField = false) (hFilled : ts ≠ []) (hInert : ∀ u ∈ ts, Inert u) : Expands bare t ts
  | spliced {t : Token} {ts : List Token} (hAtom : t.isAtom = true) (hFilled : ts ≠ [])
      (h : Resolved bare 0 ts) (hEnds : ∀ name, ts.getLast? ≠ some (.identifier name))
      (hField : t.isField = true → bare = true ∧ ts.head? ≠ some .lparen) : Expands bare t ts

namespace Expands

variable {bare : Bool} {t : Token} {ts : List Token}

theorem filled (h : Expands bare t ts) : ts ≠ [] := by
  cases h with
  | same => simp
  | inert _ _ _ hFilled | spliced _ hFilled => exact hFilled

/-- Brackets and commas stand for themselves. -/
theorem eq_of_sign (hSign : t ∈ [Token.comma, .lparen, .rparen]) (h : Expands bare t ts) : ts = [t] := by
  have hNone : ∀ t ∈ [Token.comma, .lparen, .rparen],
      t.isAtom = false ∧ (t ≠ .comma → t.opens = true ∨ t.closes = true) := by decide
  obtain ⟨hNotAtom, hBracket⟩ := hNone t hSign
  cases h with
  | same => rfl
  | inert hInner hComma =>
    rcases hBracket hComma with hOpens | hCloses
    · rw [hInner.opens] at hOpens
      cases hOpens
    · rw [hInner.closes] at hCloses
      cases hCloses
  | spliced hAtom =>
    rw [hNotAtom] at hAtom
    cases hAtom

end Expands

/-- What stands for two parts is what stands for the one and then for the other. -/
theorem exists_append_of_forall₂ {α β : Type} {R : α → β → Prop} {a b : List α} {cs : List β}
    (h : List.Forall₂ R (a ++ b) cs) :
    ∃ as bs, cs = as ++ bs ∧ List.Forall₂ R a as ∧ List.Forall₂ R b bs := by
  induction a generalizing cs with
  | nil => exact ⟨[], cs, rfl, .nil, h⟩
  | cons x a ih =>
    cases h with
    | cons hFirst hRest =>
      obtain ⟨as, bs, rfl, ha, hb⟩ := ih hRest
      exact ⟨_ :: as, bs, rfl, .cons hFirst ha, hb⟩

namespace Resolved

variable {bare : Bool} {m n : Nat} {ts us : List Token}

theorem flatten_eq_nil_iff {rows : List (List Token)} (h : List.Forall₂ (Expands bare) ts rows) :
    rows.flatten = [] ↔ ts = [] := by
  cases h with
  | nil => simp
  | cons hFirst => simp [hFirst.filled]

/-- What stands for brackets with a row inside. -/
theorem exists_bracketed {inner : List Token} {rows : List (List Token)}
    (h : List.Forall₂ (Expands bare) (.lparen :: (inner ++ .rparen :: ts)) rows) :
    ∃ inners others, rows.flatten = .lparen :: (inners.flatten ++ .rparen :: others.flatten) ∧
      List.Forall₂ (Expands bare) inner inners ∧ List.Forall₂ (Expands bare) ts others := by
  cases h with
  | cons hOpening hRest =>
    obtain ⟨inners, rest, rfl, hInner, hRest⟩ := exists_append_of_forall₂ hRest
    cases hRest with
    | cons hClosing hOthers =>
      obtain rfl := hOpening.eq_of_sign (by simp)
      obtain rfl := hClosing.eq_of_sign (by simp)
      exact ⟨inners, _, by simp, hInner, hOthers⟩

theorem expand (h : Resolved false n ts) {rows : List (List Token)}
    (hRows : List.Forall₂ (Expands bare) ts rows) : Resolved bare n rows.flatten := by
  induction h generalizing rows with
  | nil =>
    cases hRows
    exact .nil
  | inert hInert _ ih =>
    cases hRows with
    | cons hFirst hRest =>
      rw [List.flatten_cons]
      cases hFirst with
      | same => exact .inert hInert (ih hRest)
      | inert _ _ _ _ hOther => exact .inerts hOther (ih hRest)
      | spliced _ _ hSpliced hEnds _ =>
        have hBoth := hSpliced.append (fun _ name hLast => absurd hLast (hEnds name)) (ih hRest)
        rwa [Nat.zero_add] at hBoth
  | comma _ ih =>
    cases hRows with
    | cons hFirst hRest =>
      obtain rfl := hFirst.eq_of_sign (by simp)
      exact .comma (ih hRest)
  | group _ _ ihInner ih =>
    obtain ⟨inners, others, hFlat, hInner, hRest⟩ := exists_bracketed hRows
    rw [hFlat]
    exact .group (ihInner hInner) (ih hRest)
  | @kept _ _ name inner _ hName hKept _ _ ihInner ih =>
    cases hRows with
    | cons hFirst hRest =>
      obtain ⟨inners, others, hFlat, hInner, hRest⟩ := exists_bracketed hRest
      rw [List.flatten_cons, hFlat]
      have hCount : ∀ k, argumentCount k inners.flatten = argumentCount k inner := by
        intro k
        simp only [argumentCount, flatten_eq_nil_iff hInner]
      cases hFirst with
      | same => exact .kept hName (by rwa [hCount]) (ihInner hInner) (ih hRest)
      | inert _ _ _ _ hOther => exact .inerts hOther (.group (ihInner hInner) (ih hRest))
      | spliced hAtom => cases hAtom
  | @named k name f _ hName _ ih =>
    cases hRows with
    | cons hFirst hRest =>
      cases hRest with
      | @cons _ column _ others hColumn hRest =>
        have hOthers := ih hRest
        have hField : Resolved bare k (column ++ others.flatten) := by
          cases hColumn with
          | same => exact .inert (inert_of_isAtom rfl) hOthers
          | inert _ _ hNot => cases hNot
          | spliced _ _ hSpliced hEnds _ =>
            have hBoth := hSpliced.append (fun _ name hLast => absurd hLast (hEnds name)) hOthers
            rwa [Nat.zero_add] at hBoth
        rw [List.flatten_cons, List.flatten_cons]
        cases hFirst with
        | inert _ _ _ _ hOther => exact .inerts hOther hField
        | spliced hAtom => cases hAtom
        | same =>
          cases hColumn with
          | same => exact .named hName hOthers
          | inert _ _ hNot => cases hNot
          | spliced _ hFilled _ _ hHead =>
            obtain ⟨hBare, hNext⟩ := hHead rfl
            have hBehind : (column ++ others.flatten).head? ≠ some .lparen := by
              rwa [List.head?_append_of_ne_nil _ hFilled]
            exact .alone hBare hBehind hField
  | alone hBare => cases hBare

end Resolved

end DaxMigration.Dax
