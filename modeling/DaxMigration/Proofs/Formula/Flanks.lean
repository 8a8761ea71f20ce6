import DaxMigration.Proofs.Formula.Parts
import Mathlib.Data.List.Chain

/-!
# Flanks of operators

Rows in which every operator that joins factors has a factor on both sides. Brackets, commas and
colons are no factors, so this holds of what they enclose as soon as it holds of the whole; and
spliced text is a factor to either side of it.
-/

namespace DaxMigration.Formula

namespace Token

/-- The operators in question: division, and with `signs` multiplication as well. -/
def isJoint (signs : Bool) : Token → Bool
  | slash => true
  | asterisk => signs
  | _ => false

def endsFactor (signs : Bool) : Token → Bool
  | number _ | string _ | singleQuoted _ | boolean _ | field _ | verbatim _ | rparen | rbrace => true
  | identifier name =>
    !(identifier name).isDivisionBoundary || (signs && (identifier name).isWord "END")
  | _ => false

def beginsFactor (signs : Bool) : Token → Bool
  | number _ | string _ | singleQuoted _ | boolean _ | field _ | verbatim _ | lparen | lbrace
  | plus | minus => true
  | identifier name =>
    !(identifier name).isDivisionBoundary || (identifier name).isWord "NOT" ||
      (signs && ((identifier name).isWord "IF" || (identifier name).isWord "CASE"))
  | _ => false

variable {signs : Bool} {t : Token}

theorem beginsFactor_of_isJoint (h : t.isJoint signs = true) : t.beginsFactor signs = false := by
  cases t <;> first | rfl | cases h

theorem isJoint_of_beginsFactor (h : t.beginsFactor signs = true) : t.isJoint signs = false :=
  Bool.eq_false_iff.2 fun hJoint => by rw [beginsFactor_of_isJoint hJoint] at h; cases h

theorem isJoint_of_opens (h : t.opens = true) : t.isJoint signs = false := by
  cases t <;> first | rfl | cases h

theorem endsFactor_of_opens (h : t.opens = true) : t.endsFactor signs = false := by
  cases t <;> first | rfl | cases h

theorem beginsFactor_of_closes (h : t.closes = true) : t.beginsFactor signs = false := by
  cases t <;> first | rfl | cases h

end Token

structure Meets (signs : Bool) (l m : Lexeme) : Prop where
  left : m.token.isJoint signs = true → l.token.endsFactor signs = true
  right : l.token.isJoint signs = true → m.token.beginsFactor signs = true

/-- Every operator has a factor on both sides. -/
structure Flanked (signs : Bool) (ls : List Lexeme) : Prop where
  chain : ls.IsChain (Meets signs)
  first : ∀ l ∈ ls.head?, l.token.isJoint signs = false
  last : ∀ l ∈ ls.getLast?, l.token.isJoint signs = false

instance (signs : Bool) : DecidableRel (Meets signs) := fun _ _ =>
  decidable_of_iff (_ ∧ _) ⟨fun h => ⟨h.1, h.2⟩, fun h => ⟨h.left, h.right⟩⟩

instance (signs : Bool) (ls : List Lexeme) : Decidable (Flanked signs ls) :=
  decidable_of_iff (_ ∧ _ ∧ _) ⟨fun h => ⟨h.1, h.2.1, h.2.2⟩, fun h => ⟨h.chain, h.first, h.last⟩⟩

variable {signs : Bool} {x y : Lexeme} {ls : List Lexeme}

theorem isChain_within {run : List Lexeme} (h : ls.IsChain (Meets signs)) (hRun : run <:+: ls) :
    run.IsChain (Meets signs) := by
  obtain ⟨before, after, rfl⟩ := hRun
  exact (List.isChain_append.1 (List.isChain_append.1 h).1).2.1

theorem flanked_of_enclosed (h : (x :: (ls ++ [y])).IsChain (Meets signs))
    (hx : x.token.endsFactor signs = false) (hy : y.token.beginsFactor signs = false) :
    Flanked signs ls := by
  obtain ⟨hFirst, hRest⟩ := List.isChain_cons.1 h
  obtain ⟨hChain, -, hLast⟩ := List.isChain_append.1 hRest
  refine ⟨hChain, fun l hl => ?_, fun l hl => ?_⟩
  · have hHead : l ∈ (ls ++ [y]).head? := by
      rw [List.head?_append, Option.mem_def.1 hl]
      rfl
    refine Bool.eq_false_iff.2 fun hJoint => ?_
    rw [(hFirst l hHead).left hJoint] at hx
    cases hx
  · refine Bool.eq_false_iff.2 fun hJoint => ?_
    rw [(hLast l hl y rfl).right hJoint] at hy
    cases hy

theorem Flanked.enclosed (h : Flanked signs ls) (hx : x.token.isJoint signs = false)
    (hy : y.token.isJoint signs = false) : (x :: (ls ++ [y])).IsChain (Meets signs) := by
  have hLast : (ls ++ [y]).IsChain (Meets signs) := by
    refine List.isChain_append.2 ⟨h.chain, .singleton y, fun l hl m hm => ?_⟩
    obtain rfl : y = m := by simpa using hm
    exact ⟨by simp [hy], by simp [h.last l hl]⟩
  refine List.isChain_cons.2 ⟨fun l hl => ⟨?_, by simp [hx]⟩, hLast⟩
  cases ls with
  | nil =>
    obtain rfl : y = l := by simpa using hl
    simp [hy]
  | cons m ls =>
    obtain rfl : m = l := by simpa using hl
    simp [h.first m rfl]

/-- The rows that commas part inside brackets. -/
theorem Listed.flanked {rows : List (List Lexeme)} {body : List Lexeme} (h : Listed rows body)
    (hChain : (x :: (body ++ [y])).IsChain (Meets signs)) (hx : x.token.endsFactor signs = false)
    (hy : y.token.beginsFactor signs = false) : ∀ row ∈ rows, Flanked signs row := by
  induction h generalizing x with
  | single row => simpa using flanked_of_enclosed hChain hx hy
  | @more row comma rows body hComma hRest ih =>
    rw [List.append_assoc, List.cons_append, ← List.cons_append, List.isChain_split] at hChain
    obtain ⟨hRow, hBody⟩ := hChain
    refine List.forall_mem_cons.2 ⟨?_, ih hBody (by rw [hComma]; rfl)⟩
    exact flanked_of_enclosed hRow hx (by rw [hComma]; rfl)

/-- The expression of a block. -/
theorem BlockRun.IsBlock.flanked {r : BlockRun} (h : r.IsBlock)
    (hChain : r.lexemes.IsChain (Meets signs)) : Flanked signs r.inner := by
  have hClosing : r.closing.token.beginsFactor signs = false := by
    rw [h.closing]
    rfl
  rcases h.head with ⟨hHead, -⟩ | ⟨before, colon, hHead, -, -, hColon⟩
  · rw [BlockRun.lexemes, hHead, List.nil_append] at hChain
    exact flanked_of_enclosed hChain (by rw [h.opening]; rfl) hClosing
  · rw [BlockRun.lexemes, hHead, List.append_assoc, List.append_assoc, List.singleton_append,
      ← List.cons_append, List.isChain_split] at hChain
    exact flanked_of_enclosed hChain.2 (by rw [hColon]; rfl) hClosing

end DaxMigration.Formula
