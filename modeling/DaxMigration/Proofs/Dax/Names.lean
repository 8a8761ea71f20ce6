import DaxMigration.Proofs.Dax.Precedence
import DaxMigration.Proofs.Dax.Splicing

/-!
# Names in order

The pass that makes calls of quotients brings in a name and loses a sign, and leaves all else in its
order. So the names and the fields of an expression stand in the text that the standard rules write
of it as they stand in the formula, each function under the name that it is called by and each field
behind its table.
-/

namespace DaxMigration.Dax

open Formula Divisible

/-! ## What the pass leaves in order -/

section Order

variable {α : Type} [Divisible α] {p : α → Bool}

/-- No division sign is looked at, and nothing that a call brings with it. -/
structure Disregards (p : α → Bool) : Prop where
  slash : ∀ a, token a = .slash → p a = false
  quotient : ∀ left right, (quotient left right).filter p = left.filter p ++ right.filter p

def outerResult (frames : List (α × Terms α)) : List α :=
  frames.foldr (fun frame before => before ++ frame.2.result ++ [frame.1]) []

def Pass.whole (s : Pass α) : List α :=
  outerResult s.frames ++ s.current.result

variable (hp : Disregards p)
include hp

theorem filter_combine (left : List α) (sign : α) (right : List α) :
    (combine left sign right).filter p = (left ++ sign :: right).filter p := by
  unfold combine
  split
  · rename_i hQuotient
    have hSign : p sign = false := hp.slash sign hQuotient.1
    rw [hp.quotient, List.filter_append, List.filter_cons_of_neg (by simp [hSign])]
  · rfl

theorem Terms.filter_group (f : Terms α) (as : List α) :
    (f.group as).result.filter p = (f.result ++ as).filter p := by
  obtain ⟨done, waiting, operand, last⟩ := f
  cases waiting with
  | none => simp [Terms.group, Terms.result, Terms.value]
  | some w =>
    simp only [Terms.group, Terms.result, Terms.value, List.filter_append, filter_combine hp]
    rw [← List.cons_append, List.filter_append, List.append_assoc, List.append_assoc]

theorem Terms.filter_leaf (f : Terms α) (a : α) :
    (f.leaf a).result.filter p = (f.result ++ [a]).filter p := by
  cases hKind : unitKind f.last (token a) with
  | operand =>
    rw [Terms.leaf_of_operand hKind, ← Terms.filter_group hp]
    rfl
  | boundary =>
    rw [Terms.leaf_of_boundary hKind]
    simp [Terms.result, Terms.value]
  | multiply =>
    rw [Terms.leaf_of_sign (.inr hKind)]
    simp [Terms.result, Terms.value, filter_combine hp]
  | divide =>
    rw [Terms.leaf_of_sign (.inl hKind)]
    simp [Terms.result, Terms.value, filter_combine hp]

theorem Pass.filter_step (s : Pass α) (a : α) :
    (s.step a).whole.filter p = (s.whole ++ [a]).filter p := by
  obtain ⟨frames, current⟩ := s
  have hLeaf := Terms.filter_leaf hp current a
  simp only [List.filter_append] at hLeaf
  simp only [Pass.step]
  cases (token a).opens with
  | true => simp [Pass.whole, outerResult, Terms.start, Terms.result, Terms.value]
  | false =>
    cases (token a).closes with
    | false => simp [Pass.whole, hLeaf]
    | true =>
      cases frames with
      | nil => simp [Pass.whole, hLeaf]
      | cons frame frames =>
        have hGroup := Terms.filter_group hp frame.2 (frame.1 :: (current.result ++ [a]))
        simp only [List.filter_append] at hGroup
        simp [Pass.whole, outerResult, hGroup, List.filter_cons]

theorem Pass.filter_run (s : Pass α) (as : List α) :
    (s.run as).whole.filter p = (s.whole ++ as).filter p := by
  induction as generalizing s with
  | nil => simp
  | cons a as ih =>
    rw [Pass.run_cons, ih, List.filter_append, Pass.filter_step hp, ← List.filter_append]
    simp

/-- What is looked at stands in the divided row as it stands in the row. -/
theorem filter_divided {as : List α} (hClosed : (Pass.start.run as).frames = []) :
    (divided as).filter p = as.filter p := by
  have hRun := Pass.filter_run hp .start as
  rw [Pass.whole, hClosed] at hRun
  exact hRun

end Order

/-! ## Names and fields -/

/-- A field, or a name other than that of the call that takes the place of a quotient. -/
def isOwnName : Token → Bool
  | .identifier name => name != divideWord
  | .field _ => true
  | _ => false

theorem disregards_isOwnName : Disregards isOwnName where
  slash t hSlash := by
    obtain rfl : t = .slash := hSlash
    rfl
  quotient left right := by simp [quotient, isOwnName]

theorem disregards_isField : Disregards Token.isField where
  slash t hSlash := by
    obtain rfl : t = .slash := hSlash
    rfl
  quotient left right := by simp [quotient, Token.isField]

variable {t : Target}

/-- What the pass leaves in order stands in the text of an expression as it does in the formula,
respelled. -/
theorem filter_standard {p : Token → Bool} (hp : Disregards p) (ht : t.IsReadable)
    {source : List Char} {e : Expr} (hProper : e.IsProper) (hReads : Reads none (tokenize source) e)
    (hSetOff : (tokenize source).IsChain SetOff) :
    ((tokenize (standard t (tokenize source))).map Lexeme.token).filter p =
      (((tokenize source).map Lexeme.token).flatMap (Token.respelled t)).filter p := by
  have hTable : ∀ s ∈ some t.tableToken, IsTable s := by simpa using ht.table
  obtain ⟨hTokens, -⟩ := tokens_standard ht hProper hReads hSetOff
  obtain ⟨hDivided, hClosed⟩ := (e.respelled t).divided_tokens hTable (hProper.respelled ht)
  rw [hTokens, ← hDivided, filter_divided hp hClosed, e.tokens_respelled ht, hReads.tokens]

/-- No name is lost, joined to another or moved. -/
theorem names_standard (ht : t.IsReadable) {source : List Char} {e : Expr} (hProper : e.IsProper)
    (hReads : Reads none (tokenize source) e) (hSetOff : (tokenize source).IsChain SetOff) :
    ((tokenize (standard t (tokenize source))).map Lexeme.token).filter isOwnName =
      (((tokenize source).map Lexeme.token).flatMap (Token.respelled t)).filter isOwnName :=
  filter_standard disregards_isOwnName ht hProper hReads hSetOff

/-- The fields are those of the formula in the same order. -/
theorem fields_standard (ht : t.IsReadable) {source : List Char} {e : Expr} (hProper : e.IsProper)
    (hReads : Reads none (tokenize source) e) (hSetOff : (tokenize source).IsChain SetOff) :
    ((tokenize (standard t (tokenize source))).map Lexeme.token).filter Token.isField =
      ((tokenize source).map Lexeme.token).filter Token.isField := by
  have hTable : t.tableToken.isField = false := by
    have hName := ht.table
    generalize t.tableToken = s at hName
    cases hName <;> rfl
  have hSame : ∀ s, (Token.respelled t s).filter Token.isField = [s].filter Token.isField := by
    intro s
    cases s with
    | field name => rw [Token.respelled, List.filter_cons_of_neg (by simp [hTable])]
    | _ => rfl
  rw [filter_standard disregards_isField ht hProper hReads hSetOff, List.filter_flatMap]
  generalize (tokenize source).map Lexeme.token = ts
  induction ts with
  | nil => rfl
  | cons s ts ih => rw [List.flatMap_cons, hSame, ih, ← List.filter_append, List.singleton_append]

/-- A formula that is converted by the standard rules keeps its names and its fields in order. -/
theorem order_of_attempt (ht : t.IsReadable) {source : List Char} {e : Expr} (hProper : e.IsProper)
    (hReads : Reads none (tokenize source) e) (hSetOff : (tokenize source).IsChain SetOff)
    {facts : Facts} {dax : List Char} {remarks : List Remark}
    (h : attempt t source = .converted .standard facts dax remarks) :
    ((tokenize dax).map Lexeme.token).filter isOwnName =
        (((tokenize source).map Lexeme.token).flatMap (Token.respelled t)).filter isOwnName ∧
      ((tokenize dax).map Lexeme.token).filter Token.isField =
        ((tokenize source).map Lexeme.token).filter Token.isField := by
  obtain ⟨-, hDax⟩ := gives_of_attempt h
  obtain rfl := gives_standardRemarked hDax
  exact ⟨names_standard ht hProper hReads hSetOff, fields_standard ht hProper hReads hSetOff⟩

end DaxMigration.Dax
