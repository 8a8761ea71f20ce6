import DaxMigration.Formula.Token

/-!
# Groups

A list of lexemes as a forest: every bracket that closes is a group with what stands between, and
brackets without a partner are leaves like any other lexeme. Listing the leaves gives the lexemes
back.
-/

namespace DaxMigration.Formula

inductive Piece where
  | leaf (l : Lexeme)
  | group (opening : Lexeme) (inner : List Piece) (closing : Lexeme)

namespace Piece

mutual

def flatten : Piece → List Lexeme
  | leaf l => [l]
  | group opening inner closing => opening :: (flattenAll inner ++ [closing])

def flattenAll : List Piece → List Lexeme
  | [] => []
  | p :: rest => flatten p ++ flattenAll rest

end

@[simp]
theorem flattenAll_append (a b : List Piece) : flattenAll (a ++ b) = flattenAll a ++ flattenAll b := by
  induction a with
  | nil => rfl
  | cons p rest ih => simp [flattenAll, ih]

end Piece

/-- Brackets that are open, innermost first, each with what stands before it in its own group; and
what was read of the innermost group. -/
structure Grouping where
  frames : List (Lexeme × List Piece)
  current : List Piece

namespace Grouping

def start : Grouping := ⟨[], []⟩

def step (g : Grouping) (l : Lexeme) : Grouping :=
  if l.token.opens then ⟨(l, g.current) :: g.frames, []⟩
  else if l.token.closes then
    match g.frames with
    | [] => ⟨[], g.current ++ [.leaf l]⟩
    | (opening, before) :: frames => ⟨frames, before ++ [.group opening g.current l]⟩
  else ⟨g.frames, g.current ++ [.leaf l]⟩

/-- Brackets still open at the end become leaves. -/
def finish : List (Lexeme × List Piece) → List Piece → List Piece
  | [], current => current
  | (opening, before) :: frames, current => finish frames (before ++ .leaf opening :: current)

def finished (g : Grouping) : List Piece :=
  finish g.frames g.current

theorem flatten_finish_append (frames : List (Lexeme × List Piece)) (a b : List Piece) :
    Piece.flattenAll (finish frames (a ++ b)) =
      Piece.flattenAll (finish frames a) ++ Piece.flattenAll b := by
  induction frames generalizing a with
  | nil => simp [finish]
  | cons f frames ih =>
    simp only [finish]
    rw [← List.cons_append, ← List.append_assoc, ih]

theorem flatten_finished_step (g : Grouping) (l : Lexeme) :
    Piece.flattenAll (g.step l).finished = Piece.flattenAll g.finished ++ [l] := by
  unfold step finished
  split
  · have h := flatten_finish_append g.frames g.current [.leaf l]
    simpa [finish, Piece.flatten, Piece.flattenAll] using h
  split
  · split
    · next h => simp [h, finish, Piece.flatten, Piece.flattenAll]
    · next opening before frames h =>
      rw [h, finish, flatten_finish_append, flatten_finish_append]
      simp [Piece.flatten, Piece.flattenAll]
  · simp [flatten_finish_append, Piece.flatten, Piece.flattenAll]

end Grouping

def group (ls : List Lexeme) : List Piece :=
  (ls.foldl Grouping.step .start).finished

/-- Grouping loses no lexeme and keeps their order. -/
theorem flatten_group (ls : List Lexeme) : Piece.flattenAll (group ls) = ls := by
  suffices h : ∀ g : Grouping, Piece.flattenAll (ls.foldl Grouping.step g).finished =
      Piece.flattenAll g.finished ++ ls by
    exact h .start
  induction ls with
  | nil => simp
  | cons l rest ih => intro g; simp [ih, Grouping.flatten_finished_step]

end DaxMigration.Formula
