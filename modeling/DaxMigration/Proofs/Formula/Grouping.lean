import DaxMigration.Formula.Group
import DaxMigration.Proofs.Formula.Parts

/-!
# Groups from the left

Grouping reads a list once and keeps the brackets that are open. The groups of a list can as well be
told from its left end: a lexeme that opens nothing stands by itself, and so does a bracket without
a partner; a bracket with one encloses the groups of what stands between the two.
-/

namespace DaxMigration.Formula

namespace Grouping

variable {g : Grouping} {l : Lexeme} {ls : List Lexeme}

/-- The depth of brackets is the number of those that are open. -/
theorem length_frames_step {depth : Nat} {ts : List Token}
    (h : level g.frames.length (l.token :: ts) = some depth) :
    level (g.step l).frames.length ts = some depth ∧
      (l.token.closes = true → g.frames ≠ []) := by
  obtain ⟨frames, current⟩ := g
  rw [step]
  rcases level_cons h with ⟨hOpens, hRest⟩ | ⟨hOpens, hCloses, outer, hDepth, hRest⟩ |
      ⟨hOpens, hCloses, hRest⟩
  · rw [if_pos hOpens]
    refine ⟨hRest, fun hCloses => ?_⟩
    cases hToken : l.token <;> simp_all [Token.opens, Token.closes]
  · cases frames with
    | nil => cases hDepth
    | cons frame frames =>
      obtain rfl : frames.length = outer := by simpa using hDepth
      simpa [hOpens, hCloses] using hRest
  · simpa [hOpens, hCloses] using hRest

/-! ## Further brackets around -/

def above (g : Grouping) (frames : List (Lexeme × List Piece)) : Grouping :=
  ⟨g.frames ++ frames, g.current⟩

theorem step_above (h : l.token.closes = true → g.frames ≠ []) (frames : List (Lexeme × List Piece)) :
    (g.above frames).step l = (g.step l).above frames := by
  obtain ⟨own, current⟩ := g
  simp only [step, above]
  cases l.token.opens with
  | true => rfl
  | false =>
    cases hCloses : l.token.closes with
    | false => rfl
    | true =>
      cases own with
      | nil => exact absurd rfl (h hCloses)
      | cons frame own => rfl

/-- Where nothing is closed that was open before, the brackets around do not matter. -/
theorem run_above {depth : Nat} (h : level g.frames.length (ls.map Lexeme.token) = some depth)
    (frames : List (Lexeme × List Piece)) :
    ls.foldl step (g.above frames) = (ls.foldl step g).above frames ∧
      (ls.foldl step g).frames.length = depth := by
  induction ls generalizing g with
  | nil => exact ⟨rfl, Option.some.inj h⟩
  | cons l ls ih =>
    obtain ⟨hNext, hOpen⟩ := length_frames_step h
    rw [List.foldl_cons, step_above hOpen]
    exact ih hNext

/-! ## Pieces in front -/

def after (ps : List Piece) : List (Lexeme × List Piece) → List (Lexeme × List Piece)
  | [] => []
  | [(opening, before)] => [(opening, ps ++ before)]
  | frame :: next :: frames => frame :: after ps (next :: frames)

def behind (ps : List Piece) (g : Grouping) : Grouping :=
  ⟨after ps g.frames, if g.frames = [] then ps ++ g.current else g.current⟩

theorem step_behind (ps : List Piece) (g : Grouping) (l : Lexeme) :
    (behind ps g).step l = behind ps (g.step l) := by
  obtain ⟨frames, current⟩ := g
  match frames with
  | [] =>
    cases hOpens : l.token.opens <;> cases hCloses : l.token.closes <;>
      simp [step, behind, after, hOpens, hCloses]
  | [(opening, before)] =>
    cases hOpens : l.token.opens <;> cases hCloses : l.token.closes <;>
      simp [step, behind, after, hOpens, hCloses]
  | (opening, before) :: next :: frames =>
    cases hOpens : l.token.opens <;> cases hCloses : l.token.closes <;>
      simp [step, behind, after, hOpens, hCloses]

theorem run_behind (ps : List Piece) (g : Grouping) (ls : List Lexeme) :
    ls.foldl step (behind ps g) = behind ps (ls.foldl step g) := by
  induction ls generalizing g with
  | nil => rfl
  | cons l ls ih => rw [List.foldl_cons, step_behind, ih, List.foldl_cons]

theorem finished_behind (ps : List Piece) (g : Grouping) :
    (behind ps g).finished = ps ++ g.finished := by
  obtain ⟨frames, current⟩ := g
  induction frames generalizing current with
  | nil => rfl
  | cons frame frames ih =>
    obtain ⟨opening, before⟩ := frame
    cases frames with
    | nil => simp [behind, after, finished, finish]
    | cons next frames =>
      have hRest := ih (before ++ .leaf opening :: current)
      simpa [behind, after, finished, finish] using hRest

theorem finish_append (frames outer : List (Lexeme × List Piece)) (current : List Piece) :
    finish (frames ++ outer) current = finish outer (finish frames current) := by
  induction frames generalizing current with
  | nil => rfl
  | cons frame frames ih => exact ih _

end Grouping

open Grouping

variable {l closing : Lexeme} {ls inner rest : List Lexeme}

/-- What is grouped by itself stands in front of the groups of the rest. -/
theorem finished_run (ps : List Piece) (ls : List Lexeme) :
    (ls.foldl step ⟨[], ps⟩).finished = ps ++ group ls := by
  have hStart : (⟨[], ps⟩ : Grouping) = behind ps .start := by simp [behind, after, Grouping.start]
  rw [hStart, run_behind, finished_behind]
  rfl

theorem group_leaf (h : l.token.opens = false) : group (l :: rest) = .leaf l :: group rest := by
  have hStep : Grouping.start.step l = ⟨[], [.leaf l]⟩ := by
    cases hCloses : l.token.closes <;> simp [step, Grouping.start, h, hCloses]
  rw [group, List.foldl_cons, hStep]
  exact finished_run [.leaf l] rest

theorem group_group (hOpens : l.token.opens = true) (hInner : Balanced inner)
    (hClosing : closing.token.closes = true) :
    group (l :: (inner ++ closing :: rest)) = .group l (group inner) closing :: group rest := by
  have hNotOpens : closing.token.opens = false := by
    cases hToken : closing.token <;> simp_all [Token.opens, Token.closes]
  obtain ⟨hRun, hFrames⟩ := run_above (g := .start) hInner [(l, [])]
  have hOpen : Grouping.start.step l = Grouping.start.above [(l, [])] := by
    simp [step, Grouping.start, above, hOpens]
  have hNone : (inner.foldl step .start).frames = [] := List.length_eq_zero_iff.1 hFrames
  have hClose : ((inner.foldl step .start).above [(l, [])]).step closing =
      ⟨[], [.group l (group inner) closing]⟩ := by
    simp [step, above, hNone, hNotOpens, hClosing, group, finished, finish]
  rw [group, List.foldl_cons, List.foldl_append, hOpen, hRun, List.foldl_cons, hClose]
  exact finished_run [.group l (group inner) closing] rest

/-- A search for a partner that fails passes over brackets that close what was opened on the way. -/
theorem level_of_closeFrom_none {depth i : Nat} (h : closeFrom (depth + 1) i ls = none) :
    ∃ stop, level depth (ls.map Lexeme.token) = some stop := by
  induction ls generalizing depth i with
  | nil => exact ⟨depth, rfl⟩
  | cons l ls ih =>
    rw [closeFrom.eq_def] at h
    cases hOpens : l.token.opens with
    | true =>
      simp only [hOpens, if_true] at h
      obtain ⟨stop, hStop⟩ := ih h
      exact ⟨stop, by simp [level, hOpens, hStop]⟩
    | false =>
      cases hCloses : l.token.closes with
      | false =>
        simp only [hOpens, hCloses, Bool.false_eq_true, if_false] at h
        obtain ⟨stop, hStop⟩ := ih h
        exact ⟨stop, by simp [level, hOpens, hCloses, hStop]⟩
      | true =>
        cases depth with
        | zero => simp [hOpens, hCloses] at h
        | succ depth =>
          simp only [hOpens, hCloses, Bool.false_eq_true, if_false, if_true] at h
          obtain ⟨stop, hStop⟩ := ih h
          exact ⟨stop, by simp [level, hOpens, hCloses, hStop]⟩

theorem group_unclosed {i : Nat} (hOpens : l.token.opens = true)
    (h : closeFrom 0 i (l :: rest) = none) : group (l :: rest) = .leaf l :: group rest := by
  -- The bracket stays the outermost open one to the end, where what is open is put back as leaves.
  rw [closeFrom.eq_def] at h
  simp only [hOpens, if_true] at h
  obtain ⟨stop, hStop⟩ := level_of_closeFrom_none h
  obtain ⟨hRun, -⟩ := run_above (g := .start) hStop [(l, [])]
  have hOpen : Grouping.start.step l = Grouping.start.above [(l, [])] := by
    simp [step, Grouping.start, above, hOpens]
  rw [group, List.foldl_cons, hOpen, hRun, finished, above, finish_append]
  simp [finish, group, finished]

/-! ## Rows with every bracket closed -/

/-- Every opening bracket has its partner in the row. A closing one need not have one. -/
def AllClosed (ls : List Lexeme) : Prop :=
  ∀ i < ls.length, (tokenAt ls i).any Token.opens = true → (matchingClose ls i).isSome = true

instance (ls : List Lexeme) : Decidable (AllClosed ls) :=
  inferInstanceAs (Decidable (∀ i < ls.length, _))

theorem AllClosed.drop (h : AllClosed ls) (n : Nat) : AllClosed (ls.drop n) := by
  intro i hi hOpens
  have hToken : tokenAt ls (n + i) = tokenAt (ls.drop n) i := by
    rw [tokenAt, tokenAt, List.getElem?_drop]
  have hClose : matchingClose ls (n + i) = (matchingClose (ls.drop n) i).map (· + n) := by
    rw [matchingClose, matchingClose, List.drop_drop, Nat.add_comm, closeFrom_shift]
  rw [List.length_drop] at hi
  have hFound := h (n + i) (by omega) (hToken ▸ hOpens)
  rwa [hClose, Option.isSome_map] at hFound

/-- What follows a row with every bracket closed is grouped by itself. -/
theorem group_append {a : List Lexeme} (h : AllClosed a) (b : List Lexeme) :
    group (a ++ b) = group a ++ group b := by
  -- On the length: behind a bracket the row goes on after its partner.
  induction hn : a.length using Nat.strongRecOn generalizing a with
  | ind n ih =>
    subst hn
    cases a with
    | nil => rfl
    | cons l a =>
      cases hOpens : l.token.opens with
      | false =>
        have hRest : AllClosed a := h.drop 1
        rw [List.cons_append, group_leaf hOpens, group_leaf hOpens, List.cons_append,
          ih _ (by simp) hRest rfl]
      | true =>
        have hFound := h 0 (by simp) (by simpa [tokenAt] using hOpens)
        obtain ⟨close, hClose⟩ := Option.isSome_iff_exists.1 hFound
        rw [matchingClose, List.drop_zero, closeFrom.eq_def] at hClose
        simp only [hOpens, if_true] at hClose
        obtain ⟨inner, closing, rest, rfl, hInner, hCloses, -⟩ := closeFrom_eq_some hClose
        have hRest : AllClosed rest := by
          have hDrop := h.drop (inner.length + 2)
          simpa using hDrop
        rw [List.cons_append, List.append_assoc, List.cons_append, group_group hOpens hInner hCloses,
          group_group hOpens hInner hCloses, List.cons_append,
          ih _ (by simp only [List.length_cons, List.length_append]; omega) hRest rfl]

end DaxMigration.Formula
