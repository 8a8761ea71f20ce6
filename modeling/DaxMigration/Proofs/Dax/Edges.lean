import DaxMigration.Proofs.Dax.Passage
import DaxMigration.Proofs.Dax.Quotients

/-!
# Comments at the edges of terms

A comment ends the term in front of it, and the next one begins behind it. Where a term begins or
ends there anyway, the comment changes nothing: the pass makes the same calls of the row with its
comments and of the row without them.
-/

namespace DaxMigration.Dax

open Formula Divisible

/-! ## Where terms begin and end -/

/-- What a level of brackets is to a comment and to what follows one. -/
structure Edge where
  /-- No token of the term has been read. -/
  fresh : Bool
  /-- The kind of the last unit besides comments. -/
  last : Option UnitKind
  /-- A comment stands in front. -/
  cut : Bool

namespace Edge

def start : Edge := ⟨true, none, false⟩

def operand : Edge := ⟨false, some .operand, false⟩

/-- Behind a comment a term goes on with none of its parts. -/
def lets (e : Edge) (kind : UnitKind) : Bool :=
  !e.cut || kind == .boundary || (e.fresh && kind == .operand)

def leaf? (e : Edge) (t : Token) : Option Edge :=
  let kind := unitKind e.last t
  if t.isComment then
    if e.last = some .multiply ∨ e.last = some .divide then none else some { e with cut := true }
  else if e.lets kind then some ⟨kind == .boundary, some kind, false⟩
  else none

end Edge

structure Edges where
  depth : Nat
  current : Edge

namespace Edges

def step? (g : Edges) (t : Token) : Option Edges :=
  if t.opens then if g.current.lets .operand then some ⟨g.depth + 1, .start⟩ else none
  else if t.closes then
    match g.depth with
    | 0 => (g.current.leaf? t).map (⟨0, ·⟩)
    | depth + 1 => some ⟨depth, .operand⟩
  else (g.current.leaf? t).map (⟨g.depth, ·⟩)

def admits : Edges → List Token → Bool
  | _, [] => true
  | g, t :: ts => (g.step? t).any fun g' => g'.admits ts

end Edges

def AtEdges (ts : List Token) : Prop :=
  Edges.admits ⟨0, .start⟩ ts = true

instance (ts : List Token) : Decidable (AtEdges ts) :=
  inferInstanceAs (Decidable (_ = true))

theorem Edges.admits_cons {g : Edges} {t : Token} {ts : List Token} :
    g.admits (t :: ts) = true ↔ ∃ g', g.step? t = some g' ∧ g'.admits ts = true := by
  rw [admits]
  cases g.step? t <;> simp

theorem Edges.admits_of_none {ts : List Token} (h : ∀ t ∈ ts, t.isComment = false) {g : Edges}
    (hCut : g.current.cut = false) : g.admits ts = true := by
  induction ts generalizing g with
  | nil => rfl
  | cons t ts ih =>
    obtain ⟨hFirst, hRest⟩ := List.forall_mem_cons.1 h
    have hLets : ∀ kind, g.current.lets kind = true := fun kind => by simp [Edge.lets, hCut]
    have hLeaf : ∀ depth, ∃ g', (g.current.leaf? t).map (Edges.mk depth ·) = some g' ∧
        g'.current.cut = false := fun depth => by simp [Edge.leaf?, hFirst, hLets]
    have hStep : ∃ g', g.step? t = some g' ∧ g'.current.cut = false := by
      unfold Edges.step?
      split
      · simp [hLets, Edge.start]
      split
      · split
        · exact hLeaf 0
        · exact ⟨_, rfl, rfl⟩
      · exact hLeaf g.depth
    obtain ⟨g', hSome, hNext⟩ := hStep
    exact admits_cons.2 ⟨g', hSome, ih hRest hNext⟩

theorem atEdges_of_none {ts : List Token} (h : ∀ t ∈ ts, t.isComment = false) : AtEdges ts :=
  Edges.admits_of_none h rfl

/-! ## Neighbours of comments -/

theorem brackets_of_isComment {t : Token} (h : t.isComment = true) :
    t.opens = false ∧ t.closes = false := by
  cases t <;> first | exact ⟨rfl, rfl⟩ | cases h

theorem Edges.step?_comment {g g' : Edges} {t : Token} (hComment : t.isComment = true)
    (h : g.step? t = some g') : g.current.last ≠ some .multiply ∧ g.current.last ≠ some .divide ∧
      g' = ⟨g.depth, { g.current with cut := true }⟩ := by
  obtain ⟨hOpens, hCloses⟩ := brackets_of_isComment hComment
  simp only [step?, hOpens, hCloses, Bool.false_eq_true, if_false, Edge.leaf?, hComment, if_true,
    Option.map_eq_some_iff] at h
  obtain ⟨e, hEdge, rfl⟩ := h
  split at hEdge
  · cases hEdge
  · rename_i hLast
    obtain rfl := Option.some.inj hEdge
    exact ⟨fun h => hLast (.inl h), fun h => hLast (.inr h), rfl⟩

/-- A factor sign is read within a term. -/
theorem Edges.step?_factorSign {g g' : Edges} {t : Token} (hSign : isFactorSign t = true)
    (h : g.step? t = some g') : g.current.cut = false ∧
      (g'.current.last = some .multiply ∨ g'.current.last = some .divide) := by
  have hPlain : t.opens = false ∧ t.closes = false ∧ t.isComment = false := by
    cases t <;> first | exact ⟨rfl, rfl, rfl⟩ | cases hSign
  obtain ⟨hOpens, hCloses, hComment⟩ := hPlain
  simp only [step?, hOpens, hCloses, Bool.false_eq_true, if_false, Edge.leaf?, hComment,
    Option.map_eq_some_iff] at h
  obtain ⟨e, hEdge, rfl⟩ := h
  rcases unitKind_of_isFactorSign hSign g.current.last with ⟨hKind, -⟩ | ⟨hKind, -⟩
  · simp only [hKind, Edge.lets] at hEdge
    split at hEdge
    · rename_i hLets
      obtain rfl := Option.some.inj hEdge
      exact ⟨by simpa using hLets, .inr rfl⟩
    · cases hEdge
  · simp only [hKind, Edge.lets] at hEdge
    split at hEdge
    · rename_i hLets
      obtain rfl := Option.some.inj hEdge
      exact ⟨by simpa using hLets, .inl rfl⟩
    · cases hEdge

/-- No comment stands next to an operator of a term. -/
theorem isChain_of_atEdges {ts : List Token} (h : AtEdges ts) :
    ts.IsChain fun s u => (s.isComment = true → isFactorSign u = false) ∧
      (isFactorSign s = true → u.isComment = false) := by
  unfold AtEdges at h
  generalize (⟨0, .start⟩ : Edges) = g at h
  induction ts generalizing g with
  | nil => exact .nil
  | cons s ts ih =>
    obtain ⟨g', hStep, hRest⟩ := Edges.admits_cons.1 h
    refine List.isChain_cons.2 ⟨fun u hu => ?_, ih g' hRest⟩
    cases ts with
    | nil => cases hu
    | cons v ts =>
      obtain rfl : v = u := by simpa using hu
      obtain ⟨g'', hNext, -⟩ := Edges.admits_cons.1 hRest
      constructor
      · intro hComment
        obtain ⟨-, -, rfl⟩ := Edges.step?_comment hComment hStep
        refine Bool.eq_false_iff.2 fun hSign => ?_
        cases (Edges.step?_factorSign hSign hNext).1
      · intro hSign
        obtain ⟨-, hLast⟩ := Edges.step?_factorSign hSign hStep
        refine Bool.eq_false_iff.2 fun hComment => ?_
        obtain ⟨hTimes, hOver, -⟩ := Edges.step?_comment hComment hNext
        exact hLast.elim hTimes hOver

/-! ## The pass over a row with comments -/

def sieve (ts : List Token) : List Token :=
  ts.filter fun t => !t.isComment

structure Sieved (ts ts' : List Token) : Prop where
  tokens : sieve ts = ts'
  filled : ts' = [] → ts = []

theorem sieve_append (a b : List Token) : sieve (a ++ b) = sieve a ++ sieve b :=
  List.filter_append ..

theorem sieve_cons_of_comment {t : Token} (h : t.isComment = true) (ts : List Token) :
    sieve (t :: ts) = sieve ts :=
  List.filter_cons_of_neg (by simp [h])

theorem sieve_cons_of_not_comment {t : Token} (h : t.isComment = false) (ts : List Token) :
    sieve (t :: ts) = t :: sieve ts :=
  List.filter_cons_of_pos (by simp [h])

namespace Sieved

variable {a a' b b' : List Token}

theorem nil : Sieved [] [] :=
  ⟨rfl, id⟩

theorem eq_nil_iff (h : Sieved a a') : a' = [] ↔ a = [] := by
  refine ⟨h.filled, ?_⟩
  rintro rfl
  exact h.tokens.symm

theorem append (ha : Sieved a a') (hb : Sieved b b') : Sieved (a ++ b) (a' ++ b') where
  tokens := by rw [sieve_append, ha.tokens, hb.tokens]
  filled hEmpty := by
    obtain ⟨rfl, rfl⟩ := List.append_eq_nil_iff.1 hEmpty
    rw [ha.filled rfl, hb.filled rfl]
    rfl

theorem single {t : Token} (h : t.isComment = false) : Sieved [t] [t] :=
  ⟨sieve_cons_of_not_comment h [], by simp⟩

/-- A group is more than the comments in it. -/
theorem group {opening closing : Token} (hOpening : opening.isComment = false)
    (hClosing : closing.isComment = false) {inner inner' : List Token} (h : sieve inner = inner') :
    Sieved (opening :: (inner ++ [closing])) (opening :: (inner' ++ [closing])) where
  tokens := by
    rw [sieve_cons_of_not_comment hOpening, sieve_append, sieve_cons_of_not_comment hClosing, h]
    rfl
  filled := by simp

theorem combine {sign : Token} (hSign : sign.isComment = false) (ha : Sieved a a')
    (hb : Sieved b b') : Sieved (combine a sign b) (combine a' sign b') := by
  unfold Dax.combine
  simp only [ne_eq, ha.eq_nil_iff, hb.eq_nil_iff]
  split
  · refine ⟨?_, by simp [quotient]⟩
    simp [quotient, sieve, ← ha.tokens, ← hb.tokens, Token.isComment]
  · exact ha.append ((single hSign).append hb)

end Sieved

inductive Awaits : Option (List Token × Token) → Option (List Token × Token) → Prop
  | none : Awaits none none
  | some {left left' : List Token} {sign : Token} (h : Sieved left left')
      (hSign : sign.isComment = false) : Awaits (some (left, sign)) (some (left', sign))

structure Terms.Alongside (f f' : Terms Token) : Prop where
  done : sieve f.done = f'.done
  waiting : Awaits f.waiting f'.waiting
  operand : Sieved f.operand f'.operand

namespace Terms.Alongside

variable {f f' : Terms Token}

theorem value (h : f.Alongside f') : Sieved f.value f'.value := by
  obtain ⟨done, waiting, operand, last⟩ := f
  obtain ⟨done', waiting', operand', last'⟩ := f'
  obtain ⟨-, hWaiting, hOperand⟩ := h
  cases hWaiting with
  | none => exact hOperand
  | some hLeft hSign => exact hLeft.combine hSign hOperand

theorem result (h : f.Alongside f') : sieve f.result = f'.result := by
  rw [Terms.result, Terms.result, sieve_append, h.done, h.value.tokens]

theorem group (h : f.Alongside f') {as as' : List Token} (hGroup : Sieved as as') :
    (f.group as).Alongside (f'.group as') :=
  ⟨h.done, h.waiting, h.operand.append hGroup⟩

end Terms.Alongside

/-- A level of brackets that is read with its comments, and the level without them. Behind a comment
a term goes on in the second that is over in the first. -/
structure Edge.Fits (e : Edge) (f f' : Terms Token) : Prop where
  last : f.last = e.last
  last' : f'.last = e.last
  fresh : e.fresh = true → f'.waiting = none ∧ f'.operand = []
  same : e.cut = false ∨ e.fresh = true → f.Alongside f'
  result : sieve f.result = f'.result

namespace Edge.Fits

variable {e e' : Edge} {f f' : Terms Token} {t : Token}

theorem start : Edge.start.Fits .start .start where
  last := rfl
  last' := rfl
  fresh _ := ⟨rfl, rfl⟩
  same _ := ⟨rfl, .none, .nil⟩
  result := rfl

theorem of_alongside (h : f.Alongside f') (hLast : f.last = e.last) (hLast' : f'.last = e.last)
    (hFresh : e.fresh = false) : e.Fits f f' where
  last := hLast
  last' := hLast'
  fresh hTrue := by
    rw [hFresh] at hTrue
    cases hTrue
  same _ := h
  result := h.result

theorem lets (h : e.Fits f f') (hLets : e.lets .operand = true) : f.Alongside f' := by
  refine h.same ?_
  simpa [Edge.lets] using hLets

/-- A comment ends the term, and so does what follows it unless the term had not begun. -/
theorem comment (h : e.Fits f f') (hComment : t.isComment = true) :
    Edge.Fits { e with cut := true } (f.leaf t) f' := by
  have hKind : unitKind f.last t = .boundary := by
    cases t <;> first | rfl | cases hComment
  have hResult : sieve (f.result ++ [t]) = f'.result := by
    rw [sieve_append, sieve_cons_of_comment hComment, h.result]
    exact List.append_nil _
  have hLeaf : f.leaf t = ⟨f.result ++ [t], none, [], f.last⟩ := by
    rw [Terms.leaf_of_boundary hKind, Terms.lastAfter, if_pos (by simpa using hComment)]
  rw [hLeaf]
  refine ⟨h.last, h.last', h.fresh, fun hFresh => ?_, ?_⟩
  · obtain ⟨hWaiting, hOperand⟩ := h.fresh (by simpa using hFresh)
    refine ⟨?_, by rw [hWaiting]; exact .none, by rw [hOperand]; exact .nil⟩
    rw [hResult, Terms.result, Terms.value, hWaiting, hOperand, List.append_nil]
  · rw [Terms.result, Terms.value, List.append_nil]
    exact hResult

/-- Any other token is read with the comments as it is read without them. -/
theorem leaf (h : e.Fits f f') (hComment : t.isComment = false) (hLeaf : e.leaf? t = some e') :
    e'.Fits (f.leaf t) (f'.leaf t) := by
  have hLast : f.lastAfter t = some (unitKind e.last t) := by
    rw [Terms.lastAfter, if_neg (by simpa using hComment), h.last]
    rfl
  have hLast' : f'.lastAfter t = some (unitKind e.last t) := by
    rw [Terms.lastAfter, if_neg (by simpa using hComment), h.last']
    rfl
  have hKind : ∀ {k}, unitKind e.last t = k → unitKind f.last (token t) = k ∧
      unitKind f'.last (token t) = k := by
    rintro k rfl
    exact ⟨by rw [h.last]; rfl, by rw [h.last']; rfl⟩
  simp only [Edge.leaf?, hComment, Bool.false_eq_true, if_false] at hLeaf
  split at hLeaf
  case isFalse => cases hLeaf
  rename_i hLets
  obtain rfl := Option.some.inj hLeaf
  cases hCase : unitKind e.last t with
  | operand =>
    obtain ⟨hFirst, hSecond⟩ := hKind hCase
    rw [hCase] at hLets hLast hLast'
    have hSame := h.lets hLets
    rw [Terms.leaf_of_operand hFirst, Terms.leaf_of_operand hSecond]
    exact of_alongside ⟨hSame.done, hSame.waiting, hSame.operand.append (.single hComment)⟩ hLast
      hLast' rfl
  | boundary =>
    obtain ⟨hFirst, hSecond⟩ := hKind hCase
    rw [hCase] at hLast hLast'
    have hDone : sieve (f.result ++ [t]) = f'.result ++ [t] := by
      rw [sieve_append, sieve_cons_of_not_comment hComment, h.result]
      rfl
    rw [Terms.leaf_of_boundary hFirst, Terms.leaf_of_boundary hSecond]
    have hSame : Terms.Alongside ⟨f.result ++ [t], none, [], f.lastAfter t⟩
        ⟨f'.result ++ [t], none, [], f'.lastAfter t⟩ := ⟨hDone, .none, .nil⟩
    exact ⟨hLast, hLast', fun _ => ⟨rfl, rfl⟩, fun _ => hSame, hSame.result⟩
  | multiply | divide =>
    obtain ⟨hFirst, hSecond⟩ := hKind hCase
    rw [hCase] at hLets hLast hLast'
    have hSame := h.same (.inl (by simpa [Edge.lets] using hLets))
    rw [Terms.leaf_of_sign (by first | exact .inl hFirst | exact .inr hFirst),
      Terms.leaf_of_sign (by first | exact .inl hSecond | exact .inr hSecond)]
    exact of_alongside ⟨hSame.done, .some hSame.value hComment, .nil⟩ hLast hLast' rfl

end Edge.Fits

structure Edges.Fits (g : Edges) (s s' : Pass Token) : Prop where
  depth : s.frames.length = g.depth
  frames : List.Forall₂ (fun frame frame' => frame.1 = frame'.1 ∧ frame.1.isComment = false ∧
    frame.2.Alongside frame'.2) s.frames s'.frames
  current : g.current.Fits s.current s'.current

namespace Edges.Fits

variable {g g' : Edges} {s s' : Pass Token} {t : Token}

theorem comment (h : g.Fits s s') (hComment : t.isComment = true) (hStep : g.step? t = some g') :
    g'.Fits (s.step t) s' := by
  obtain ⟨-, -, rfl⟩ := Edges.step?_comment hComment hStep
  have hLeaf : s.step t = ⟨s.frames, s.current.leaf t⟩ := by
    cases t <;> first | rfl | cases hComment
  rw [hLeaf]
  exact ⟨h.depth, h.frames, h.current.comment hComment⟩

theorem step (h : g.Fits s s') (hComment : t.isComment = false) (hStep : g.step? t = some g') :
    g'.Fits (s.step t) (s'.step t) := by
  obtain ⟨frames, current⟩ := s
  obtain ⟨frames', current'⟩ := s'
  obtain ⟨depth, edge⟩ := g
  obtain ⟨hDepth, hFrames, hCurrent⟩ := h
  simp only at hDepth hFrames hCurrent
  -- a token that opens or closes nothing
  have hLeaf : ∀ {d : Nat}, frames.length = d → (edge.leaf? t).map (Edges.mk d ·) = some g' →
      g'.Fits ⟨frames, current.leaf t⟩ ⟨frames', current'.leaf t⟩ := by
    intro d hLength hMap
    obtain ⟨e, hEdge, rfl⟩ := Option.map_eq_some_iff.1 hMap
    exact ⟨hLength, hFrames, hCurrent.leaf hComment hEdge⟩
  simp only [Edges.step?] at hStep
  simp only [Pass.step, show token t = t from rfl]
  cases hOpens : t.opens with
  | true =>
    simp only [hOpens, if_true] at hStep ⊢
    split at hStep
    · rename_i hLets
      obtain rfl := Option.some.inj hStep
      exact ⟨by simpa using hDepth, .cons ⟨rfl, hComment, hCurrent.lets hLets⟩ hFrames, .start⟩
    · cases hStep
  | false =>
    simp only [hOpens, Bool.false_eq_true, if_false] at hStep ⊢
    cases hCloses : t.closes with
    | false =>
      simp only [hCloses, Bool.false_eq_true, if_false] at hStep ⊢
      exact hLeaf hDepth hStep
    | true =>
      simp only [hCloses, if_true] at hStep ⊢
      cases hFrames with
      | nil =>
        obtain rfl : 0 = depth := hDepth
        exact hLeaf rfl hStep
      | @cons frame frame' rest rest' hFrame hRest =>
        obtain ⟨opening, outer⟩ := frame
        obtain ⟨opening', outer'⟩ := frame'
        obtain ⟨hOpening, hNone, hOuter⟩ := hFrame
        obtain rfl : opening = opening' := hOpening
        obtain rfl : rest.length + 1 = depth := hDepth
        obtain rfl := Option.some.inj hStep
        have hGroup := hOuter.group (.group hNone hComment hCurrent.result)
        exact ⟨rfl, hRest, .of_alongside hGroup rfl rfl rfl⟩

theorem run (h : g.Fits s s') {ts : List Token} (hAdmits : g.admits ts = true) :
    ∃ g' : Edges, g'.Fits (s.run ts) (s'.run (sieve ts)) := by
  induction ts generalizing g s s' with
  | nil => exact ⟨g, h⟩
  | cons t ts ih =>
    obtain ⟨g', hStep, hRest⟩ := Edges.admits_cons.1 hAdmits
    cases hComment : t.isComment with
    | true =>
      rw [sieve_cons_of_comment hComment, Pass.run_cons]
      exact ih (h.comment hComment hStep) hRest
    | false =>
      rw [sieve_cons_of_not_comment hComment, Pass.run_cons, Pass.run_cons]
      exact ih (h.step hComment hStep) hRest

end Edges.Fits

/-- Comments at the edges of terms stay where they are, and the pass goes on as without them. -/
theorem divided_sieve {ts : List Token} (h : AtEdges ts) : sieve (divided ts) = divided (sieve ts) ∧
    ((Pass.start.run ts).frames = [] ↔ (Pass.start.run (sieve ts)).frames = []) := by
  have hStart : Edges.Fits ⟨0, .start⟩ Pass.start Pass.start := ⟨rfl, .nil, .start⟩
  obtain ⟨g, hEnd⟩ := hStart.run h
  refine ⟨hEnd.current.result, ?_⟩
  rw [← List.length_eq_zero_iff, ← List.length_eq_zero_iff, hEnd.frames.length_eq]

-- Next to a division sign a comment stands within a term.
example : AtEdges ((tokenize "/* a */ [x] / [y] /* b */ + 1".toList).map Lexeme.token) ∧
    ¬AtEdges ((tokenize "[x] /* a */ / [y]".toList).map Lexeme.token) := by decide +kernel

/-! ## Respelled rows -/

theorem Edge.leaf?_of_alike {s t : Token} (h : Alike s t) (e : Edge) : e.leaf? s = e.leaf? t := by
  simp only [Edge.leaf?, h.comment, h.kind]

theorem Edges.step?_of_alike {s t : Token} (h : Alike s t) (g : Edges) : g.step? s = g.step? t := by
  simp only [Edges.step?, h.opens, h.closes, Edge.leaf?_of_alike h]

theorem Edges.step?_of_plain {t : Token} (h : IsPlainToken t) (g : Edges) :
    g.step? t = if g.current.lets .operand then some ⟨g.depth, .operand⟩ else none := by
  simp only [Edges.step?, h.opens, h.closes, Bool.false_eq_true, if_false, Edge.leaf?, h.comment,
    h.kind]
  split <;> rfl

/-- Several operands are read as one is. -/
theorem Edges.admits_of_plain {t : Token} {us : List Token} (ht : IsPlainToken t) (hFilled : us ≠ [])
    (hAll : ∀ u ∈ us, IsPlainToken u) (g : Edges) (rest : List Token) :
    g.admits (us ++ rest) = g.admits (t :: rest) := by
  induction us generalizing g with
  | nil => exact absurd rfl hFilled
  | cons u us ih =>
    obtain ⟨hFirst, hRest⟩ := List.forall_mem_cons.1 hAll
    rw [List.cons_append, admits, admits, step?_of_plain hFirst, step?_of_plain ht]
    split
    · by_cases hEmpty : us = []
      · rw [hEmpty]
        rfl
      · have hAgain := ih hEmpty hRest ⟨g.depth, .operand⟩
        rw [admits, step?_of_plain ht] at hAgain
        exact hAgain
    · rfl

/-- How a token is respelled: as one that plays the same part, or an operand as operands. -/
def StandsFor (t : Token) (us : List Token) : Prop :=
  (∃ u, us = [u] ∧ Alike t u) ∨ IsPlainToken t ∧ us ≠ [] ∧ ∀ u ∈ us, IsPlainToken u

theorem Edges.admits_of_standsFor {ts : List Token} {f : Token → List Token}
    (h : ∀ t ∈ ts, StandsFor t (f t)) (g : Edges) : g.admits (ts.flatMap f) = g.admits ts := by
  induction ts generalizing g with
  | nil => rfl
  | cons t ts ih =>
    obtain ⟨hFirst, hRest⟩ := List.forall_mem_cons.1 h
    rw [List.flatMap_cons]
    rcases hFirst with ⟨u, hSame, hAlike⟩ | ⟨hPlain, hFilled, hAll⟩
    · rw [hSame, List.singleton_append, admits, admits, step?_of_alike hAlike]
      simp only [ih hRest]
    · rw [admits_of_plain hPlain hFilled hAll, admits, admits]
      simp only [ih hRest]

end DaxMigration.Dax
