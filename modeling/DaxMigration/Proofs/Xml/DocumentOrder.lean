import DaxMigration.Xml.Element
import Mathlib.Data.List.Infix
import Mathlib.Tactic.Common

/-!
# Document order

An element stands at a place: the index of a child, of a child of that child, and so on. Places in
the order of lists are places in document order, an element in front of what it holds. What is
collected from a subtree is a segment of what is collected from the whole tree.
-/

namespace DaxMigration.Xml.Element

/-- Indices of children, from the root down. -/
abbrev Place := List Nat

def at? (e : Element) : Place → Option Element
  | [] => some e
  | i :: place => e.children[i]?.bind (·.at? place)

/-! ## Elements with their places -/

mutual

def placed : Element → List (Place × Element)
  | ⟨_, _, children, _⟩ => placedFrom 0 children

def placedFrom (i : Nat) : List Element → List (Place × Element)
  | [] => []
  | c :: rest => ([i], c) :: ((placed c).map (Prod.map (i :: ·) id) ++ placedFrom (i + 1) rest)

end

mutual

theorem filterMap_placed {β : Type} (name : String) (f : Element → Option β) : (e : Element) →
    (e.placed.filterMap fun q => if q.2.name = name then f q.2 else none) =
      (e.descendantsNamed name).filterMap f
  | ⟨_, _, children, _⟩ => by
    rw [placed, descendantsNamed]
    exact filterMap_placedFrom name f 0 children

theorem filterMap_placedFrom {β : Type} (name : String) (f : Element → Option β) (i : Nat) :
    (es : List Element) →
    ((placedFrom i es).filterMap fun q => if q.2.name = name then f q.2 else none) =
      (forestNamed name es).filterMap f
  | [] => rfl
  | c :: rest => by
    have hBelow := filterMap_placed name f c
    have hRest := filterMap_placedFrom name f (i + 1) rest
    rw [placedFrom, forestNamed, List.filterMap_cons, List.filterMap_append, List.filterMap_map]
    by_cases hName : c.name = name
    · simp only [hName, if_true, List.filterMap_cons, List.filterMap_append, ← hBelow, ← hRest]
      rfl
    · simp only [hName, if_false, List.filterMap_append, ← hBelow, ← hRest]
      rfl

end

mutual

theorem mem_placed : (e : Element) → ∀ (place : Place) (d : Element),
    (place, d) ∈ e.placed ↔ place ≠ [] ∧ e.at? place = some d
  | ⟨_, _, children, _⟩ => by
    intro place d
    rw [placed, mem_placedFrom 0 children]
    constructor
    · rintro ⟨i, rest, c, rfl, hChild, hRest⟩
      refine ⟨List.cons_ne_nil _ _, ?_⟩
      rw [Nat.zero_add, at?, hChild]
      exact hRest
    · rintro ⟨hPlace, hAt⟩
      cases place with
      | nil => exact absurd rfl hPlace
      | cons i rest =>
        obtain ⟨c, hChild, hRest⟩ := Option.bind_eq_some_iff.1 hAt
        exact ⟨i, rest, c, by rw [Nat.zero_add], hChild, hRest⟩

theorem mem_placedFrom (k : Nat) : (es : List Element) → ∀ (place : Place) (d : Element),
    (place, d) ∈ placedFrom k es ↔
      ∃ i rest c, place = (k + i) :: rest ∧ es[i]? = some c ∧ c.at? rest = some d
  | [] => by
    intro place d
    simp [placedFrom]
  | c :: cs => by
    intro place d
    rw [placedFrom, List.mem_cons, List.mem_append, mem_placedFrom (k + 1) cs, List.mem_map]
    constructor
    · rintro (hFirst | ⟨⟨rest, e⟩, hBelow, hEq⟩ | ⟨i, rest, b, rfl, hChild, hRest⟩)
      · obtain ⟨rfl, rfl⟩ := Prod.mk.inj hFirst
        exact ⟨0, [], d, rfl, rfl, rfl⟩
      · obtain ⟨rfl, rfl⟩ := Prod.mk.inj hEq
        exact ⟨0, rest, c, rfl, rfl, ((mem_placed c _ _).1 hBelow).2⟩
      · exact ⟨i + 1, rest, b, by rw [Nat.add_assoc, Nat.add_comm 1 i], hChild, hRest⟩
    · rintro ⟨i, rest, b, rfl, hChild, hRest⟩
      cases i with
      | zero =>
        cases hChild
        cases rest with
        | nil =>
          cases hRest
          exact .inl rfl
        | cons j rest =>
          exact .inr (.inl ⟨(j :: rest, d), (mem_placed c _ _).2 ⟨List.cons_ne_nil _ _, hRest⟩, rfl⟩)
      | succ i =>
        exact .inr (.inr ⟨i, rest, b, by rw [Nat.add_assoc, Nat.add_comm 1 i], hChild, hRest⟩)

end

mutual

theorem pairwise_placed : (e : Element) → e.placed.Pairwise fun p q => p.1 < q.1
  | ⟨_, _, children, _⟩ => by
    rw [placed]
    exact pairwise_placedFrom 0 children

theorem pairwise_placedFrom (k : Nat) :
    (es : List Element) → (placedFrom k es).Pairwise fun p q => p.1 < q.1
  | [] => .nil
  | c :: cs => by
    rw [placedFrom, List.pairwise_cons, List.pairwise_append, List.pairwise_map]
    have hLater : ∀ q ∈ placedFrom (k + 1) cs, ∃ i rest, k < i ∧ q.1 = i :: rest := by
      rintro ⟨place, d⟩ hq
      obtain ⟨i, rest, -, rfl, -⟩ := (mem_placedFrom (k + 1) cs _ _).1 hq
      exact ⟨k + 1 + i, rest, by omega, rfl⟩
    refine ⟨?_, ?_, pairwise_placedFrom (k + 1) cs, ?_⟩
    · intro q hq
      rcases List.mem_append.1 hq with hq | hq
      · obtain ⟨⟨place, d⟩, hBelow, rfl⟩ := List.mem_map.1 hq
        obtain ⟨hPlace, -⟩ := (mem_placed c _ _).1 hBelow
        obtain ⟨j, rest, rfl⟩ := List.exists_cons_of_ne_nil hPlace
        exact .cons .nil
      · obtain ⟨i, rest, hi, hq⟩ := hLater q hq
        rw [hq]
        exact .rel hi
    · exact (pairwise_placed c).imp fun h => .cons h
    · intro p hp q hq
      obtain ⟨⟨place, d⟩, -, rfl⟩ := List.mem_map.1 hp
      obtain ⟨i, rest, hi, hq⟩ := hLater q hq
      rw [hq]
      exact .rel hi

end

/-! ## Segments -/

inductive Holds : Element → Element → Prop
  | self (e : Element) : Holds e e
  | child {e c d : Element} (hChild : c ∈ e.children) (hHolds : Holds c d) : Holds e d

theorem Holds.trans {a b c : Element} (h : Holds a b) (h' : Holds b c) : Holds a c := by
  induction h with
  | self => exact h'
  | child hChild _ ih => exact .child hChild (ih h')

theorem infix_forestNamed (name : String) {c : Element} {es : List Element} (h : c ∈ es) :
    c.descendantsNamed name <:+: forestNamed name es := by
  induction es with
  | nil => cases h
  | cons e rest ih =>
    have hBelow : c.descendantsNamed name <:+:
        e.descendantsNamed name ++ forestNamed name rest := by
      rcases List.mem_cons.1 h with rfl | h
      · exact (List.prefix_append _ _).isInfix
      · exact (ih h).trans (List.suffix_append _ _).isInfix
    rw [forestNamed]
    split
    · exact hBelow.trans (List.suffix_cons _ _).isInfix
    · exact hBelow

theorem Holds.isInfix (name : String) {e d : Element} (h : Holds e d) :
    d.descendantsNamed name <:+: e.descendantsNamed name := by
  induction h with
  | self => exact List.infix_rfl
  | @child e c d hChild _ ih =>
    obtain ⟨_, _, children, _⟩ := e
    rw [descendantsNamed]
    exact ih.trans (infix_forestNamed name hChild)

theorem holds_of_child? {e c : Element} {name : String} (h : e.child? name = some c) : Holds e c :=
  .child (List.mem_of_find?_eq_some h) (.self c)

theorem holds_of_mem_childrenNamed {e c : Element} {name : String}
    (h : c ∈ e.childrenNamed name) : Holds e c :=
  .child (List.mem_of_mem_filter h) (.self c)

mutual

theorem holds_of_mem_descendantsNamed {name : String} {d : Element} : (e : Element) →
    d ∈ e.descendantsNamed name → Holds e d
  | ⟨_, _, children, _⟩ => by
    intro h
    rw [descendantsNamed] at h
    obtain ⟨c, hChild, hHolds⟩ := exists_of_mem_forestNamed children h
    exact .child hChild hHolds

theorem exists_of_mem_forestNamed {name : String} {d : Element} : (es : List Element) →
    d ∈ forestNamed name es → ∃ c ∈ es, Holds c d
  | [] => by
    intro h
    cases h
  | c :: rest => by
    intro h
    have hBelow : d ∈ c.descendantsNamed name ++ forestNamed name rest →
        ∃ b ∈ c :: rest, Holds b d := by
      intro h
      rcases List.mem_append.1 h with h | h
      · exact ⟨c, List.mem_cons_self, holds_of_mem_descendantsNamed c h⟩
      · obtain ⟨b, hb, hHolds⟩ := exists_of_mem_forestNamed rest h
        exact ⟨b, List.mem_cons_of_mem _ hb, hHolds⟩
    rw [forestNamed] at h
    split at h
    · rcases List.mem_cons.1 h with rfl | h
      · exact ⟨d, List.mem_cons_self, .self d⟩
      · exact hBelow h
    · exact hBelow h

end

theorem holds_of_mem_named {name : String} {e d : Element} (h : d ∈ e.named name) : Holds e d := by
  unfold named at h
  split at h
  · rcases List.mem_cons.1 h with rfl | h
    · exact .self d
    · exact holds_of_mem_descendantsNamed e h
  · exact holds_of_mem_descendantsNamed e h

mutual

theorem descendant?_eq_head? (name : String) : (e : Element) →
    e.descendant? name = (e.descendantsNamed name).head?
  | ⟨_, _, children, _⟩ => by
    rw [descendant?, descendantsNamed]
    exact first?_eq_head? name children

theorem first?_eq_head? (name : String) : (es : List Element) →
    first? name es = (forestNamed name es).head?
  | [] => rfl
  | c :: rest => by
    have hBelow := descendant?_eq_head? name c
    have hRest := first?_eq_head? name rest
    rw [first?, forestNamed]
    split
    · rfl
    · rw [List.head?_append, ← hBelow, ← hRest]
      cases c.descendant? name <;> rfl

end

theorem holds_of_descendant? {name : String} {e d : Element} (h : e.descendant? name = some d) :
    Holds e d := by
  rw [descendant?_eq_head?] at h
  exact holds_of_mem_descendantsNamed e (List.mem_of_head? h)

end DaxMigration.Xml.Element
