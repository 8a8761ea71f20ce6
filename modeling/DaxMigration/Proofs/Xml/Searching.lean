import DaxMigration.Proofs.Xml.DocumentOrder

/-!
# Searches in a tree

The elements of a name are listed by the places where they stand: all places in document order, each
once, with the element itself or without it. The search for one element stops early, and finds the
head of the list.
-/

namespace DaxMigration.Xml.Element

/-- The elements are those that stand at the places which satisfy `p`, in document order, one for
each place. -/
def Lists (e : Element) (p : Place → Prop) (found : List Element) : Prop :=
  ∃ places : List Place, places.Pairwise (· < ·) ∧ (∀ place, place ∈ places ↔ p place) ∧
    places.map e.at? = found.map some

def NamedAt (e : Element) (name : String) (place : Place) : Prop :=
  ∃ d, e.at? place = some d ∧ d.name = name

theorem descendantsNamed_eq_placed (name : String) (e : Element) :
    e.descendantsNamed name = (e.placed.filter fun q => q.2.name = name).map Prod.snd := by
  have hPlaced := filterMap_placed name some e
  rw [List.filterMap_some] at hPlaced
  rw [← hPlaced, ← List.filterMap_eq_map, List.filterMap_filter]
  refine List.filterMap_congr fun q _ => ?_
  by_cases hName : q.2.name = name <;> simp [hName]

theorem lists_descendantsNamed (name : String) (e : Element) :
    e.Lists (fun place => place ≠ [] ∧ e.NamedAt name place) (e.descendantsNamed name) := by
  refine ⟨(e.placed.filter fun q => q.2.name = name).map Prod.fst, ?_, fun place => ?_, ?_⟩
  · rw [List.pairwise_map]
    exact e.pairwise_placed.filter _
  · constructor
    · intro hPlace
      obtain ⟨⟨_, d⟩, hMem, rfl⟩ := List.mem_map.1 hPlace
      obtain ⟨hPlaced, hName⟩ := List.mem_filter.1 hMem
      obtain ⟨hBelow, hAt⟩ := (mem_placed e _ _).1 hPlaced
      exact ⟨hBelow, d, hAt, of_decide_eq_true hName⟩
    · rintro ⟨hBelow, d, hAt, hName⟩
      have hPlaced := (mem_placed e place d).2 ⟨hBelow, hAt⟩
      exact List.mem_map.2 ⟨(place, d), List.mem_filter.2 ⟨hPlaced, decide_eq_true hName⟩, rfl⟩
  · rw [descendantsNamed_eq_placed, List.map_map, List.map_map]
    refine List.map_congr_left fun q hq => ?_
    exact ((mem_placed e q.1 q.2).1 (List.mem_filter.1 hq).1).2

theorem named_eq (name : String) (e : Element) :
    e.named name = (if e.name = name then [e] else []) ++ e.descendantsNamed name := by
  rw [named]
  split <;> rfl

/-- The element itself stands in front of all that it holds. -/
theorem lists_named (name : String) (e : Element) : e.Lists (e.NamedAt name) (e.named name) := by
  obtain ⟨places, hOrder, hPlaces, hFound⟩ := lists_descendantsNamed name e
  have hSelf : e.NamedAt name [] ↔ e.name = name := by simp [NamedAt, at?]
  by_cases hName : e.name = name
  · refine ⟨[] :: places, ?_, fun place => ?_, ?_⟩
    · refine .cons (fun place hPlace => ?_) hOrder
      obtain ⟨i, rest, rfl⟩ := List.exists_cons_of_ne_nil ((hPlaces place).1 hPlace).1
      exact List.nil_lt_cons i rest
    · rw [List.mem_cons, hPlaces]
      constructor
      · rintro (rfl | ⟨-, hAt⟩)
        · exact hSelf.2 hName
        · exact hAt
      · intro hAt
        by_cases hRoot : place = []
        · exact .inl hRoot
        · exact .inr ⟨hRoot, hAt⟩
    · rw [named_eq, if_pos hName, List.map_cons, hFound]
      rfl
  · refine ⟨places, hOrder, fun place => ?_, ?_⟩
    · rw [hPlaces]
      refine and_iff_right_of_imp fun hAt hRoot => hName (hSelf.1 ?_)
      rwa [hRoot] at hAt
    · rw [named_eq, if_neg hName, List.nil_append, hFound]

/-- The search for the first descendant of a name finds the head of the list of all, which are just
the elements of that name below the root, in document order and each once; with the root they are
those in the whole tree, and it comes first if it has the name. -/
theorem searches_agree (name : String) (e : Element) :
    e.descendant? name = (e.descendantsNamed name).head? ∧
    (e.descendant? name = none ↔ e.descendantsNamed name = []) ∧
    e.Lists (fun place => place ≠ [] ∧ e.NamedAt name place) (e.descendantsNamed name) ∧
    e.named name = (if e.name = name then [e] else []) ++ e.descendantsNamed name ∧
    e.Lists (e.NamedAt name) (e.named name) := by
  have hFirst := descendant?_eq_head? name e
  refine ⟨hFirst, ?_, lists_descendantsNamed name e, named_eq name e, lists_named name e⟩
  rw [hFirst, List.head?_eq_none_iff]

end DaxMigration.Xml.Element
