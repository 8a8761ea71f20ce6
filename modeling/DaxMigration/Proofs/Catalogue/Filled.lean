import DaxMigration.Proofs.Catalogue.FunctionIndex

/-!
# Which documents hold mappings

The report on the documents goes by their entries. What can be looked up is reported, and where
every entry answers some lookup nothing else is; but a category without functions and a chart type
without visuals count as entries, and answer none.
-/

namespace DaxMigration

theorem KeyMap.isEmpty_eq_false_iff {α : Type} (m : KeyMap α) :
    m.isEmpty = false ↔ ∃ k v, m.get? k = some v := by
  obtain ⟨entries, -⟩ := m
  cases entries with
  | nil => simp [isEmpty, get?]
  | cons e entries =>
    refine ⟨fun _ => ⟨e.1, e.2, ?_⟩, fun _ => rfl⟩
    rw [get?, List.lookup_cons_self]

namespace Catalogue

variable {c : Catalogue}

def Answers (c : Catalogue) : MappingDocument → Prop
  | .releases => ∃ name info, c.releases.get? name = some info
  | .functions => ∃ name dax, c.function? name = some dax
  | .visuals => ∃ chart subtype visual, c.visual? chart subtype = some visual
  | .dataTypes => ∃ name type, c.dataTypes.get? name = some type
  | .connections => ∃ name mapping, c.connection? name = some mapping

/-- The document has an entry that answers no lookup. -/
def HasHollow (c : Catalogue) : MappingDocument → Prop
  | .functions => ∃ category, c.functions.get? category = some .empty
  | .visuals => ∃ chart, c.charts.get? chart = some (.subtypes .empty)
  | _ => False

theorem exists_function?_of_mem {category name dax : String}
    (h : ⟨category, name, dax⟩ ∈ functionEntries c.functions) :
    ∃ first, c.function? name = some first := by
  have hFound : ((functionEntries c.functions).find? (upperText ·.name = upperText name)).isSome :=
    List.find?_isSome.2 ⟨_, h, decide_eq_true rfl⟩
  obtain ⟨first, hFirst⟩ := Option.isSome_iff_exists.1 hFound
  rw [function?_eq_find?, hFirst]
  exact ⟨first.dax, rfl⟩

theorem functions_filled_iff :
    c.functions.isEmpty = false ↔ c.Answers .functions ∨ c.HasHollow .functions := by
  constructor
  · intro h
    obtain ⟨category, names, hNames⟩ := (KeyMap.isEmpty_eq_false_iff _).1 h
    cases hEntries : names.entries with
    | nil =>
      obtain rfl : names = .empty := KeyMap.ext hEntries
      exact .inr ⟨category, hNames⟩
    | cons e entries =>
      obtain ⟨before, after, hSplit, -⟩ := List.lookup_eq_some_iff.1 hNames
      have hListed : ⟨category, e.1, e.2⟩ ∈ functionEntries c.functions :=
        mem_functionEntries.2 ⟨names, by simp [hSplit], by simp [hEntries]⟩
      exact .inl ⟨e.1, exists_function?_of_mem hListed⟩
  · rintro (⟨name, dax, hFunction⟩ | ⟨category, hNames⟩)
    · rw [function?_eq_find?] at hFunction
      obtain ⟨e, hFound, -⟩ := Option.map_eq_some_iff.1 hFunction
      obtain ⟨names, hCategory, -⟩ := mem_functionEntries.1 (List.mem_of_find?_eq_some hFound)
      exact List.isEmpty_eq_false_iff.2 (List.ne_nil_of_mem hCategory)
    · exact (KeyMap.isEmpty_eq_false_iff _).2 ⟨category, .empty, hNames⟩

theorem charts_filled_iff :
    c.charts.isEmpty = false ↔ c.Answers .visuals ∨ c.HasHollow .visuals := by
  constructor
  · intro h
    obtain ⟨chart, mapping, hMapping⟩ := (KeyMap.isEmpty_eq_false_iff _).1 h
    cases mapping with
    | visual name => exact .inl ⟨chart, none, name, by rw [visual?, hMapping]⟩
    | subtypes names =>
      cases hEmpty : names.isEmpty with
      | true =>
        obtain rfl : names = .empty := KeyMap.ext (List.isEmpty_iff.1 hEmpty)
        exact .inr ⟨chart, hMapping⟩
      | false =>
        obtain ⟨subtype, visual, hVisual⟩ := (KeyMap.isEmpty_eq_false_iff _).1 hEmpty
        refine .inl ⟨chart, some subtype, visual, ?_⟩
        rw [visual?, hMapping]
        simp [hVisual]
  · rintro (⟨chart, subtype, visual, hVisual⟩ | ⟨chart, hMapping⟩)
    · cases hMapping : c.charts.get? chart with
      | none => simp [visual?, hMapping] at hVisual
      | some mapping => exact (KeyMap.isEmpty_eq_false_iff _).2 ⟨chart, mapping, hMapping⟩
    · exact (KeyMap.isEmpty_eq_false_iff _).2 ⟨chart, _, hMapping⟩

/-- A document is reported to hold mappings if and only if it answers a lookup or has an entry that
answers none. -/
theorem filled_iff (c : Catalogue) (d : MappingDocument) :
    c.filled.get? d.fileName = some true ↔ c.Answers d ∨ c.HasHollow d := by
  have hGet : c.filled.get? d.fileName = some (match d with
      | .releases => !c.releases.isEmpty
      | .functions => !c.functions.isEmpty
      | .visuals => !c.charts.isEmpty
      | .dataTypes => !c.dataTypes.isEmpty
      | .connections => !c.connections.isEmpty) := by
    cases d <;> simp [filled, KeyMap.ofList, MappingDocument.all, MappingDocument.fileName]
  rw [hGet]
  cases d with
  | functions => simpa using functions_filled_iff
  | visuals => simpa using charts_filled_iff
  | _ => simpa [Answers, HasHollow, connection?] using KeyMap.isEmpty_eq_false_iff _

/-- The report is exact where every category has a function and every chart type a visual. -/
theorem filled_iff_answers {c : Catalogue} (hFunctions : ¬c.HasHollow .functions)
    (hVisuals : ¬c.HasHollow .visuals) (d : MappingDocument) :
    c.filled.get? d.fileName = some true ↔ c.Answers d := by
  rw [filled_iff, or_iff_left_iff_imp]
  intro hHollow
  cases d with
  | functions => exact absurd hHollow hFunctions
  | visuals => exact absurd hHollow hVisuals
  | _ => cases hHollow

end Catalogue

end DaxMigration
