import DaxMigration.Proofs.Xml.DocumentOrder
import DaxMigration.Workbook.Extraction

/-!
# The lists of a workbook agree

Calculated fields are listed with the columns of their data source and again for the whole document,
filters with their view and again for the whole document. What is listed for a part is a segment of
what is listed for the whole.
-/

namespace DaxMigration.Workbook

open Xml (Element)
open Xml.Element

def Column.calculatedField? (c : Column) : Option CalculatedField :=
  c.calculation.map fun calculation =>
    { name := c.name
      caption := c.caption
      datatype := c.datatype
      role := c.role
      type_ := c.type_
      formula := calculation.formula
      class_ := calculation.class_
      formulaText := calculation.formulaText }

theorem calculatedField?_ofElement (e : Element) :
    (Column.ofElement e).calculatedField? = CalculatedField.ofElement? e := by
  unfold CalculatedField.ofElement? Column.calculatedField? Column.ofElement
  cases e.child? "calculation" <;> rfl

theorem isSome_calculatedField? (e : Element) :
    (Column.ofElement e).calculatedField?.isSome = (e.child? "calculation").isSome := by
  simp [Column.calculatedField?, Column.ofElement]

theorem infix_calculatedFields {root e : Element} (h : Holds root e) (file : FileInfo) :
    (DataSource.ofElement e).columns.filterMap Column.calculatedField? <:+:
      (ofElement root file).calculatedFields := by
  have hColumns : (DataSource.ofElement e).columns.filterMap Column.calculatedField? =
      (e.descendantsNamed "column").filterMap CalculatedField.ofElement? := by
    rw [DataSource.ofElement, List.filterMap_map]
    congr 1
    funext c
    exact calculatedField?_ofElement c
  rw [hColumns]
  exact (h.isInfix "column").filterMap _

/-- The columns with a calculation, by their places. -/
theorem exists_columns (root : Element) (file : FileInfo) :
    ∃ columns : List (Place × Element),
      columns.Pairwise (fun p q => p.1 < q.1) ∧
      (∀ place e, (place, e) ∈ columns ↔ place ≠ [] ∧ root.at? place = some e ∧
        e.name = "column" ∧ (e.child? "calculation").isSome) ∧
      (ofElement root file).calculatedFields.map some =
        columns.map fun q => (Column.ofElement q.2).calculatedField? := by
  let field (q : Place × Element) : Option CalculatedField :=
    if q.2.name = "column" then (Column.ofElement q.2).calculatedField? else none
  have hField : ∀ q, (field q).isSome ↔
      q.2.name = "column" ∧ (q.2.child? "calculation").isSome := by
    intro q
    rw [← isSome_calculatedField?]
    by_cases hName : q.2.name = "column" <;> simp [field, hName]
  refine ⟨root.placed.filter fun q => (field q).isSome, ?_, ?_, ?_⟩
  · exact root.pairwise_placed.filter _
  · intro place e
    rw [List.mem_filter, mem_placed, hField, and_assoc]
  · have hAll : (ofElement root file).calculatedFields = root.placed.filterMap field := by
      refine (filterMap_placed "column" CalculatedField.ofElement? root).symm.trans ?_
      congr 1
      funext q
      rw [← calculatedField?_ofElement]
    rw [hAll, List.map_filterMap_some_eq_filter_map_isSome, List.filter_map]
    refine List.map_congr_left fun q hq => ?_
    have hName := ((hField q).1 (List.mem_filter.1 hq).2).1
    simp [field, hName]

theorem infix_filters {root sheet : Element} (h : Holds root sheet) (file : FileInfo) :
    (View.ofSheet sheet).filters <:+: (ofElement root file).filters := by
  unfold View.ofSheet
  split
  · exact (List.nil_prefix).isInfix
  · rename_i view hView
    exact ((h.trans (holds_of_descendant? hView)).isInfix "filter").map _

theorem holds_of_mem_childrenIn {root e : Element} {holder name : String}
    (h : e ∈ childrenIn root holder name) : Holds root e := by
  unfold childrenIn at h
  split at h
  · rename_i inner hInner
    exact (holds_of_child? hInner).trans (holds_of_mem_childrenNamed h)
  · cases h

/-- The calculated columns of each data source are a segment of the calculated fields. These are the
columns below the root with a calculation of their own, each once and in document order. The filters
of each view are a segment of all filters. -/
theorem lists_agree (root : Element) (file : FileInfo) :
    let w := ofElement root file
    (∀ source ∈ w.datasources,
      source.columns.filterMap Column.calculatedField? <:+: w.calculatedFields) ∧
    (∃ columns : List (Place × Element),
      columns.Pairwise (fun p q => p.1 < q.1) ∧
      (∀ place e, (place, e) ∈ columns ↔ place ≠ [] ∧ root.at? place = some e ∧
        e.name = "column" ∧ (e.child? "calculation").isSome) ∧
      w.calculatedFields.map some =
        columns.map fun q => (Column.ofElement q.2).calculatedField?) ∧
    ∀ sheet ∈ w.worksheets, sheet.view.filters <:+: w.filters := by
  intro w
  refine ⟨?_, exists_columns root file, ?_⟩
  · intro source hSource
    obtain ⟨e, hMem, rfl⟩ := List.mem_map.1 hSource
    exact infix_calculatedFields (holds_of_mem_named hMem) file
  · intro sheet hSheet
    obtain ⟨e, hMem, rfl⟩ := List.mem_map.1 hSheet
    exact infix_filters (holds_of_mem_childrenIn hMem) file

end DaxMigration.Workbook
