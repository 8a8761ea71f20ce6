import DaxMigration.KeyMap
import Mathlib.Data.List.Nodup
import Mathlib.Data.List.Perm.Basic
import Mathlib.Data.String.Basic

/-!
# What a map holds that is made from a list

Each entry once where no key comes twice, and nothing at other keys; entries in key order as they
are. Of what is inserted only where it is new, the first entry for each key.
-/

namespace DaxMigration.KeyMap

variable {α : Type}

theorem insertEntry_perm {k : String} {l : List (String × α)} (h : k ∉ l.map (·.1)) (v : α) :
    (insertEntry k v l).Perm ((k, v) :: l) := by
  induction l with
  | nil => rfl
  | cons e l ih =>
    obtain ⟨hOther, hRest⟩ : k ≠ e.1 ∧ k ∉ l.map (·.1) := by simpa using h
    rw [insertEntry, if_neg hOther]
    split
    · rfl
    · exact ((ih hRest).cons e).trans (.swap (k, v) e l)

theorem entries_foldl_perm {l : List (String × α)} {m : KeyMap α}
    (h : (l.map (·.1) ++ m.keys).Nodup) :
    (l.foldl (fun m e => m.insert e.1 e.2) m).entries.Perm (l ++ m.entries) := by
  induction l generalizing m with
  | nil => rfl
  | cons e l ih =>
    obtain ⟨hNew, hRest⟩ := List.nodup_cons.1 h
    have hInsert : (m.insert e.1 e.2).entries.Perm (e :: m.entries) :=
      insertEntry_perm (fun hOld => hNew (List.mem_append_right _ hOld)) e.2
    have hKeys : (l.map (·.1) ++ (m.insert e.1 e.2).keys).Perm (e.1 :: (l.map (·.1) ++ m.keys)) :=
      ((hInsert.map (·.1)).append_left _).trans List.perm_middle
    exact (ih (hKeys.nodup_iff.2 h)).trans ((hInsert.append_left l).trans List.perm_middle)

/-- A map made from entries with keys that differ holds just these. -/
theorem entries_ofList_perm {l : List (String × α)} (h : (l.map (·.1)).Nodup) :
    (ofList l).entries.Perm l := by
  have hEntries := entries_foldl_perm (l := l) (m := empty) (by simpa [keys, empty] using h)
  rwa [show (empty : KeyMap α).entries = [] from rfl, List.append_nil] at hEntries

theorem get?_foldl_of_not_mem {k : String} {l : List (String × α)} (h : k ∉ l.map (·.1))
    (m : KeyMap α) :
    (l.foldl (fun m e => m.insert e.1 e.2) m).get? k = m.get? k := by
  induction l generalizing m with
  | nil => rfl
  | cons e l ih =>
    obtain ⟨hOther, hRest⟩ : k ≠ e.1 ∧ k ∉ l.map (·.1) := by simpa using h
    rw [List.foldl_cons, ih hRest, get?_insert, if_neg hOther]

theorem get?_ofList_of_not_mem {k : String} {l : List (String × α)} (h : k ∉ l.map (·.1)) :
    (ofList l).get? k = none := by
  rw [ofList, get?_foldl_of_not_mem h, get?_empty]

theorem mem_foldl_insert {l : List (String × α)} {m : KeyMap α} {e : String × α}
    (h : e ∈ (l.foldl (fun m e => m.insert e.1 e.2) m).entries) : e ∈ l ∨ e ∈ m.entries := by
  induction l generalizing m with
  | nil => exact .inr h
  | cons first l ih =>
    rcases ih h with hRest | hFirst
    · exact .inl (List.mem_cons_of_mem first hRest)
    · rcases mem_of_mem_insertEntry hFirst with rfl | hOld
      · exact .inl List.mem_cons_self
      · exact .inr hOld

/-- A map made from a list holds nothing else. -/
theorem mem_of_mem_ofList {l : List (String × α)} {e : String × α} (h : e ∈ (ofList l).entries) :
    e ∈ l :=
  (mem_foldl_insert h).resolve_right List.not_mem_nil

/-! ## Keys in order -/

theorem nodup_keys {l : List (String × α)} (h : l.Pairwise (·.1 < ·.1)) : (l.map (·.1)).Nodup :=
  List.pairwise_map.2 (h.imp ne_of_lt)

/-- Entries in key order are kept as they are. -/
theorem entries_ofList {l : List (String × α)} (h : l.Pairwise (·.1 < ·.1)) :
    (ofList l).entries = l :=
  (entries_ofList_perm (nodup_keys h)).eq_of_pairwise
    (fun _ _ _ _ hLess hGreater => absurd hGreater hLess.asymm) (ofList l).ascending h

theorem lookup_eq_some_iff_mem {l : List (String × α)} (h : (l.map (·.1)).Nodup) {k : String}
    {v : α} : l.lookup k = some v ↔ (k, v) ∈ l := by
  induction l with
  | nil => simp
  | cons e l ih =>
    obtain ⟨hNew, hRest⟩ := List.nodup_cons.1 h
    rw [List.lookup_cons, List.mem_cons]
    by_cases hKey : k = e.1
    · subst hKey
      have hAbsent (hOld : (e.1, v) ∈ l) : False := hNew (List.mem_map_of_mem (f := (·.1)) hOld)
      grind
    · grind

/-- What a map holds at a key is the entry with that key. -/
theorem get?_eq_some_iff {m : KeyMap α} {k : String} {v : α} :
    m.get? k = some v ↔ (k, v) ∈ m.entries :=
  lookup_eq_some_iff_mem (nodup_keys m.ascending)

theorem mem_filterMap {β : Type} {m : KeyMap α} {f : α → Option β} {k : String} {b : β} :
    (k, b) ∈ (m.filterMap f).entries ↔ ∃ a, (k, a) ∈ m.entries ∧ f a = some b := by
  simp [KeyMap.filterMap]

/-! ## Insertion of what is new -/

/-- Of several entries for one key the first is kept. -/
theorem get?_foldl_insertNew {β : Type} (key : β → String) (value : β → α) (l : List β)
    (m : KeyMap α) (k : String) :
    (l.foldl (fun m b => m.insertNew (key b) (value b)) m).get? k =
      (m.get? k).or ((l.find? (key · = k)).map value) := by
  induction l generalizing m with
  | nil => simp
  | cons b l ih =>
    rw [List.foldl_cons, ih, get?_insertNew, Option.or_assoc, List.find?_cons]
    by_cases hKey : key b = k
    · simp [hKey]
    · simp [hKey, Ne.symm hKey]

end DaxMigration.KeyMap
