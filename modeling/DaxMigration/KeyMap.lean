/-!
# Maps from texts in key order

A list of entries with strictly ascending keys, compared code point by code point. Listing a map
therefore lists it by key, whatever the order of insertion was.
-/

namespace DaxMigration

@[ext]
structure KeyMap (α : Type) where
  entries : List (String × α)
  ascending : entries.Pairwise (·.1 < ·.1)
deriving DecidableEq

namespace KeyMap

variable {α β : Type}

def empty : KeyMap α := ⟨[], .nil⟩

instance : Inhabited (KeyMap α) := ⟨empty⟩

def insertEntry (k : String) (v : α) : List (String × α) → List (String × α)
  | [] => [(k, v)]
  | (k', v') :: rest =>
    if k = k' then (k, v) :: rest
    else if k < k' then (k, v) :: (k', v') :: rest
    else (k', v') :: insertEntry k v rest

theorem mem_of_mem_insertEntry {k : String} {v : α} {l : List (String × α)} {e : String × α}
    (h : e ∈ insertEntry k v l) : e = (k, v) ∨ e ∈ l := by
  induction l with
  | nil => exact .inl (List.mem_singleton.1 h)
  | cons first l ih =>
    rw [insertEntry] at h
    grind

theorem pairwise_insertEntry {l : List (String × α)} (h : l.Pairwise (·.1 < ·.1)) (k : String)
    (v : α) : (insertEntry k v l).Pairwise (·.1 < ·.1) := by
  induction l with
  | nil => exact List.pairwise_singleton _ _
  | cons first l ih =>
    obtain ⟨hFirst, hRest⟩ := List.pairwise_cons.1 h
    rw [insertEntry]
    split
    · rename_i hSame
      exact List.pairwise_cons.2 ⟨hSame ▸ hFirst, hRest⟩
    split
    · rename_i hLess
      refine List.pairwise_cons.2 ⟨fun e he => ?_, h⟩
      rcases List.mem_cons.1 he with rfl | he
      · exact hLess
      · exact String.lt_trans hLess (hFirst e he)
    · rename_i hOther hNotLess
      refine List.pairwise_cons.2 ⟨fun e he => ?_, ih hRest⟩
      rcases mem_of_mem_insertEntry he with rfl | he
      · have hGreater : first.1 < k := by grind
        exact hGreater
      · exact hFirst e he

def insert (m : KeyMap α) (k : String) (v : α) : KeyMap α :=
  ⟨insertEntry k v m.entries, pairwise_insertEntry m.ascending k v⟩

/-- Sets the value at `k` unless there is one. -/
def insertNew (m : KeyMap α) (k : String) (v : α) : KeyMap α :=
  match m.entries.lookup k with
  | some _ => m
  | none => m.insert k v

/-- Later entries replace earlier ones with the same key. -/
def ofList (entries : List (String × α)) : KeyMap α :=
  entries.foldl (fun m e => m.insert e.1 e.2) empty

def get? (m : KeyMap α) (k : String) : Option α :=
  m.entries.lookup k

def keys (m : KeyMap α) : List String :=
  m.entries.map (·.1)

def isEmpty (m : KeyMap α) : Bool :=
  m.entries.isEmpty

def map (f : α → β) (m : KeyMap α) : KeyMap β :=
  ⟨m.entries.map fun e => (e.1, f e.2), List.pairwise_map.2 m.ascending⟩

theorem pairwise_filterMap {l : List (String × α)} (h : l.Pairwise (·.1 < ·.1))
    (f : α → Option β) :
    (l.filterMap fun e => (f e.2).map (e.1, ·)).Pairwise (·.1 < ·.1) := by
  refine List.pairwise_filterMap.2 (h.imp fun hKeys e he e' he' => ?_)
  obtain ⟨_, -, rfl⟩ := Option.map_eq_some_iff.1 he
  obtain ⟨_, -, rfl⟩ := Option.map_eq_some_iff.1 he'
  exact hKeys

def filterMap (f : α → Option β) (m : KeyMap α) : KeyMap β :=
  ⟨m.entries.filterMap fun e => (f e.2).map (e.1, ·), pairwise_filterMap m.ascending f⟩

@[simp]
theorem get?_empty (k : String) : (empty : KeyMap α).get? k = none := rfl

theorem lookup_insertEntry (k j : String) (v : α) (l : List (String × α)) :
    (insertEntry k v l).lookup j = if j = k then some v else l.lookup j := by
  induction l with
  | nil => simp [insertEntry, List.lookup_cons, List.lookup_nil]; grind
  | cons e rest ih =>
    obtain ⟨k', v'⟩ := e
    simp only [insertEntry]
    split
    · simp only [List.lookup_cons]; grind
    · split <;> simp only [List.lookup_cons, ih] <;> grind

@[simp]
theorem get?_insert (m : KeyMap α) (k j : String) (v : α) :
    (m.insert k v).get? j = if j = k then some v else m.get? j :=
  lookup_insertEntry k j v m.entries

@[simp]
theorem get?_insertNew (m : KeyMap α) (k j : String) (v : α) :
    (m.insertNew k v).get? j = (m.get? j).or (if j = k then some v else none) := by
  unfold insertNew
  cases h : m.entries.lookup k with
  | some w =>
    have hOld : m.get? k = some w := h
    grind
  | none =>
    have hNew : m.get? k = none := h
    rw [get?_insert]
    grind

end KeyMap

end DaxMigration
