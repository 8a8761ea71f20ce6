import DaxMigration.Storage.Path
import DaxMigration.Text.Blank

/-!
# Names at the end of paths

A name without slashes that is joined to a path is the last part of the joined path, so it is what
the path ends in and the name of its file.
-/

namespace DaxMigration.Storage

/-! ## Parts -/

section

variable {sep : Char}

theorem splitOn_append_cons (a b : List Char) :
    splitOn sep (a ++ sep :: b) = splitOn sep a ++ splitOn sep b := by
  induction a with
  | nil => simp [splitOn]
  | cons c a ih =>
    rw [List.cons_append, splitOn, splitOn, ih]
    obtain ⟨part, parts, hParts⟩ := List.exists_cons_of_ne_nil (splitOn_ne_nil sep a)
    split
    · rfl
    · simp [hParts]

theorem splitOn_of_not_mem {cs : List Char} (h : sep ∉ cs) : splitOn sep cs = [cs] := by
  induction cs with
  | nil => rfl
  | cons c cs ih =>
    simp only [List.mem_cons, not_or] at h
    rw [splitOn, if_neg (Ne.symm h.1), ih h.2]

theorem exists_splitOn_eq_cons (cs : List Char) :
    ∃ rest, splitOn sep cs = cs.takeWhile (· ≠ sep) :: rest := by
  induction cs with
  | nil => exact ⟨[], rfl⟩
  | cons c cs ih =>
    obtain ⟨rest, hParts⟩ := ih
    rw [splitOn]
    by_cases hSep : c = sep
    · exact ⟨splitOn sep cs, by simp [hSep]⟩
    · exact ⟨rest, by simp [hSep, hParts]⟩

/-- A part is made of characters of the text other than the separator. -/
theorem of_mem_splitOn {cs part : List Char} (h : part ∈ splitOn sep cs) :
    part ⊆ cs ∧ sep ∉ part := by
  induction cs generalizing part with
  | nil =>
    obtain rfl : part = [] := by simpa [splitOn] using h
    simp
  | cons c cs ih =>
    obtain ⟨first, rest, hParts⟩ := List.exists_cons_of_ne_nil (splitOn_ne_nil sep cs)
    rw [hParts] at ih
    rw [splitOn] at h
    split at h
    · rcases List.mem_cons.1 h with rfl | hMem
      · simp
      · obtain ⟨hSubset, hFree⟩ := ih (hParts ▸ hMem)
        exact ⟨List.Subset.trans hSubset (List.subset_cons_self _ _), hFree⟩
    · rename_i hOther
      simp only [hParts] at h
      rcases List.mem_cons.1 h with rfl | hMem
      · obtain ⟨hSubset, hFree⟩ := ih List.mem_cons_self
        refine ⟨List.cons_subset_cons c hSubset, ?_⟩
        simp [Ne.symm hOther, hFree]
      · obtain ⟨hSubset, hFree⟩ := ih (List.mem_cons_of_mem _ hMem)
        exact ⟨List.Subset.trans hSubset (List.subset_cons_self _ _), hFree⟩

end

structure IsName (name : String) : Prop where
  whole : '/' ∉ name.toList
  told : name ≠ "" ∧ name ≠ "." ∧ name ≠ ".."

structure EndsIn (path name : String) : Prop where
  isName : IsName name
  parts : ∃ front, pathParts path = front ++ [name]

section

variable {path name : String}

theorem endsIn_of_append {front : List Char} (h : IsName name)
    (hPath : path.toList = front ++ '/' :: name.toList) : EndsIn path name := by
  refine ⟨h, pathParts (String.ofList front), ?_⟩
  rw [pathParts, hPath, splitOn_append_cons, splitOn_of_not_mem h.whole]
  simp [pathParts]

theorem endsIn_joinPath (path : String) (h : IsName name) : EndsIn (joinPath path name) name := by
  have hAlone : EndsIn name name := by
    refine ⟨h, [], ?_⟩
    rw [pathParts, splitOn_of_not_mem h.whole]
    simp
  unfold joinPath
  split
  · exact hAlone
  split
  · rename_i hSlash
    have hLast : path.toList.getLast? = some '/' := by simpa [endsInSlash] using hSlash
    obtain ⟨front, hFront⟩ := List.getLast?_eq_some_iff.1 hLast
    have hJoined : (path ++ name).toList = front ++ '/' :: name.toList := by simp [hFront]
    exact endsIn_of_append h hJoined
  · have hJoined : (path ++ "/" ++ name).toList = path.toList ++ '/' :: name.toList := by simp
    exact endsIn_of_append h hJoined

variable (h : EndsIn path name)
include h

theorem EndsIn.partsToEnd_eq : partsToEnd path = pathParts path := by
  obtain ⟨front, hParts⟩ := h.parts
  simp [partsToEnd, dropLastParts, hParts, h.isName.told.1]

theorem EndsIn.endName?_eq : endName? path = some name := by
  obtain ⟨front, hParts⟩ := h.parts
  rw [endName?, h.partsToEnd_eq, hParts, List.getLast?_concat]
  simp [Option.filter, h.isName.told]

theorem EndsIn.fileName?_eq : fileName? path = some name := by
  obtain ⟨front, hParts⟩ := h.parts
  obtain ⟨hEmpty, hDot, hUp⟩ := h.isName.told
  simp [fileName?, pathNames, hParts, List.filter_append, hEmpty, hDot, hUp]

theorem EndsIn.unique {other : String} (h' : EndsIn path other) : name = other :=
  Option.some.inj (h.fileName?_eq.symm.trans h'.fileName?_eq)

end

/-! ## File names -/

section

variable {path name : String}

theorem mem_pathParts_of_fileName? (h : fileName? path = some name) : name ∈ pathParts path := by
  unfold fileName? at h
  split at h
  · rename_i last hLast
    split at h
    · cases h
    · cases h
      exact (List.mem_filter.1 (List.mem_of_getLast? hLast)).1
  · cases h

theorem isName_of_fileName? (h : fileName? path = some name) : IsName name := by
  have hWhole : '/' ∉ name.toList := by
    obtain ⟨part, hPart, rfl⟩ := List.mem_map.1 (mem_pathParts_of_fileName? h)
    simpa using (of_mem_splitOn hPart).2
  unfold fileName? at h
  split at h
  · rename_i last hLast
    split at h
    · cases h
    · rename_i hUp
      cases h
      have hTold := (List.mem_filter.1 (List.mem_of_getLast? hLast)).2
      exact ⟨hWhole, by simpa [hUp] using hTold⟩
  · cases h

theorem exists_append_of_getLast?_filter {α : Type} {p : α → Bool} {xs : List α} {last : α}
    (h : (xs.filter p).getLast? = some last) :
    ∃ front back, xs = front ++ last :: back ∧ ∀ x ∈ back, p x = false := by
  induction xs with
  | nil => cases h
  | cons x xs ih =>
    by_cases hKept : (xs.filter p) = []
    · have hNone : ∀ y ∈ xs, p y = false := by simpa using hKept
      cases hFirst : p x with
      | true =>
        rw [List.filter_cons_of_pos hFirst, hKept] at h
        exact ⟨[], xs, by cases h; rfl, hNone⟩
      | false =>
        rw [List.filter_cons_of_neg (by simp [hFirst]), hKept] at h
        cases h
    · have hRest : (xs.filter p).getLast? = some last := by
        cases hFirst : p x with
        | true =>
          rwa [List.filter_cons_of_pos hFirst, List.getLast?_cons_of_ne_nil hKept] at h
        | false => rwa [List.filter_cons_of_neg (by simp [hFirst])] at h
      obtain ⟨front, back, rfl, hBack⟩ := ih hRest
      exact ⟨x :: front, back, rfl, hBack⟩

/-- Behind the name of the file stand parts that say nothing. -/
theorem parts_of_fileName? (h : fileName? path = some name) :
    ∃ front idle, pathParts path = front ++ name :: idle ∧ ∀ part ∈ idle, part = "" ∨ part = "." := by
  unfold fileName? at h
  split at h
  · rename_i last hLast
    split at h
    · cases h
    · cases h
      obtain ⟨front, idle, hParts, hIdle⟩ := exists_append_of_getLast?_filter hLast
      exact ⟨front, idle, hParts, by simpa [Decidable.or_iff_not_imp_left] using hIdle⟩
  · cases h

theorem whole_splitExtension (h : '/' ∉ name.toList) :
    '/' ∉ (splitExtension name).1.toList := by
  unfold splitExtension
  simp only
  split
  · rename_i last first others hLast hFront
    split
    · exact h
    · rw [String.toList_ofList]
      refine Text.not_mem_intercalate (by decide) fun part hMem => ?_
      rw [← hFront] at hMem
      exact fun hSlash => h ((of_mem_splitOn (List.dropLast_subset _ hMem)).1 hSlash)
  · exact h

/-- An extension without dots is all that there may be behind the last dot. -/
theorem splitExtension_append (front : List Char) {ext : List Char} (hExt : '.' ∉ ext) :
    (splitExtension (String.ofList (front ++ '.' :: ext))).2 ∈ [none, some (String.ofList ext)] := by
  obtain ⟨first, others, hFront⟩ := List.exists_cons_of_ne_nil (splitOn_ne_nil '.' front)
  have hParts : splitOn '.' (String.ofList (front ++ '.' :: ext)).toList =
      first :: others ++ [ext] := by
    rw [String.toList_ofList, splitOn_append_cons, splitOn_of_not_mem hExt, hFront]
  simp only [splitExtension, hParts, List.getLast?_concat, List.dropLast_concat]
  split <;> simp

end

end DaxMigration.Storage
