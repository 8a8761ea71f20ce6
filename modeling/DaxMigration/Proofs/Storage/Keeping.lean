import DaxMigration.Proofs.Storage.Paths
import DaxMigration.Storage.Change

/-!
# What changes keep

Nothing is ever removed: directories stay, and of the files only those at the end of the path that
is written to are replaced. So a path that led somewhere leads there afterwards, and a file that was
not written to is read as before.
-/

namespace DaxMigration.Storage

namespace FileTree

/-- Directories stay, and so do files, save those with one of the free names. -/
structure Keeps (free : String → Prop) (t t' : FileTree) : Prop where
  directory {at_ : Location} (h : t.entryAt? at_ = some .directory) :
    t'.entryAt? at_ = some .directory
  file {at_ : Location} {bytes : ByteArray} (hOther : ∀ name ∈ at_.getLast?, ¬free name)
    (h : t.entryAt? at_ = some (.file bytes)) : t'.entryAt? at_ = some (.file bytes)

section

variable {free free' : String → Prop} {t t' t'' : FileTree} {at_ : Location} {path name : String}

theorem Keeps.refl (free : String → Prop) (t : FileTree) : Keeps free t t :=
  ⟨id, fun _ => id⟩

theorem Keeps.trans (h : Keeps free t t') (h' : Keeps free t' t'') : Keeps free t t'' where
  directory hAt := h'.directory (h.directory hAt)
  file hOther hAt := h'.file hOther (h.file hOther hAt)

theorem Keeps.mono (h : Keeps free t t') (hAll : ∀ name, free name → free' name) :
    Keeps free' t t' where
  directory := h.directory
  file hOther := h.file fun name hName hFree => hOther name hName (hAll name hFree)

theorem keeps_put_directory (h : t.entryAt? at_ = none) : Keeps free t (t.put at_ .directory) where
  directory hAt := by
    rw [entryAt?_put]
    split
    · rfl
    · exact hAt
  file {place bytes} _ hAt := by
    rw [entryAt?_put, if_neg]
    · exact hAt
    · rintro rfl
      rw [h] at hAt
      cases hAt

theorem keeps_put_file (hFree : free name) (h : t.isDirectoryAt (at_ ++ [name]) = false)
    (bytes : ByteArray) : Keeps free t (t.put (at_ ++ [name]) (.file bytes)) where
  directory {place} hAt := by
    rw [entryAt?_put, if_neg]
    · exact hAt
    · rintro rfl
      rw [isDirectoryAt, hAt] at h
      cases h
  file {place old} hOther hAt := by
    rw [entryAt?_put, if_neg]
    · exact hAt
    · rintro rfl
      exact hOther name (by simp) hFree

/-! ## Following paths -/

theorem follow_cons_eq_ok_iff {part : String} {parts : List String} {place : Location} :
    t.follow at_ (part :: parts) = .ok place ↔ t.entryAt? at_ = some .directory ∧
      part.utf8ByteSize ≤ longestName ∧ t.follow (stepInto at_ part) parts = .ok place := by
  rw [follow]
  split
  · rename_i hAt
    split
    · rename_i hLong
      simp [hAt, Nat.not_le.2 hLong]
    · simp_all
  · simp_all
  · simp_all

theorem follow_append_eq_ok_iff {a b : List String} {place : Location} :
    t.follow at_ (a ++ b) = .ok place ↔
      ∃ between, t.follow at_ a = .ok between ∧ t.follow between b = .ok place := by
  induction a generalizing at_ with
  | nil => simp [follow]
  | cons part a ih =>
    simp only [List.cons_append, follow_cons_eq_ok_iff, ih]
    constructor
    · rintro ⟨hAt, hShort, between, hFirst, hSecond⟩
      exact ⟨between, ⟨hAt, hShort, hFirst⟩, hSecond⟩
    · rintro ⟨between, ⟨hAt, hShort, hFirst⟩, hSecond⟩
      exact ⟨hAt, hShort, between, hFirst, hSecond⟩

theorem Keeps.follow (h : Keeps free t t') {parts : List String} {place : Location}
    (hFollow : t.follow at_ parts = .ok place) : t'.follow at_ parts = .ok place := by
  induction parts generalizing at_ with
  | nil => exact hFollow
  | cons part parts ih =>
    obtain ⟨hAt, hShort, hRest⟩ := follow_cons_eq_ok_iff.1 hFollow
    exact follow_cons_eq_ok_iff.2 ⟨h.directory hAt, hShort, ih hRest⟩

def IsPath (path : String) : Prop :=
  Char.ofNat 0 ∉ path.toList ∧ path ≠ "" ∧ path.utf8ByteSize ≤ longestPath

theorem followPath_eq_ok_iff {parts : List String} {place : Location} :
    t.followPath path parts = .ok place ↔
      IsPath path ∧ t.follow (origin path) parts = .ok place := by
  unfold followPath IsPath
  split
  · simp_all
  split
  · simp_all
  split
  · rename_i hLong
    simp [Nat.not_le.2 hLong]
  · simp_all

/-- The path leads to a place that is named like its file. -/
theorem last_of_locate {place : Location} (hName : fileName? path = some name)
    (h : t.locate path = .ok place) : place.getLast? = some name := by
  obtain ⟨front, idle, hParts, hIdle⟩ := parts_of_fileName? hName
  obtain ⟨hEmpty, hDot, hUp⟩ := (isName_of_fileName? hName).told
  rw [locate, hParts] at h
  obtain ⟨-, hFollow⟩ := followPath_eq_ok_iff.1 h
  obtain ⟨between, -, hRest⟩ := follow_append_eq_ok_iff.1 hFollow
  obtain ⟨-, -, hBehind⟩ := follow_cons_eq_ok_iff.1 hRest
  have hStep : stepInto between name = between ++ [name] := by
    simp [stepInto, hEmpty, hDot, hUp]
  have hStay (at_ : Location) (parts : List String) (hAll : ∀ part ∈ parts, part = "" ∨ part = ".")
      (hEnd : t.follow at_ parts = .ok place) : place = at_ := by
    induction parts generalizing at_ with
    | nil => exact (Except.ok.inj hEnd).symm
    | cons part parts ih =>
      obtain ⟨hSays, hMore⟩ := List.forall_mem_cons.1 hAll
      obtain ⟨-, -, hNext⟩ := follow_cons_eq_ok_iff.1 hEnd
      have hIdle : stepInto at_ part = at_ := by
        rcases hSays with rfl | rfl <;> rfl
      exact ih at_ hMore (hIdle ▸ hNext)
  rw [hStay _ idle hIdle hBehind, hStep, List.getLast?_concat]

theorem Keeps.locate (h : Keeps free t t') {place : Location} (hAt : t.locate path = .ok place) :
    t'.locate path = .ok place := by
  obtain ⟨hPath, hFollow⟩ := followPath_eq_ok_iff.1 hAt
  exact followPath_eq_ok_iff.2 ⟨hPath, h.follow hFollow⟩

theorem exists_of_isFile (h : t.isFile path = true) : ∃ place bytes, t.locate path = .ok place ∧
    t.entryAt? place = some (.file bytes) ∧ t.find? path = some (.file bytes) := by
  unfold isFile at h
  split at h
  · rename_i bytes hFind
    have hEntry := hFind
    unfold find? at hEntry
    split at hEntry
    · rename_i place hPlace
      exact ⟨place, bytes, hPlace, hEntry, hFind⟩
    · cases hEntry
  · cases h

/-- A file that has none of the free names is found as before. -/
theorem Keeps.find?_eq (h : Keeps free t t') (hName : fileName? path = some name)
    (hOther : ¬free name) (hFile : t.isFile path = true) : t'.find? path = t.find? path := by
  obtain ⟨place, bytes, hPlace, hEntry, hFind⟩ := exists_of_isFile hFile
  have hKept : t'.entryAt? place = some (.file bytes) := by
    refine h.file (fun last hLast => ?_) hEntry
    rw [last_of_locate hName hPlace] at hLast
    cases hLast
    exact hOther
  rw [hFind, find?, h.locate hPlace]
  exact hKept

theorem Keeps.read {bytes : ByteArray} (h : Keeps free t t') (hName : fileName? path = some name)
    (hOther : ¬free name) (hRead : t.read path = .ok bytes) : t'.read path = .ok bytes := by
  have hFind := find?_of_read hRead
  have hFile : t.isFile path = true := by rw [isFile, hFind]
  exact read_of_find?_some ((h.find?_eq hName hOther hFile).trans hFind)

end

end FileTree

/-! ## Changes -/

namespace Change

open FileTree (Keeps followPath_eq_ok_iff follow_append_eq_ok_iff follow_cons_eq_ok_iff
  keeps_put_directory keeps_put_file longestName)

variable {α β : Type} {free : String → Prop} {t : FileTree} {path : String} {bytes : ByteArray}

/-! ### Runs -/

theorem run_bind (c : Change α) (f : α → Change β) (t : FileTree) :
    (c >>= f).run.run t = match c.run.run t with
      | (.ok a, t') => (f a).run.run t'
      | (.error fault, t') => (.error fault, t') := by
  rw [ExceptT.run_bind, StateT.run_bind]
  obtain ⟨outcome, t'⟩ := c.run.run t
  cases outcome <;> rfl

theorem run_get (t : FileTree) : (get : Change FileTree).run.run t = (.ok t, t) :=
  rfl

theorem run_locating (f : FileTree → Except FileFault α) (t : FileTree) :
    (locating f).run.run t = (f t, t) := by
  unfold locating
  rw [run_bind, run_get]
  simp only
  cases hDone : f t <;> rfl

theorem run_placeIn (holder : Location) (name : String) (t : FileTree) :
    (placeIn holder name).run.run t =
      (if longestName < name.utf8ByteSize then .error .tooLong else .ok (holder ++ [name]), t) := by
  unfold placeIn
  split <;> rfl

theorem run_tryCatch (c : Change α) (f : FileFault → Change α) (t : FileTree) :
    (tryCatch c f).run.run t = match c.run.run t with
      | (.ok a, t') => (.ok a, t')
      | (.error fault, t') => (f fault).run.run t' := by
  rcases hDone : c.run.run t with ⟨outcome, t'⟩
  have hRun : StateT.run c t = (outcome, t') := hDone
  show (ExceptT.tryCatch c f).run.run t = _
  unfold ExceptT.tryCatch
  rw [ExceptT.run_mk, StateT.run_bind, hRun]
  cases outcome <;> rfl

/-- Writing does nothing, or puts a file at the end of the path. -/
theorem write_cases (path : String) (bytes : ByteArray) (t : FileTree) :
    (∃ fault, (write path bytes).run.run t = (.error fault, t)) ∨
      ∃ holder name, t.holder path = .ok holder ∧ endsInSlash path = false ∧ endName? path = some name ∧
        name.utf8ByteSize ≤ longestName ∧ t.isDirectoryAt (holder ++ [name]) = false ∧
          (write path bytes).run.run t = (.ok (), t.put (holder ++ [name]) (.file bytes)) := by
  unfold write
  rw [run_bind, run_locating]
  cases hHolder : t.holder path with
  | error fault => exact .inl ⟨fault, rfl⟩
  | ok holder =>
    simp only
    split
    · exact .inl ⟨.isDirectory, rfl⟩
    · rename_i name hName
      rw [run_bind, run_placeIn]
      by_cases hLong : longestName < name.utf8ByteSize
      · simp only [hLong, if_true]
        exact .inl ⟨.tooLong, rfl⟩
      · simp only [hLong, if_false]
        rw [run_bind, run_get]
        cases hDirectory : t.isDirectoryAt (holder ++ [name]) with
        | true => exact .inl ⟨.isDirectory, by simp only [hDirectory]; rfl⟩
        | false =>
          have hEnd : endsInSlash path = false ∧ endName? path = some name := by
            split at hName
            · cases hName
            · rename_i hSlash
              exact ⟨by simpa using hSlash, hName⟩
          refine .inr ⟨holder, name, rfl, hEnd.1, hEnd.2, Nat.not_lt.1 hLong, hDirectory, ?_⟩
          simp only [hDirectory]
          rfl

/-- Making a directory does nothing, or puts one where nothing was. -/
theorem makeDirectory_cases (path : String) (t : FileTree) :
    (∃ fault, (makeDirectory path).run.run t = (.error fault, t)) ∨
      ∃ at_, t.entryAt? at_ = none ∧
        (makeDirectory path).run.run t = (.ok (), t.put at_ .directory) := by
  unfold makeDirectory
  rw [run_bind, run_locating]
  cases t.holder path with
  | error fault => exact .inl ⟨fault, rfl⟩
  | ok holder =>
    simp only
    split
    · exact .inl ⟨.exists_, rfl⟩
    · rename_i name hName
      rw [run_bind, run_placeIn]
      by_cases hLong : longestName < name.utf8ByteSize
      · simp only [hLong, if_true]
        exact .inl ⟨.tooLong, rfl⟩
      · simp only [hLong, if_false]
        rw [run_bind, run_get]
        cases hEntry : t.entryAt? (holder ++ [name]) with
        | some e => exact .inl ⟨.exists_, by simp only [hEntry]; rfl⟩
        | none =>
          refine .inr ⟨holder ++ [name], hEntry, ?_⟩
          simp only [hEntry]
          rfl

/-! ### What they keep -/

def Keeping (free : String → Prop) (c : Change α) : Prop :=
  ∀ t, Keeps free t (c.run.run t).2

theorem keeping_pure (a : α) : Keeping free (pure a) :=
  fun t => .refl free t

theorem keeping_throw (fault : FileFault) : Keeping free (throw fault : Change α) :=
  fun t => .refl free t

theorem keeping_get : Keeping free (get : Change FileTree) :=
  fun t => .refl free t

theorem Keeping.bind {c : Change α} {f : α → Change β} (h : Keeping free c)
    (hNext : ∀ a, Keeping free (f a)) : Keeping free (c >>= f) := by
  intro t
  have hFirst := h t
  rw [run_bind]
  generalize c.run.run t = done at hFirst
  obtain ⟨outcome, between⟩ := done
  cases outcome with
  | ok a => exact hFirst.trans (hNext a between)
  | error fault => exact hFirst

theorem Keeping.tryCatch {c : Change α} {f : FileFault → Change α} (h : Keeping free c)
    (hNext : ∀ fault, Keeping free (f fault)) : Keeping free (tryCatch c f) := by
  intro t
  have hFirst := h t
  rw [run_tryCatch]
  generalize c.run.run t = done at hFirst
  obtain ⟨outcome, between⟩ := done
  cases outcome with
  | ok a => exact hFirst
  | error fault => exact hFirst.trans (hNext fault between)

theorem keeping_write (path : String) (bytes : ByteArray)
    (hFree : ∀ name ∈ endName? path, free name) : Keeping free (write path bytes) := by
  intro t
  rcases write_cases path bytes t with ⟨fault, hRun⟩ | ⟨holder, name, -, -, hName, -, hAt, hRun⟩
  · rw [hRun]
    exact .refl free t
  · rw [hRun]
    exact keeps_put_file (hFree name hName) hAt bytes

theorem keeping_makeDirectory (path : String) : Keeping free (makeDirectory path) := by
  intro t
  rcases makeDirectory_cases path t with ⟨fault, hRun⟩ | ⟨at_, hAt, hRun⟩
  · rw [hRun]
    exact .refl free t
  · rw [hRun]
    exact keeps_put_directory hAt

theorem keeping_ensureDirectory (path : String) : Keeping free (ensureDirectory path) := by
  refine (keeping_makeDirectory path).tryCatch fun fault => keeping_get.bind fun t => ?_
  split
  · exact keeping_throw fault
  · exact keeping_pure ()

theorem keeping_ensureLineage (paths : List String) : Keeping free (ensureLineage paths) := by
  induction paths with
  | nil => exact keeping_pure ()
  | cons path rest ih =>
    refine (keeping_ensureDirectory path).tryCatch fun fault => ?_
    have hRest : Keeping free (do ensureLineage rest; ensureDirectory path) :=
      ih.bind fun _ => keeping_ensureDirectory path
    split
    · exact (keeping_throw fault).bind fun _ => hRest
    · exact hRest

theorem keeping_makeDirectories (path : String) : Keeping free (makeDirectories path) :=
  keeping_ensureLineage (lineage path)

/-- A file that was written is read as it was written. -/
theorem read_of_write {t' : FileTree} {name : String} (hEnd : EndsIn path name)
    (h : (write path bytes).run.run t = (.ok (), t')) : t'.read path = .ok bytes := by
  have hKeeps : Keeps (fun _ => True) t t' := by
    have hWrite : Keeping (fun _ => True) (write path bytes) :=
      keeping_write path bytes fun _ _ => trivial
    have hKept := hWrite t
    rwa [h] at hKept
  rcases write_cases path bytes t with
    ⟨fault, hRun⟩ | ⟨holder, last, hHolder, -, hLast, hShort, -, hRun⟩
  · rw [hRun] at h
    cases h
  obtain ⟨front, hParts⟩ := hEnd.parts
  obtain ⟨hEmpty, hDot, hUp⟩ := hEnd.isName.told
  obtain rfl : last = name := Option.some.inj (hLast.symm.trans hEnd.endName?_eq)
  rw [FileTree.holder, hEnd.partsToEnd_eq, hParts, List.dropLast_concat] at hHolder
  obtain ⟨hPath, hFollow⟩ := followPath_eq_ok_iff.1 hHolder
  obtain ⟨between, hFront, hInside⟩ := follow_append_eq_ok_iff.1 hFollow
  obtain ⟨hDirectory, -, hStay⟩ := follow_cons_eq_ok_iff.1 hInside
  obtain rfl : between = holder := Except.ok.inj hStay
  have hStep : FileTree.stepInto between last = between ++ [last] := by
    simp [FileTree.stepInto, hEmpty, hDot, hUp]
  have hLocate : t'.locate path = .ok (between ++ [last]) := by
    rw [FileTree.locate, hParts]
    refine followPath_eq_ok_iff.2 ⟨hPath, follow_append_eq_ok_iff.2 ⟨between, ?_, ?_⟩⟩
    · exact hKeeps.follow hFront
    · exact follow_cons_eq_ok_iff.2 ⟨hKeeps.directory hDirectory, hShort, congrArg Except.ok hStep⟩
  have hEntry : t'.entryAt? (between ++ [last]) = some (.file bytes) := by
    rw [hRun] at h
    cases h
    rw [FileTree.entryAt?_put, if_pos rfl]
  have hFind : t'.find? path = some (.file bytes) := by
    rw [FileTree.find?, hLocate]
    exact hEntry
  exact FileTree.read_of_find?_some hFind

end Change

end DaxMigration.Storage
