import DaxMigration.Workbook.File

/-!
# What loading a workbook looks at

Only the entry that its path leads to: file trees that hold the same there give the same workbook,
the same failure and the same lines.
-/

namespace DaxMigration

open Storage (FileTree)

namespace Workbook

variable {files files' : FileTree} {path : String}

theorem fileInfo_congr (h : files.find? path = files'.find? path) :
    fileInfo files path = fileInfo files' path := by
  unfold fileInfo
  cases hEntry : files'.find? path with
  | none =>
    obtain ⟨fault, hRead⟩ := FileTree.read_of_find?_none (h.trans hEntry)
    obtain ⟨fault', hRead'⟩ := FileTree.read_of_find?_none hEntry
    simp only [hRead, hRead']
  | some e =>
    rw [FileTree.read_of_find?_some (h.trans hEntry), FileTree.read_of_find?_some hEntry]

theorem readSource_congr (h : files.find? path = files'.find? path) :
    readSource files path = readSource files' path := by
  unfold readSource FileTree.contains
  rw [h]
  cases hEntry : files'.find? path with
  | none => rfl
  | some e =>
    rw [FileTree.read_of_find?_some (h.trans hEntry), FileTree.read_of_find?_some hEntry]

theorem load_congr (h : files.find? path = files'.find? path) :
    load files path = load files' path := by
  unfold load
  rw [readSource_congr h, fileInfo_congr h]

end Workbook

end DaxMigration
