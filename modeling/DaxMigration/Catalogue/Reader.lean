import DaxMigration.Catalogue.Encoding
import DaxMigration.Catalogue.Lookup
import DaxMigration.Logging.Disk
import DaxMigration.Text.Utf8

/-!
# Reading a catalogue

Documents are read from the files of one directory. A file that is missing leaves the built-in
contents, and so does, with a warning, one that cannot be read or has another shape. What is said
about one document is in the log file before the next is read.
-/

namespace DaxMigration.Catalogue

open Json Storage Logging

def documentText (files : FileTree) (path : String) : Except String (List Char) :=
  match files.read path with
  | .error fault => .error fault.message
  | .ok bytes =>
    match Text.decodeUtf8 bytes.toList with
    | .ok cs => .ok cs
    | .error _ => .error FileFault.notText.message

def logTarget : String := "engine::config"

abbrev Saying := StateM (List Line)

def readDocument {α : Type} (disk : Disk) (dir : String) (d : MappingDocument) (builtin : α)
    (read? : Source → Option α) : Saying (α × MappingDocument × DocumentSource) := do
  let files := (disk.after (← get)).files
  let path := joinPath dir d.fileName
  if !files.contains path then return (builtin, d, .builtin)
  else
    let contents := do
      let text ← documentText files path
      match (Source.ofText? text).bind read? with
      | some a => return a
      | none => throw "invalid document"
    match contents with
    | .ok a => return (a, d, .file path)
    | .error reason => do
      modify (· ++ [⟨.warn, logTarget,
        "Could not load config file " ++ path ++ ": " ++ reason ++ ". Using defaults."⟩])
      return (builtin, d, .fallback path reason)

def readDocuments (disk : Disk) (dir : String) : Saying Catalogue := do
  let (releases, s₁) ← readDocument disk dir .releases builtinReleases
    (namedMap? "version_mappings" releaseInfo?)
  let (functions, s₂) ← readDocument disk dir .functions builtinFunctions functions?
  let (charts, s₃) ← readDocument disk dir .visuals builtinCharts
    (namedMap? "chart_mappings" chartMapping?)
  let (dataTypes, s₄) ← readDocument disk dir .dataTypes builtinDataTypes
    (namedMap? "type_mappings" Source.string?)
  let (connections, s₅) ← readDocument disk dir .connections builtinConnections
    (namedMap? "connection_mappings" connectionMapping?)
  let c : Catalogue :=
    ⟨releases, functions, charts, dataTypes, connections, [s₁, s₂, s₃, s₄, s₅]⟩
  modify (· ++ [⟨.debug, logTarget, "Loaded mapping configuration from " ++ dir ++ " (" ++
    toString c.functionCount ++ " functions, " ++ toString c.charts.entries.length ++
    " chart types)"⟩])
  return c

/-- The catalogue of a directory with what is said about it, or none if there is no such directory. -/
def load? (disk : Disk) (dir : String) : Option (Catalogue × List Line) :=
  if disk.files.isDirectory dir then some ((readDocuments disk dir).run []) else none

end DaxMigration.Catalogue
