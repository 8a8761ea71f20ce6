/-!
# Why a workbook cannot be loaded
-/

namespace DaxMigration.Workbook

def supportedExtensions : List String :=
  [".twb", ".twbx", ".tds", ".tdsx"]

inductive LoadError where
  | io (message : String)
  | json (message : String)
  | fileNotFound (path : String)
  | unsupportedFileType (extension : String) (supported : List String)
  | corrupted (path reason : String)
  | xml (reason : String)
deriving DecidableEq

namespace LoadError

def unsupported (extension : String) : LoadError :=
  unsupportedFileType extension supportedExtensions

def message : LoadError → String
  | io message => "IO error: " ++ message
  | json message => "JSON error: " ++ message
  | fileNotFound path => "File not found: " ++ path
  | unsupportedFileType extension supported =>
    "Unsupported file type '" ++ extension ++ "'. Supported types: " ++
      ", ".intercalate supported
  | corrupted path reason => "Corrupted file " ++ path ++ ": " ++ reason
  | xml reason => "XML error: " ++ reason

def kind : LoadError → String
  | io _ => "Io"
  | json _ => "Json"
  | fileNotFound _ => "FileNotFound"
  | unsupportedFileType _ _ => "UnsupportedFileType"
  | corrupted _ _ => "CorruptedFile"
  | xml _ => "Xml"

end LoadError

end DaxMigration.Workbook
