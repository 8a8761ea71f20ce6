import DaxMigration.Archive.Package
import DaxMigration.Logging.Line
import DaxMigration.Storage.FileTree
import DaxMigration.Workbook.Extraction

/-!
# Workbook files

A file holds its document as it is, or packed: the document of a package is its first member that is
named like one. What is said on the way is kept also where the loading fails.
-/

namespace DaxMigration.Workbook

open Logging (Line)
open Storage (FileTree)
open Xml (Element)

/-- How a file holds its document. -/
inductive Form where
  | document
  | package
deriving DecidableEq

def Form.ofExtension? (extension : String) : Option Form :=
  if extension = ".twb" || extension = ".tds" then some .document
  else if extension = ".twbx" || extension = ".tdsx" then some .package
  else none

def isSupported (path : String) : Bool :=
  (Form.ofExtension? (Storage.extensionOf path)).isSome

abbrev Loading := ExceptT LoadError (StateM (List Line))

namespace Loading

def fail {α : Type} (e : LoadError) : Loading α :=
  throw e

def say (target message : String) : Loading Unit :=
  modify (· ++ [⟨.debug, target, message⟩])

def outcome {α : Type} (l : Loading α) : Except LoadError α × List Line :=
  l.run.run []

end Loading

open Loading (fail say)

def decode (path : String) (bytes : ByteArray) : Loading String :=
  match Text.decodeUtf8 (Text.dropByteOrderMark bytes.toList) with
  | .ok cs => return String.ofList cs
  | .error e => fail (.corrupted path ("File is not valid UTF-8: " ++ e.message))

def isDocumentName (name : String) : Bool :=
  let name := Text.lower name.toList
  ".twb".toList.isSuffixOf name || ".tds".toList.isSuffixOf name

/-- The first member that is named like a document, with its packed bytes. The members before it
must open too. -/
def documentMember (package : ByteArray) :
    List Archive.Member → Except Archive.PackageFault (Option (Archive.Member × ByteArray))
  | [] => .ok none
  | m :: rest => do
    let packed ← m.opened package
    if isDocumentName m.name then return some (m, packed) else documentMember package rest

def readPackage (path : String) (bytes : ByteArray) : Loading String := do
  match Archive.members bytes >>= documentMember bytes with
  | .error fault => fail (.corrupted path fault.message)
  | .ok none => fail (.corrupted path "No XML file found in archive")
  | .ok (some (m, packed)) =>
    say "workbook::source" ("Reading " ++ m.name ++ " from " ++ path)
    match m.content packed with
    | .error fault =>
      fail (.corrupted path ("Failed to read " ++ m.name ++ ": " ++ fault.message))
    | .ok bytes => decode path bytes

def readSource (files : FileTree) (path : String) : Loading String := do
  if !files.contains path then fail (.fileNotFound path)
  let extension := Storage.extensionOf path
  match Form.ofExtension? extension, files.read path with
  | none, _ => fail (.unsupported extension)
  | some .document, .ok bytes => decode path bytes
  | some .document, .error fault => fail (.io fault.message)
  | some .package, .ok bytes => readPackage path bytes
  | some .package, .error _ => fail (.corrupted path Archive.PackageFault.unreadable.message)

def fileInfo (files : FileTree) (path : String) : FileInfo where
  path := path
  name := (Storage.fileName? path).getD ""
  extension := Storage.extensionOf path
  size :=
    match files.read path with
    | .ok bytes => bytes.size
    | .error _ => 0

def load (files : FileTree) (path : String) : Loading Workbook := do
  let source ← readSource files path
  match Element.ofText source.toList with
  | .error fault => fail (.corrupted path fault.message)
  | .ok root =>
    let file := fileInfo files path
    say "workbook" ("Parsed " ++ file.name ++ " (" ++ toString file.size ++
      " bytes), root element <" ++ root.name ++ ">")
    return ofElement root file

end DaxMigration.Workbook
