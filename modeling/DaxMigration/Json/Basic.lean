import DaxMigration.KeyMap
import DaxMigration.Decimal.Text

/-!
# JSON values

Numbers are integers or 64-bit floating point; the members of an object keep the order in which they
are given, so that a record is written in the order of its fields and a map in the order of its keys.
-/

namespace DaxMigration

inductive Json where
  | null
  | bool (value : Bool)
  | integer (value : Int)
  | float (value : Decimal.Binary64)
  | string (value : String)
  | array (items : List Json)
  | object (members : List (String × Json))

namespace Json

instance : Inhabited Json := ⟨null⟩

def ofNat (n : Nat) : Json :=
  integer n

def ofOption {α : Type} (f : α → Json) : Option α → Json
  | some a => f a
  | none => null

def ofList {α : Type} (f : α → Json) (as : List α) : Json :=
  array (as.map f)

def strings (ss : List String) : Json :=
  ofList string ss

def ofMap {α : Type} (f : α → Json) (m : KeyMap α) : Json :=
  object (m.entries.map fun e => (e.1, f e.2))

def ofMembers (m : KeyMap Json) : Json :=
  object m.entries

def isNull : Json → Bool
  | null => true
  | _ => false

end Json

end DaxMigration
