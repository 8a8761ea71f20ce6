import DaxMigration.Xml.Element

/-!
# Trees from events

A document as the sequence of its tags and texts, and the element tree which that sequence spells.
The elements whose end has not come yet form a stack, innermost first; an element is handed to its
parent when it ends, and the one without a parent is the root.
-/

namespace DaxMigration.Xml

inductive Event where
  | opening (name : String) (attributes : List (String × String))
  | empty (name : String) (attributes : List (String × String))
  | closing
  | text (content : String)
  | cdata (content : String)
  /-- A comment, a declaration or an instruction: no part of the tree. -/
  | other
deriving DecidableEq

/-- An element that has begun, with its children and pieces of text so far, the latest first. -/
structure OpenElement where
  name : String
  attributes : List (String × String)
  children : List Element
  pieces : List String

namespace OpenElement

def closed (o : OpenElement) : Element :=
  ⟨o.name, o.attributes, o.children.reverse, String.join o.pieces.reverse⟩

def addChild (o : OpenElement) (e : Element) : OpenElement :=
  { o with children := e :: o.children }

def addText (o : OpenElement) (piece : String) : OpenElement :=
  { o with pieces := piece :: o.pieces }

end OpenElement

/-- Why a sequence of events spells no tree. -/
inductive TreeFault where
  | secondRoot
  | unopened
  | strayText
  | unclosed (name : String)
  | noRoot
deriving DecidableEq

def TreeFault.message : TreeFault → String
  | secondRoot => "document has more than one root element"
  | unopened => "closing tag without opening tag"
  | strayText => "text outside the root element"
  | unclosed name => "unexpected end of document: <" ++ name ++ "> is not closed"
  | noRoot => "document has no root element"

/-- What has been built so far: the open elements, innermost first, and the root if it is complete. -/
structure Building where
  opened : List OpenElement := []
  root : Option Element := none

namespace Building

/-- A complete element goes to its parent, or becomes the root. -/
def attach (b : Building) (e : Element) : Except TreeFault Building :=
  match b.opened, b.root with
  | parent :: outer, _ => .ok { b with opened := parent.addChild e :: outer }
  | [], some _ => .error .secondRoot
  | [], none => .ok { b with root := some e }

def step (b : Building) : Event → Except TreeFault Building
  | .opening name attributes => .ok { b with opened := ⟨name, attributes, [], []⟩ :: b.opened }
  | .empty name attributes => b.attach ⟨name, attributes, [], ""⟩
  | .closing =>
    match b.opened with
    | [] => .error .unopened
    | o :: outer => { b with opened := outer }.attach o.closed
  | .text content =>
    match b.opened with
    | [] => .error .strayText
    | o :: outer => .ok { b with opened := o.addText content :: outer }
  | .cdata content =>
    match b.opened with
    | [] => .ok b
    | o :: outer => .ok { b with opened := o.addText content :: outer }
  | .other => .ok b

def finish (b : Building) : Except TreeFault Element :=
  match b.opened, b.root with
  | o :: _, _ => .error (.unclosed o.name)
  | [], none => .error .noRoot
  | [], some e => .ok e

end Building

def Element.ofEvents (events : List Event) : Except TreeFault Element := do
  (← events.foldlM Building.step {}).finish

end DaxMigration.Xml
