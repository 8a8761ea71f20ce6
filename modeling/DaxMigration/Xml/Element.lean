import DaxMigration.Text.Case

/-!
# Element trees

An element with its attributes in document order, its child elements, and the text that stands
directly inside it. The search for one descendant stops at the first; it finds the head of the list
of all descendants of that name.
-/

namespace DaxMigration.Xml

structure Element where
  name : String
  attributes : List (String × String)
  children : List Element
  /-- The pieces of text directly inside, joined. -/
  text : String

namespace Element

def attr? (e : Element) (key : String) : Option String :=
  e.attributes.lookup key

def attr (e : Element) (key : String) : String :=
  (e.attr? key).getD ""

def filledAttr? (e : Element) (key : String) : Option String :=
  (e.attr? key).filter (· ≠ "")

/-- Whether an attribute says `true`, in any case of its letters; `default` where there is none. -/
def attrFlag (e : Element) (key : String) (default : Bool) : Bool :=
  match e.attr? key with
  | some value => Text.equalAsciiCase value.toList "true".toList
  | none => default

def child? (e : Element) (name : String) : Option Element :=
  e.children.find? (·.name = name)

def childrenNamed (e : Element) (name : String) : List Element :=
  e.children.filter (·.name = name)

mutual

/-- All proper descendants, in document order. -/
def descendants : Element → List Element
  | ⟨_, _, children, _⟩ => forest children

/-- All elements of a list of trees, in document order. -/
def forest : List Element → List Element
  | [] => []
  | c :: rest => c :: (descendants c ++ forest rest)

end

mutual

def descendantsNamed (name : String) : Element → List Element
  | ⟨_, _, children, _⟩ => forestNamed name children

def forestNamed (name : String) : List Element → List Element
  | [] => []
  | c :: rest =>
    let below := descendantsNamed name c ++ forestNamed name rest
    if c.name = name then c :: below else below

end

def named (name : String) (e : Element) : List Element :=
  if e.name = name then e :: e.descendantsNamed name else e.descendantsNamed name

mutual

def descendant? (name : String) : Element → Option Element
  | ⟨_, _, children, _⟩ => first? name children

def first? (name : String) : List Element → Option Element
  | [] => none
  | c :: rest =>
    if c.name = name then some c
    else
      match descendant? name c with
      | some found => some found
      | none => first? name rest

end

end Element

end DaxMigration.Xml
