import DaxMigration.Xml.Escape

/-!
# Attributes

The attributes in the content of a tag, read one character at a time. A key runs up to `=` or a
space, its first character included whatever it is; a value stands between two equal quotes. Nothing
need separate a value from the next key. Positions count bytes from the start of the tag's content.
-/

namespace DaxMigration.Xml

def isSpace (c : Char) : Bool :=
  c = ' ' || c = '\t' || c = '\n' || c = '\r'

inductive AttributeFault where
  | keyEnd (position : Nat)
  | repeated (position previous : Nat)
  | noValue (position : Nat)
  | unquoted (position : Nat)
  | openQuote (position : Nat) (quote : Char)
deriving DecidableEq

namespace AttributeFault

def message : AttributeFault → String
  | keyEnd position =>
    "position " ++ toString position ++
      ": attribute key must be directly followed by `=` or space"
  | repeated position previous =>
    "position " ++ toString position ++
      ": duplicated attribute, previous declaration at position " ++ toString previous
  | noValue position =>
    "position " ++ toString position ++ ": `=` must be followed by an attribute value"
  | unquoted position =>
    "position " ++ toString position ++ ": attribute value must be enclosed in `\"` or `'`"
  | openQuote position quote =>
    "position " ++ toString position ++ ": missing closing quote `" ++ String.singleton quote ++
      "` in attribute value"

end AttributeFault

/-- Why the content of a tag is none. -/
inductive TagFault where
  | malformed (fault : AttributeFault)
  | escape (fault : EscapeFault)
deriving DecidableEq

def TagFault.message : TagFault → String
  | malformed fault => fault.message
  | escape fault => fault.message

/-- Where in an attribute the reading stands. Keys and values have their latest character first. -/
inductive AttributePart where
  | before
  | key (start : Nat) (key : List Char)
  | afterKey (start : Nat) (key : List Char)
  | afterEquals (key : List Char)
  | value (key : List Char) (quote : Char) (value : List Char)
deriving DecidableEq

/-- Attributes read up to an offset, the latest first: their keys with the offsets at which they
start, and their values. -/
structure AttributeReading where
  offset : Nat
  keys : List (List Char × Nat) := []
  attributes : List (String × String) := []
  part : AttributePart := .before

namespace AttributeReading

/-- A key is complete where the `=` after it is read; it may not occur twice. -/
def keyRead (r : AttributeReading) (start : Nat) (key : List Char) (offset : Nat) :
    Except TagFault AttributeReading :=
  match r.keys.lookup key with
  | some previous => .error (.malformed (.repeated start previous))
  | none => .ok { r with offset, keys := (key, start) :: r.keys, part := .afterEquals key }

def step (r : AttributeReading) (c : Char) : Except TagFault AttributeReading :=
  let offset := r.offset + c.utf8Size
  match r.part with
  | .before =>
    if isSpace c then .ok { r with offset }
    else .ok { r with offset, part := .key r.offset [c] }
  | .key start key =>
    if c = '=' then r.keyRead start key offset
    else if isSpace c then .ok { r with offset, part := .afterKey start key }
    else .ok { r with offset, part := .key start (c :: key) }
  | .afterKey start key =>
    if isSpace c then .ok { r with offset }
    else if c = '=' then r.keyRead start key offset
    else .error (.malformed (.keyEnd r.offset))
  | .afterEquals key =>
    if isSpace c then .ok { r with offset }
    else if c = '"' || c = '\'' then .ok { r with offset, part := .value key c [] }
    else .error (.malformed (.unquoted r.offset))
  | .value key quote value =>
    if c = quote then
      match unescape value.reverse with
      | .error fault => .error (.escape fault)
      | .ok text =>
        let entry := (String.ofList key.reverse, String.ofList text)
        .ok { r with offset, attributes := entry :: r.attributes, part := .before }
    else .ok { r with offset, part := .value key quote (c :: value) }

def finish (r : AttributeReading) : Except TagFault (List (String × String)) :=
  match r.part with
  | .before => .ok r.attributes.reverse
  | .key _ _ | .afterKey _ _ => .error (.malformed (.keyEnd r.offset))
  | .afterEquals _ => .error (.malformed (.noValue r.offset))
  | .value _ quote _ => .error (.malformed (.openQuote r.offset quote))

end AttributeReading

/-- The name and the attributes of a tag: the name runs up to the first space. -/
def readTag (content : List Char) : Except TagFault (String × List (String × String)) := do
  let name := content.takeWhile (!isSpace ·)
  let reading ← (content.dropWhile (!isSpace ·)).foldlM AttributeReading.step
    { offset := Text.utf8Length name }
  return (String.ofList name, ← reading.finish)

end DaxMigration.Xml
