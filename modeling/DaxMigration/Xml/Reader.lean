import DaxMigration.Text.Blank
import DaxMigration.Xml.Attribute
import DaxMigration.Xml.Event

/-!
# Documents

A document is read one character at a time into the events that spell its tree. An event carries the
position at which the reader stood before it: behind the markup before, or at the `<` that ended a
text. Reading stops at the first fault; the events before it count, so that what is wrong with them
is reported first.
-/

namespace DaxMigration.Xml

/-- Markup after its `<`: what kind it is, and what decides where it ends. -/
inductive Markup where
  | cdata
  | comment
  /-- With the number of inner `<` that have no `>` yet. -/
  | doctype (depth : Nat)
  | closing
  | instruction
  /-- With the quote that is open. -/
  | tag (quote : Option Char)
deriving DecidableEq

inductive Fault where
  | unfinished (what : String)
  | unknownDeclaration (symbol : Char)
  | emptyDoctype
  | mismatch (expected found : List Char)
  | tag (fault : TagFault)
  | escape (fault : EscapeFault)
  | tree (fault : TreeFault)
deriving DecidableEq

namespace Fault

def message : Fault → String
  | unfinished what => "Unexpected EOF during reading " ++ what
  | unknownDeclaration symbol =>
    "Only Comment (`--`), CDATA (`[CDATA[`) and DOCTYPE (`DOCTYPE`) nodes can start with a '!', " ++
      "but symbol `" ++ String.singleton symbol ++ "` found"
  | emptyDoctype => "DOCTYPE declaration must not be empty"
  | mismatch expected found =>
    "Expecting </" ++ String.ofList expected ++ "> found </" ++ String.ofList found ++ ">"
  | tag fault => fault.message
  | escape fault => fault.message
  | tree fault => fault.message

end Fault

/-- Why a document is none, with the position of the reader where there is one. -/
structure DocumentFault where
  position : Option Nat
  fault : Fault
deriving DecidableEq

def DocumentFault.message (f : DocumentFault) : String :=
  match f.position with
  | some position => "at byte " ++ toString position ++ ": " ++ f.fault.message
  | none => f.fault.message

namespace Markup

/-- The fault of markup that does not end, or does not begin as its kind must. -/
def unfinished : Markup → Fault
  | cdata => .unfinished "CData"
  | comment => .unfinished "Comment"
  | doctype _ => .unfinished "DOCTYPE"
  | closing => .unfinished "Element"
  | instruction => .unfinished "XmlDecl"
  | tag _ => .unfinished "Element"

/-- Whether a `>` ends the markup, given its content before, the latest character first. -/
def endsAfter (content : List Char) : Markup → Bool
  | cdata => [']', ']'].isPrefixOf content
  | comment => ['-', '-'].isPrefixOf content && !(content.drop 4).isEmpty
  | doctype depth => depth == 0
  | closing | instruction => true
  | tag quote => quote.isNone

/-- The markup after one more character of its content. -/
def next (c : Char) : Markup → Markup
  | doctype depth =>
    doctype (if c = '<' then depth + 1 else if c = '>' then depth - 1 else depth)
  | tag none => tag (if c = '"' || c = '\'' then some c else none)
  | tag (some quote) => tag (if c = quote then none else some quote)
  | m => m

/-- The kind of markup that begins `<!` and then this character. -/
def declaration? (c : Char) : Option Markup :=
  if c = '[' then some cdata
  else if c = '-' then some comment
  else if c = 'D' || c = 'd' then some (doctype 0)
  else none

end Markup

def startsWithAnyCase (start : String) (content : List Char) : Bool :=
  Text.equalAsciiCase (content.take start.length) start.toList

/-- The name in a closing tag. White space after it does not count, unless there is nothing else. -/
def closingName (content : List Char) : List Char :=
  if content.all isSpace then content else Text.dropTrailing isSpace content

/-- The event of complete markup, and the names of the elements that are open after it. -/
def Markup.event (names : List (List Char)) (content : List Char) :
    Markup → Except Fault (Event × List (List Char))
  | cdata =>
    if startsWithAnyCase "![CDATA[" content then
      .ok (.cdata (String.ofList ((content.drop 8).dropLast.dropLast)), names)
    else .error cdata.unfinished
  | comment =>
    if "!--".toList.isPrefixOf content then .ok (.other, names) else .error comment.unfinished
  | m@(doctype _) =>
    if !startsWithAnyCase "!DOCTYPE" content then .error m.unfinished
    else if (content.drop 8).all isSpace then .error .emptyDoctype
    else .ok (.other, names)
  | closing =>
    let found := closingName (content.drop 1)
    match names with
    | [] => .error (.mismatch [] (content.drop 1))
    | name :: outer => if found = name then .ok (.closing, outer) else .error (.mismatch name found)
  | instruction =>
    if 2 < content.length && content.getLast? == some '?' then .ok (.other, names)
    else .error instruction.unfinished
  | tag _ =>
    if content.getLast? = some '/' then
      match readTag content.dropLast with
      | .error fault => .error (.tag fault)
      | .ok (name, attributes) => .ok (.empty name attributes, names)
    else
      match readTag content with
      | .error fault => .error (.tag fault)
      | .ok (name, attributes) =>
        .ok (.opening name attributes, content.takeWhile (!isSpace ·) :: names)

/-- Where the reader stands. Contents have their latest character first. -/
inductive Place where
  /-- Behind markup, or at the start: white space here is skipped. -/
  | outside
  | text (content : List Char)
  /-- Behind a `<`. -/
  | opened
  /-- Behind `<!`. -/
  | declared
  | markup (kind : Markup) (content : List Char)
  | stopped (fault : Fault)

/-- What has been read: the offset of the next character, the position before the event that is
being read, and the events before it, the latest first. -/
structure Reading where
  offset : Nat := 0
  position : Nat := 0
  place : Place := .outside
  names : List (List Char) := []
  events : List (Nat × Event) := []

namespace Reading

def stop (r : Reading) (fault : Fault) : Reading :=
  { r with place := .stopped fault }

/-- Emits the text before the reader; `place` is where the reading goes on. -/
def emitText (r : Reading) (content : List Char) (place : Place) : Reading :=
  match unescape (Text.dropTrailing isSpace content.reverse) with
  | .error fault => r.stop (.escape fault)
  | .ok text =>
    { r with position := r.offset, place, events := (r.position, .text (String.ofList text)) :: r.events }

/-- Emits complete markup; the reader stands before `offset` afterwards. -/
def emitMarkup (r : Reading) (kind : Markup) (content : List Char) (offset : Nat) : Reading :=
  match kind.event r.names content.reverse with
  | .error fault => r.stop fault
  | .ok (event, names) =>
    { offset, position := offset, place := .outside, names, events := (r.position, event) :: r.events }

def markupStep (r : Reading) (kind : Markup) (content : List Char) (c : Char) : Reading :=
  let offset := r.offset + c.utf8Size
  if c = '>' && kind.endsAfter content then r.emitMarkup kind content offset
  else { r with offset, place := .markup (kind.next c) (c :: content) }

def step (r : Reading) (c : Char) : Reading :=
  let offset := r.offset + c.utf8Size
  match r.place with
  | .outside =>
    if isSpace c then { r with offset }
    else if c = '<' then { r with offset, place := .opened }
    else { r with offset, place := .text [c] }
  | .text content =>
    if c = '<' then { r.emitText content .opened with offset }
    else { r with offset, place := .text (c :: content) }
  | .opened =>
    if c = '!' then { r with offset, place := .declared }
    else if c = '/' then { r with offset, place := .markup .closing [c] }
    else if c = '?' then { r with offset, place := .markup .instruction [c] }
    else r.markupStep (.tag none) [] c
  | .declared =>
    match Markup.declaration? c with
    | some kind => { r with offset, place := .markup kind [c, '!'] }
    | none => r.stop (.unknownDeclaration (firstByteChar c))
  | .markup kind content => r.markupStep kind content c
  | .stopped _ => r

/-- What the end of the input makes of the place: text is complete, and so are a closing tag and an
instruction. -/
def finish (r : Reading) : Reading :=
  match r.place with
  | .outside | .opened | .stopped _ => r
  | .text content => r.emitText content .outside
  | .declared => r.stop (.unfinished "Bang")
  | .markup kind content =>
    match kind with
    | .closing | .instruction => r.emitMarkup kind content r.offset
    | _ => r.stop kind.unfinished

end Reading

/-- Reads a text, less a byte order mark at its start. -/
def Reading.ofText (cs : List Char) : Reading :=
  let body :=
    match cs with
    | '\uFEFF' :: rest => rest
    | _ => cs
  (body.foldl Reading.step {}).finish

/-- The tree of the events, each with the position that a fault in it is reported at. -/
def buildAt (events : List (Nat × Event)) : Except DocumentFault Building :=
  events.foldlM (fun b e =>
    match b.step e.2 with
    | .ok b => .ok b
    | .error fault => .error ⟨some e.1, .tree fault⟩) {}

/-- What stopped the reading before the end of the text. -/
def Reading.fault? (r : Reading) : Option Fault :=
  match r.place with
  | .stopped fault => some fault
  | _ => none

def Element.ofReading (reading : Reading) : Except DocumentFault Element := do
  let building ← buildAt reading.events.reverse
  match reading.fault?, building.finish with
  | some fault, _ => .error ⟨some reading.position, fault⟩
  | none, .ok root => .ok root
  | none, .error fault => .error ⟨none, .tree fault⟩

def Element.ofText (cs : List Char) : Except DocumentFault Element :=
  ofReading (.ofText cs)

end DaxMigration.Xml
