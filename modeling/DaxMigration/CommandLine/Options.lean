import DaxMigration.Storage.Path

/-!
# Options

What the words of a command line ask for. An option is written with two dashes and its name, or with
one dash and its letter; the value of one that takes a value is the next word, unless that begins
with a dash itself, or stands in the same word. Letters may share a word. Behind a word of two
dashes alone, every word is an input. The first word that is wrong, or that asks for help or the
version, decides.
-/

namespace DaxMigration.CommandLine

structure Options where
  inputs : List String := []
  recursive : Bool := false
  configDir : Option String := none
  outputDir : String := "output"
  name : Option String := none
  table : String := "Sales"
  orderColumn : String := "OrderDate"
  logFile : Option String := none
  verbosity : String := "info"
  report : Option String := none
  json : Bool := false
deriving DecidableEq

inductive Flag where
  | recursive
  | json
  | help
  | version
deriving DecidableEq

namespace Flag

def all : List Flag :=
  [recursive, json, help, version]

def name : Flag → String
  | recursive => "recursive"
  | json => "json"
  | help => "help"
  | version => "version"

def letter? : Flag → Option Char
  | recursive => some 'r'
  | json => none
  | help => some 'h'
  | version => some 'V'

def apply (o : Options) : Flag → Options
  | recursive => { o with recursive := true }
  | json => { o with json := true }
  | _ => o

end Flag

inductive Field where
  | configDir
  | outputDir
  | name
  | table
  | orderColumn
  | logFile
  | verbosity
  | report
deriving DecidableEq

namespace Field

def all : List Field :=
  [configDir, outputDir, name, table, orderColumn, logFile, verbosity, report]

def longName : Field → String
  | configDir => "config-dir"
  | outputDir => "output-dir"
  | name => "name"
  | table => "table"
  | orderColumn => "order-column"
  | logFile => "log-file"
  | verbosity => "verbosity"
  | report => "report"

def letter? : Field → Option Char
  | configDir => some 'c'
  | outputDir => some 'o'
  | _ => none

/-- The value is a path, which cannot be empty. -/
def isPath : Field → Bool
  | configDir | outputDir | logFile | report => true
  | _ => false

def apply (o : Options) (value : String) : Field → Options
  | configDir => { o with configDir := some value }
  | outputDir => { o with outputDir := value }
  | name => { o with name := some value }
  | table => { o with table := value }
  | orderColumn => { o with orderColumn := value }
  | logFile => { o with logFile := some value }
  | verbosity => { o with verbosity := value }
  | report => { o with report := some value }

end Field

inductive UsageFault where
  | unknown (word : String)
  | noValue (name : String)
  | unneededValue (name : String)
  | repeated (name : String)
  | emptyPath (name : String)
  | noInput
deriving DecidableEq

def UsageFault.message : UsageFault → String
  | unknown word => "unexpected argument '" ++ word ++ "' found"
  | noValue name => "a value is required for '" ++ name ++ "' but none was supplied"
  | unneededValue name => "unexpected value for '" ++ name ++ "' found; no more were expected"
  | repeated name => "the argument '" ++ name ++ "' cannot be used multiple times"
  | emptyPath name => "a value is required for '" ++ name ++ "' but none was supplied"
  | noInput => "the following required arguments were not provided:\n  <INPUTS>..."

inductive Stop where
  | help
  | version
  | usage (fault : UsageFault)
deriving DecidableEq

/-- The options read so far, the inputs in reverse, and which were given. -/
structure Reading where
  options : Options := {}
  flags : List Flag := []
  fields : List Field := []

namespace Reading

def fail {α : Type} (fault : UsageFault) : Except Stop α :=
  .error (.usage fault)

def addInput (r : Reading) (word : String) : Except Stop Reading :=
  if word = "" then fail (.emptyPath "<INPUTS>...")
  else .ok { r with options := { r.options with inputs := word :: r.options.inputs } }

def addFlag (r : Reading) (flag : Flag) : Except Stop Reading :=
  match flag with
  | .help => .error .help
  | .version => .error .version
  | _ =>
    if r.flags.contains flag then fail (.repeated ("--" ++ flag.name))
    else .ok { r with options := flag.apply r.options, flags := flag :: r.flags }

def addField (r : Reading) (field : Field) (value : String) : Except Stop Reading :=
  if r.fields.contains field then fail (.repeated ("--" ++ field.longName))
  else if field.isPath && value = "" then fail (.emptyPath ("--" ++ field.longName))
  else .ok { r with options := field.apply r.options value, fields := field :: r.fields }

end Reading

open Reading (fail)

/-- What a word that begins with a dash leaves to be done: nothing, or a field that takes the next
word. -/
abbrev Awaiting := Reading × Option Field

def splitAtEquals (word : List Char) : String × Option String :=
  let value :=
    match word.dropWhile (· ≠ '=') with
    | _ :: value => some (String.ofList value)
    | [] => none
  (String.ofList (word.takeWhile (· ≠ '=')), value)

def readLong (r : Reading) (word : List Char) : Except Stop Awaiting := do
  let (name, value?) := splitAtEquals word
  match Flag.all.find? (·.name == name), Field.all.find? (·.longName == name), value? with
  | some flag, _, none => return (← r.addFlag flag, none)
  | some flag, _, some _ => fail (.unneededValue ("--" ++ flag.name))
  | none, some field, some value => return (← r.addField field value, none)
  | none, some field, none => return (r, some field)
  | none, none, _ => fail (.unknown ("--" ++ String.ofList word))

/-- The letters behind one dash. What follows a field's letter in the word is its value, less an
equals sign in front. -/
def readLetters (r : Reading) : List Char → Except Stop Awaiting
  | [] => .ok (r, none)
  | c :: rest =>
    match Flag.all.find? (·.letter? == some c), Field.all.find? (·.letter? == some c) with
    | some flag, _ => do readLetters (← r.addFlag flag) rest
    | none, some field =>
      match rest with
      | [] => .ok (r, some field)
      | '=' :: value => do return (← r.addField field (String.ofList value), none)
      | value => do return (← r.addField field (String.ofList value), none)
    | none, none => fail (.unknown (String.ofList ['-', c]))

/-- A word that cannot be a value or an input. -/
def isDashed (word : String) : Bool :=
  word.toList.head? == some '-' && word ≠ "-"

def readWord (r : Reading) (word : String) : Except Stop Awaiting :=
  match word.toList with
  | '-' :: '-' :: rest => readLong r rest
  | '-' :: c :: rest => readLetters r (c :: rest)
  | _ => do return (← r.addInput word, none)

/-- Reads the words in order; `awaiting` is a field whose value comes next. -/
def readWords (r : Reading) (awaiting : Option Field) : List String → Except Stop Reading
  | [] =>
    match awaiting with
    | some field => fail (.noValue ("--" ++ field.longName))
    | none => .ok r
  | word :: rest =>
    match awaiting with
    | some field =>
      if isDashed word then fail (.noValue ("--" ++ field.longName))
      else do readWords (← r.addField field word) none rest
    | none =>
      if word = "--" then rest.foldlM Reading.addInput r
      else do
        let (r, awaiting) ← readWord r word
        readWords r awaiting rest

/-- The options of a command line, which must name an input. -/
def Options.ofWords (words : List String) : Except Stop Options := do
  let r ← readWords {} none words
  if r.options.inputs.isEmpty then fail .noInput
  else return { r.options with inputs := r.options.inputs.reverse }

end DaxMigration.CommandLine
