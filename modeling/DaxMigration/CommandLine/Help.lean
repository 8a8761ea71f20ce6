import DaxMigration.CommandLine.Options

/-!
# Help

What the command says of itself.
-/

namespace DaxMigration.CommandLine

def programName : String := "tab2pbi"

def versionText : String :=
  programName ++ " 0.1.0"

def usageText : String :=
  "Usage: " ++ programName ++ " [OPTIONS] <INPUTS>..."

/-- An option as it is written, with what it does. -/
def optionTexts : List (String × String) :=
  [("-r, --recursive", "Descend into subdirectories of directory inputs"),
    ("-c, --config-dir <CONFIG_DIR>",
      "Directory holding the mapping documents (built-in defaults when omitted)"),
    ("-o, --output-dir <OUTPUT_DIR>", "Where converted artifacts are written [default: output]"),
    ("    --name <NAME>", "Output name for a single file input (defaults to the file stem)"),
    ("    --table <TABLE>", "Table that qualifies bare field references in DAX [default: Sales]"),
    ("    --order-column <ORDER_COLUMN>",
      "Column used as the ordering placeholder in table calculations [default: OrderDate]"),
    ("    --log-file <LOG_FILE>", "Also write every log line to this file"),
    ("    --verbosity <VERBOSITY>", "Log verbosity: debug, info, warn, error [default: info]"),
    ("    --report <REPORT>", "Save the session report (JSON) to this path"),
    ("    --json", "Print each pipeline result as JSON on stdout"),
    ("-h, --help", "Print help"),
    ("-V, --version", "Print version")]

def padded (width : Nat) (s : String) : String :=
  s ++ String.ofList (List.replicate (width - s.length) ' ')

def helpLines : List String :=
  let width := (optionTexts.map (·.1.length)).foldl max 0
  ["Convert Tableau workbooks (.twb, .twbx, .tds, .tdsx) to Power BI artifacts", "", usageText, "",
    "Arguments:", "  <INPUTS>...  Files or directories to convert", "", "Options:"] ++
    optionTexts.map fun (option, text) => "  " ++ padded width option ++ "  " ++ text

def usageLines (fault : UsageFault) : List String :=
  ["error: " ++ fault.message, "", usageText, "", "For more information, try '--help'."]

end DaxMigration.CommandLine
