import DaxMigration.Catalogue.Encoding
import DaxMigration.Json.Printer
import DaxMigration.Main
import DaxMigration.Migration.Event.Reader
import DaxMigration.Workbook.File
import DaxMigration.Proofs.Dax.Calls
import DaxMigration.Proofs.Dax.Decision
import DaxMigration.Proofs.Dax.Preserving
import DaxMigration.Proofs.Dax.Lexemes
import DaxMigration.Proofs.Dax.MissingMark
import DaxMigration.Proofs.Dax.Precedence
import DaxMigration.Proofs.Dax.Replacing
import DaxMigration.Proofs.Dax.Shapes
import DaxMigration.Proofs.Dax.Swaps
import DaxMigration.Proofs.Formula.Flanks
import DaxMigration.Proofs.Formula.Fluent
import DaxMigration.Proofs.Dax.Undivided
import DaxMigration.Proofs.Dax.Arguments
import DaxMigration.Proofs.Dax.Sustaining
import DaxMigration.Proofs.Formula.Heads
import DaxMigration.Proofs.Formula.Lossless
import DaxMigration.Proofs.Formula.Segments
import DaxMigration.Proofs.Formula.Walk
import DaxMigration.Proofs.Formula.Bounds
import DaxMigration.Proofs.Formula.Grouping
import DaxMigration.Proofs.Dax.Checks
import DaxMigration.Proofs.Dax.DivisionLoop
import DaxMigration.Proofs.Dax.CheckedSplice
import DaxMigration.Proofs.Dax.Safety
import DaxMigration.Proofs.Dax.Recovered
import DaxMigration.Proofs.Dax.Constructs
import DaxMigration.Proofs.Dax.Counting
import DaxMigration.Proofs.Formula.Laminar
import DaxMigration.Proofs.Dax.Exhaustive
import DaxMigration.Proofs.Migration.Batch
import DaxMigration.Proofs.Migration.Reuse
import DaxMigration.Proofs.Migration.LiveLines
import DaxMigration.Proofs.Migration.Directories
import DaxMigration.Proofs.CommandLine.Exit
import DaxMigration.Proofs.Migration.Ledger
import DaxMigration.Proofs.Workbook.Agreement
import DaxMigration.Proofs.Dax.AnyCase
import DaxMigration.Proofs.Dax.Depth
import DaxMigration.Proofs.Xml.Spelling
import DaxMigration.Proofs.Migration.Closing
import DaxMigration.Proofs.Catalogue.Nearest
import DaxMigration.Proofs.Catalogue.Filled
import DaxMigration.Proofs.Formula.Numerals
import DaxMigration.Proofs.Dax.Distributing
import DaxMigration.Proofs.Dax.Quoting
import DaxMigration.Proofs.Formula.Splitting
import DaxMigration.Proofs.Dax.Divisionless
import DaxMigration.Proofs.Dax.Recounting
import DaxMigration.Proofs.Xml.Searching
import DaxMigration.Proofs.Dax.Tables
import DaxMigration.Proofs.Dax.Outside
import DaxMigration.Proofs.Dax.Names
import DaxMigration.Proofs.Dax.Matched
import DaxMigration.Proofs.Dax.SecondPass
import DaxMigration.Proofs.Dax.Comments
