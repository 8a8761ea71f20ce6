import DaxMigration.Text.Numeral
import DaxMigration.Text.Quoted

/-!
# References

A table name stands for itself when it is a plain word and in single quotes otherwise; a column is
written in square brackets after its table.
-/

namespace DaxMigration.Dax

open Text

/-- What a conversion is aimed at: the functions there are, the table that bare fields belong to,
and the column that rows are ordered by. -/
structure Target where
  /-- The function to call in place of one with this name in upper case. -/
  function? : List Char → Option (List Char)
  table : List Char
  orderColumn : List Char

def isPlainName (name : List Char) : Bool :=
  (name.head?.any fun c => isAlphabetic c || c == '_') &&
    name.all fun c => isAlphanumeric c || c == '_'

def tableRef (name : List Char) : List Char :=
  if isPlainName name then name else '\'' :: double '\'' name ++ ['\'']

def bracketed (name : List Char) : List Char :=
  '[' :: double ']' name ++ [']']

namespace Target

def tableText (t : Target) : List Char :=
  tableRef t.table

def column (t : Target) (name : List Char) : List Char :=
  t.tableText ++ bracketed name

def orderText (t : Target) : List Char :=
  t.column t.orderColumn

end Target

end DaxMigration.Dax
