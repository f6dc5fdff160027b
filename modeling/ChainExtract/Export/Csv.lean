import ChainExtract.Keyed

/-!
# Tables of separated values

Each table has the columns of all its rows in the order in which they were
first seen. A field is put in quotes if it holds the delimiter, a quote or a
line break, and a quote inside such a field is written twice.
-/

namespace ChainExtract

/-- A row: its cells by column. -/
abbrev CsvRow := List (String × String)

/-- The rows of a table with the columns that they have together. -/
structure CsvTable where
  columns : List String := []
  rows : List CsvRow := []
deriving DecidableEq, Repr

namespace CsvTable

/-- The columns, with those of a row that are new behind them. -/
def extendColumns (columns : List String) (row : CsvRow) : List String :=
  row.foldl (fun columns cell =>
    if cell.1 ∈ columns then columns else columns ++ [cell.1]) columns

/-- Adds a row behind the others. -/
def addRow (table : CsvTable) (row : CsvRow) : CsvTable :=
  ⟨extendColumns table.columns row, table.rows ++ [row]⟩

/-- The text that a row gives for a column: the last one if it gives several,
and nothing if it gives none. -/
def cell (row : CsvRow) (column : String) : String :=
  match row.reverse.find? (·.1 == column) with
  | some entry => entry.2
  | none => ""

/-- Whether a character makes quotes around its field necessary. -/
def needsQuotes (delimiter c : Char) : Bool :=
  c == delimiter || c == '"' || c == '\n' || c == '\r'

/-- The characters between the quotes of a quoted field. -/
def doubled (field : List Char) : List Char :=
  field.flatMap fun c => if c = '"' then ['"', '"'] else [c]

/-- The written form of a field. -/
def quote (delimiter : Char) (field : List Char) : List Char :=
  if field.any (needsQuotes delimiter) then '"' :: doubled field ++ ['"'] else field

/-- The written form of a record: its fields with delimiters between them, and
a line break. -/
def record (delimiter : Char) (fields : List (List Char)) : List Char :=
  [delimiter].intercalate (fields.map (quote delimiter)) ++ ['\n']

/-- The fields of the header and of all rows. -/
def records (table : CsvTable) : List (List String) :=
  table.columns :: table.rows.map fun row => table.columns.map (cell row)

/-- The text of a table. -/
def render (table : CsvTable) (delimiter : Char) : String :=
  String.ofList <| table.records.flatMap fun fields => record delimiter (fields.map String.toList)

end CsvTable

end ChainExtract
