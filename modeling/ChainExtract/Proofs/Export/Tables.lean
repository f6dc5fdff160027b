import ChainExtract.Export.Csv
import ChainExtract.Proofs.Grouping

/-! # Reading tables

A reader of separated values after RFC 4180 with a delimiter of its own, and what it finds in
a written table: the columns of all rows, and the cells that each row gives for them. A field
stands between delimiters and line breaks, or in quotes that keep these characters.
-/

namespace ChainExtract

/-- Where a reader stands in a record. -/
inductive CsvPlace where
  /-- In front of a field. -/
  | front
  /-- In a field without quotes. -/
  | bare
  /-- Between the quotes of a field. -/
  | quoted
  /-- Behind a quote in a quoted field, which ends the field unless another one follows. -/
  | closing
  /-- Behind a carriage return, which only stands in front of a line feed. -/
  | returned
deriving DecidableEq, Repr

/-- A reader: its place, and the field, the record and the table that it has read so far. -/
structure CsvReader where
  place : CsvPlace := .front
  field : List Char := []
  fields : List String := []
  records : List (List String) := []
deriving DecidableEq, Repr

namespace CsvReader

/-- Takes a character into the field. -/
def take (reader : CsvReader) (place : CsvPlace) (c : Char) : CsvReader :=
  { reader with place, field := reader.field ++ [c] }

def endField (reader : CsvReader) : CsvReader :=
  { records := reader.records, fields := reader.fields ++ [String.ofList reader.field] }

def endRecord (reader : CsvReader) : CsvReader :=
  { records := reader.records ++ [reader.endField.fields] }

/-- Ends the field at a character that separates fields or records. A line feed ends a record
with a carriage return in front of it or without. -/
def separate (delimiter : Char) (reader : CsvReader) (c : Char) : Option CsvReader :=
  if c = delimiter then some reader.endField
  else if c = '\n' then some reader.endRecord
  else if c = '\r' then some { reader with place := .returned }
  else none

/-- Reads a character, if it may stand where the reader is. -/
def step (delimiter : Char) (reader : CsvReader) (c : Char) : Option CsvReader :=
  match reader.place with
  | .front =>
    if c = '"' then some { reader with place := .quoted }
    else (reader.separate delimiter c).or (some (reader.take .bare c))
  | .bare =>
    if c = '"' then none
    else (reader.separate delimiter c).or (some (reader.take .bare c))
  | .quoted =>
    if c = '"' then some { reader with place := .closing } else some (reader.take .quoted c)
  | .closing => if c = '"' then some (reader.take .quoted c) else reader.separate delimiter c
  | .returned => if c = '\n' then some reader.endRecord else none

/-- What was read when the text has ended. The last record may go without a line break. -/
def finish (reader : CsvReader) : Option (List (List String)) :=
  match reader.place with
  | .front => some (if reader.fields = [] then reader.records else reader.endRecord.records)
  | .bare | .closing => some reader.endRecord.records
  | .quoted | .returned => none

/-- The records of a text, if it is one of separated values. -/
def read (delimiter : Char) (text : String) : Option (List (List String)) :=
  (text.toList.foldlM (step delimiter) {}).bind finish

end CsvReader

namespace CsvTable

/-- The columns of rows, in the order in which they were first seen. -/
def header (rows : List CsvRow) : List String := (rows.flatten.map (·.1)).eraseDups

theorem header_ne_nil {rows : List CsvRow} (hcolumns : ∃ row ∈ rows, row ≠ []) :
    header rows ≠ [] := by
  obtain ⟨row, hrow, hcells⟩ := hcolumns
  obtain ⟨cell, hcell⟩ := List.exists_mem_of_ne_nil row hcells
  have hheader : cell.1 ∈ header rows :=
    List.mem_eraseDups.mpr (List.mem_map_of_mem (List.mem_flatten_of_mem hrow hcell))
  exact List.ne_nil_of_mem hheader

/-- The last text that a row gives for a column, and nothing if it gives none. -/
def lastText (row : CsvRow) (column : String) : String :=
  ((row.filter (·.1 = column)).getLast?.map (·.2)).getD ""

theorem cell_eq_lastText (row : CsvRow) (column : String) :
    cell row column = lastText row column := by
  rw [cell, lastText, List.getLast?_eq_head?_reverse, ← List.filter_reverse, List.head?_filter]
  simp only [← Bool.beq_eq_decide_eq]
  cases row.reverse.find? (·.1 == column) <;> rfl

theorem extendColumns_eraseDups (columns : List String) (row : CsvRow) :
    extendColumns columns.eraseDups row = (columns ++ row.map (·.1)).eraseDups := by
  unfold extendColumns
  induction row generalizing columns with
  | nil => simp
  | cons entry row ih =>
      rw [List.foldl_cons, ← List.eraseDups_concat, ih, List.map_cons, List.append_assoc]
      rfl

/-- A table holds the rows that were added and the columns that they have together. -/
theorem foldl_addRow (rows : List CsvRow) :
    rows.foldl addRow {} = ⟨header rows, rows⟩ := by
  induction rows using List.reverseRecOn with
  | nil => rfl
  | append_singleton rows row ih =>
      rw [List.foldl_append, ih, List.foldl_cons, List.foldl_nil, addRow, header,
        extendColumns_eraseDups]
      simp [header]

end CsvTable

namespace CsvReader

open CsvTable (needsQuotes doubled quote header lastText)

variable {delimiter : Char}

/-- A field without special characters is read as it stands. -/
theorem foldlM_bare {field : List Char} (hbare : ∀ c ∈ field, needsQuotes delimiter c = false)
    {reader : CsvReader} (hplace : reader.place = .front ∨ reader.place = .bare) :
    field.foldlM (step delimiter) reader =
      some { reader with
        place := if field = [] then reader.place else .bare
        field := reader.field ++ field } := by
  induction field generalizing reader with
  | nil => simp
  | cons c field ih =>
      obtain ⟨hc, hfield⟩ := List.forall_mem_cons.mp hbare
      have hstep : step delimiter reader c = some (reader.take .bare c) := by
        simp only [needsQuotes, Bool.or_eq_false_iff, beq_eq_false_iff_ne] at hc
        obtain ⟨⟨⟨hdelimiter, hquote⟩, hfeed⟩, hreturn⟩ := hc
        rcases hplace with hplace | hplace <;>
          simp [step, separate, hplace, hdelimiter, hquote, hfeed, hreturn]
      rw [List.foldlM_cons, hstep]
      refine (ih hfield (Or.inr rfl)).trans ?_
      by_cases hempty : field = [] <;> simp [take, hempty]

/-- Between quotes every character is read as it was before quotes were written twice. -/
theorem foldlM_doubled (field : List Char) {reader : CsvReader} (hplace : reader.place = .quoted) :
    (doubled field).foldlM (step delimiter) reader =
      some { reader with field := reader.field ++ field } := by
  induction field generalizing reader with
  | nil => simp [doubled]
  | cons c field ih =>
      have hstep : (if c = '"' then ['"', '"'] else [c]).foldlM (step delimiter) reader =
          some (reader.take .quoted c) := by
        by_cases hc : c = '"' <;> simp [step, hplace, hc, take]
      rw [doubled, List.flatMap_cons, List.foldlM_append, hstep]
      refine (ih rfl).trans ?_
      simp [take, hplace]

/-- The written form of a field is read as the field, and nothing of the field is missing. -/
theorem foldlM_quote (delimiter : Char) (field : List Char) (fields : List String)
    (records : List (List String)) :
    ∃ place, (place ≠ .quoted ∧ place ≠ .returned) ∧
      (quote delimiter field).foldlM (step delimiter) { fields, records } =
        some { place, field, fields, records } := by
  by_cases hquotes : field.any (needsQuotes delimiter) = true
  · refine ⟨.closing, by decide, ?_⟩
    have hopen : step delimiter { fields, records } '"' =
        some { place := .quoted, fields, records } := by simp [step]
    rw [quote, if_pos hquotes, List.cons_append, List.foldlM_cons, hopen]
    simp only [Option.bind_eq_bind, Option.bind_some, List.foldlM_append]
    rw [foldlM_doubled field rfl]
    simp [step]
  · refine ⟨if field = [] then .front else .bare, by split <;> decide, ?_⟩
    have hbare : ∀ c ∈ field, needsQuotes delimiter c = false := by simpa using hquotes
    rw [quote, if_neg hquotes, foldlM_bare hbare (Or.inl rfl)]
    rfl

/-- A field that is complete ends at a delimiter and at a line break. -/
theorem step_eq_separate {reader : CsvReader}
    (hplace : reader.place ≠ .quoted ∧ reader.place ≠ .returned) {c : Char} (hquote : c ≠ '"')
    (hc : c = delimiter ∨ c = '\n') : step delimiter reader c = reader.separate delimiter c := by
  have hseparate : (reader.separate delimiter c).isSome = true := by
    rcases hc with rfl | rfl
    · simp [separate]
    · rw [separate]
      split <;> rfl
  obtain ⟨after, hafter⟩ := Option.isSome_iff_exists.mp hseparate
  unfold step
  cases hreader : reader.place with
  | front | bare | closing => simp [hquote, hafter]
  | quoted => exact absurd hreader hplace.1
  | returned => exact absurd hreader hplace.2

/-- The written form of a record is read as its fields. -/
theorem foldlM_record (hquote : delimiter ≠ '"') (hfeed : delimiter ≠ '\n') (field : List Char)
    (rest : List (List Char)) (fields : List String) (records : List (List String)) :
    (CsvTable.record delimiter (field :: rest)).foldlM (step delimiter) { fields, records } =
      some { records := records ++ [fields ++ (field :: rest).map String.ofList] } := by
  induction rest generalizing field fields with
  | nil =>
      obtain ⟨place, hplace, hfield⟩ := foldlM_quote delimiter field fields records
      have hline : step delimiter { place, field, fields, records } '\n' =
          some { records := records ++ [fields ++ [String.ofList field]] } := by
        rw [step_eq_separate hplace (by decide) (Or.inr rfl), separate, if_neg hfeed.symm]
        rfl
      simp [CsvTable.record, hfield, hline]
  | cons next rest ih =>
      obtain ⟨place, hplace, hfield⟩ := foldlM_quote delimiter field fields records
      have hmark : step delimiter { place, field, fields, records } delimiter =
          some { fields := fields ++ [String.ofList field], records } := by
        rw [step_eq_separate hplace hquote (Or.inl rfl), separate, if_pos rfl]
        rfl
      have hsplit : CsvTable.record delimiter (field :: next :: rest) =
          quote delimiter field ++ delimiter :: CsvTable.record delimiter (next :: rest) := by
        simp [CsvTable.record, List.intercalate_cons_cons]
      rw [hsplit, List.foldlM_append, hfield]
      simp only [Option.bind_eq_bind, Option.bind_some, List.foldlM_cons, hmark, ih]
      simp

theorem foldlM_records (hquote : delimiter ≠ '"') (hfeed : delimiter ≠ '\n')
    {table : List (List String)} (htable : ∀ fields ∈ table, fields ≠ [])
    (records : List (List String)) :
    (table.flatMap fun fields => CsvTable.record delimiter (fields.map String.toList)).foldlM
        (step delimiter) { records } =
      some { records := records ++ table } := by
  induction table generalizing records with
  | nil => simp
  | cons fields table ih =>
      obtain ⟨hfields, hrest⟩ := List.forall_mem_cons.mp htable
      obtain ⟨field, rest, rfl⟩ := List.exists_cons_of_ne_nil hfields
      rw [List.flatMap_cons, List.foldlM_append, List.map_cons, foldlM_record hquote hfeed]
      refine (ih hrest _).trans ?_
      simp [Function.comp_def]

/-- A table is read back as it was written: first the columns of all rows in the order in which
they were first seen, and then a record for each row with the last text that it gives for each of
them. -/
theorem read_render (hquote : delimiter ≠ '"') (hfeed : delimiter ≠ '\n') {rows : List CsvRow}
    (hcolumns : ∃ row ∈ rows, row ≠ []) :
    read delimiter ((rows.foldl CsvTable.addRow {}).render delimiter) =
      some (header rows :: rows.map fun row => (header rows).map (lastText row)) := by
  have hheader : header rows ≠ [] := CsvTable.header_ne_nil hcolumns
  have hrecords : ∀ fields ∈ header rows :: rows.map fun row => (header rows).map (lastText row),
      fields ≠ [] := by simp [hheader]
  have hcell : CsvTable.cell = lastText :=
    funext fun row => funext (CsvTable.cell_eq_lastText row)
  rw [read, CsvTable.foldl_addRow, CsvTable.render, String.toList_ofList, CsvTable.records]
  simp only [hcell]
  rw [foldlM_records hquote hfeed hrecords]
  rfl

/-- Rows with special characters in columns and cells. One gives two texts for a column, one has
a column of its own, and one has no cells. -/
def awkwardRows : List CsvRow :=
  [[("a;b", "two\nlines"), ("say \"hi\"", "\"")],
    [("late\r", ";"), ("a;b", "first"), ("a;b", "last")],
    []]

theorem read_render_awkward :
    (';' ≠ '"' ∧ ';' ≠ '\n' ∧ ∃ row ∈ awkwardRows, row ≠ []) ∧
      read ';' ((awkwardRows.foldl CsvTable.addRow {}).render ';') =
        some [["a;b", "say \"hi\"", "late\r"], ["two\nlines", "\"", ""], ["last", "", ";"],
          ["", "", ""]] := by
  have hcolumns : ∃ row ∈ awkwardRows, row ≠ [] := by decide
  exact ⟨⟨by decide, by decide, hcolumns⟩, read_render (by decide) (by decide) hcolumns⟩

end CsvReader

end ChainExtract
