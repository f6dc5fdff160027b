import ChainExtract.Export.Sink
import ChainExtract.Proofs.Export.Files
import ChainExtract.Proofs.Numerals
import Mathlib.Data.List.Induction

/-! # The artifacts of a block

What sinks make of the records that they receive while a block is processed: a file of
lines, one of events, and one for each table, under names that tell the block. A file
stands for one artifact of one block only.
-/

namespace ChainExtract

/-- What is made for a block: by a sink for lines, by one for events, or for a table. -/
inductive Artifact where
  | log
  | events
  | table (name : String)
deriving DecidableEq, Repr

namespace Record

/-- The texts of the lines among records. -/
def lines (records : List Record) : List String :=
  records.filterMap fun
    | .line text => some text
    | _ => none

def events (records : List Record) : List XesRecord :=
  records.filterMap fun
    | .event record => some record
    | _ => none

/-- The rows of a table among records. -/
def rows (records : List Record) (table : String) : List CsvRow :=
  records.filterMap fun
    | .row name cells => if name = table then some cells else none
    | _ => none

/-- The tables that rows among records are for. -/
def tables (records : List Record) : List String :=
  records.filterMap fun
    | .row name _ => some name
    | _ => none

theorem rows_cons_row (name table : String) (cells : CsvRow) (records : List Record) :
    rows (.row name cells :: records) table =
      if name = table then cells :: rows records table else rows records table := by
  by_cases hname : name = table <;> simp [rows, hname]

end Record

namespace Artifact

theorem exists_iff {P : Artifact → Prop} :
    (∃ artifact, P artifact) ↔ P log ∨ P events ∨ ∃ name, P (table name) := by
  constructor
  · rintro ⟨_ | _ | name, h⟩
    · exact Or.inl h
    · exact Or.inr (Or.inl h)
    · exact Or.inr (Or.inr ⟨name, h⟩)
  · rintro (h | h | ⟨name, h⟩)
    · exact ⟨_, h⟩
    · exact ⟨_, h⟩
    · exact ⟨_, h⟩

/-- The file of an artifact of a block. -/
def file (artifact : Artifact) (number : Int) : String :=
  match artifact with
  | log => (Extent.block number).stem ++ ".log"
  | events => (Extent.block number).stem ++ ".xes"
  | table name => Buffer.tableFile name (.block number)

/-- The file name in front of the number of the block. -/
def front : Artifact → List Char
  | log | events => ['b', 'l', 'o', 'c', 'k']
  | table name => name.toList ++ ['_', 'b', 'l', 'o', 'c', 'k']

def extension : Artifact → List Char
  | log => ['.', 'l', 'o', 'g']
  | events => ['.', 'x', 'e', 's']
  | table _ => ['.', 'c', 's', 'v']

theorem toList_file (artifact : Artifact) (number : Int) :
    (artifact.file number).toList =
      artifact.front ++ '_' :: (Numeral.decimal number).toList ++ artifact.extension := by
  cases artifact <;> simp [file, front, extension, Extent.stem, Buffer.tableFile]

/-- The name of a file tells the artifact and the block. -/
theorem file_inj {artifact other : Artifact} {number place : Int} :
    artifact.file number = other.file place ↔ artifact = other ∧ number = place := by
  refine ⟨fun hsame => ?_, by rintro ⟨rfl, rfl⟩; rfl⟩
  have hlists := congrArg String.toList hsame
  rw [toList_file, toList_file] at hlists
  have hlength : artifact.extension.length = other.extension.length := by
    cases artifact <;> cases other <;> rfl
  obtain ⟨hnames, hextension⟩ := List.append_inj' hlists hlength
  have hmark (n : Int) : '_' ∉ (Numeral.decimal n).toList :=
    Numeral.notMem_decimal (by decide) (by decide) n
  obtain ⟨hfront, hnumber⟩ :=
    Numeral.append_mark_inj (hmark number) (hmark place) hnames
  refine ⟨?_, Numeral.decimal_injective (String.toList_inj.mp hnumber)⟩
  cases artifact <;> cases other <;> simp_all [front, extension, String.toList_inj]

theorem mark_mem_file (artifact : Artifact) (number : Int) :
    '_' ∈ (artifact.file number).toList := by
  simp [toList_file]

theorem file_ne {name : String} (hname : '_' ∉ name.toList) (artifact : Artifact) (number : Int) :
    artifact.file number ≠ name := by
  rintro rfl
  exact hname (mark_mem_file artifact number)

/-- The file of an artifact lies directly in the folder if the table has no slash in its name. -/
theorem plain_file {artifact : Artifact} (hslash : '/' ∉ artifact.front) (number : Int) :
    Folder.Plain (artifact.file number) where
  slash := by
    have hnumber : '/' ∉ (Numeral.decimal number).toList :=
      Numeral.notMem_decimal (by decide) (by decide) number
    have hextension : '/' ∉ artifact.extension := by cases artifact <;> simp [extension]
    simp [toList_file, hslash, hnumber, hextension]
  ne_empty := file_ne (by decide) artifact number
  ne_here := file_ne (by decide) artifact number
  ne_above := file_ne (by decide) artifact number

end Artifact

/-- A text that is made of something, unless there is nothing. -/
def unlessEmpty {α : Type} (items : List α) (text : String) : Option String :=
  if items.isEmpty then none else some text

/-- What a sink with an empty buffer of this kind makes of records for an artifact: nothing,
if none of the records is for it. -/
def Buffer.contents (records : List Record) : Buffer → Artifact → Option String
  | lines _, .log =>
    unlessEmpty (Record.lines records) ("\n".intercalate (Record.lines records) ++ "\n")
  | xes _, .events =>
    unlessEmpty (Record.events records) ((Record.events records).foldl XesLog.add []).render
  | csv delimiter _, .table name =>
    unlessEmpty (Record.rows records name)
      (((Record.rows records name).foldl CsvTable.addRow {}).render delimiter)
  | _, _ => none

/-- What an artifact holds that several sinks made of the same records. The last one that makes
it decides. -/
def Artifact.contents (sinks : List Sink) (records : List Record) (artifact : Artifact) :
    Option String :=
  sinks.reverse.findSome? fun sink => sink.buffer.contents records artifact

namespace Buffer

theorem foldl_add_lines (records : List Record) (collected : List String) :
    records.foldl add (lines collected) = lines (collected ++ Record.lines records) := by
  induction records generalizing collected with
  | nil => simp [Record.lines]
  | cons record records ih => cases record <;> simp [add, ih, Record.lines]

theorem foldl_add_xes (records : List Record) (log : XesLog) :
    records.foldl add (xes log) = xes ((Record.events records).foldl XesLog.add log) := by
  induction records generalizing log with
  | nil => simp [Record.events]
  | cons record records ih => cases record <;> simp [add, ih, Record.events]

/-- The table of a name consists of the rows that were given for it. -/
theorem foldl_add_csv (delimiter : Char) (records : List Record) (tables : Keyed String CsvTable)
    (hnodup : tables.keys.Nodup) :
    ∃ after : Keyed String CsvTable,
      records.foldl add (csv delimiter tables) = csv delimiter after ∧ after.keys.Nodup ∧
      ∀ name, after.get? name = (Record.rows records name).foldl
        (fun table? cells => some ((table?.getD {}).addRow cells)) (tables.get? name) := by
  induction records generalizing tables with
  | nil => exact ⟨tables, rfl, hnodup, fun _ => rfl⟩
  | cons record records ih =>
      cases record with
      | line text | event record => exact ih tables hnodup
      | row table cells =>
          obtain ⟨after, hadd, hafter, hget⟩ := ih _ (Keyed.nodup_keys_update hnodup table _)
          refine ⟨after, hadd, hafter, fun name => ?_⟩
          rw [hget name, Record.rows_cons_row]
          by_cases hname : table = name
          · subst hname
            simp [Keyed.get?_update_self]
          · rw [Keyed.get?_update_of_ne _ hname, if_neg hname]

theorem foldl_some_addRow (rows : List CsvRow) (table : CsvTable) :
    rows.foldl (fun table? cells => some ((table?.getD {}).addRow cells)) (some table) =
      some (rows.foldl CsvTable.addRow table) := by
  induction rows generalizing table with
  | nil => rfl
  | cons cells rows ih => exact ih _

end Buffer

theorem XesLog.add_ne_nil (log : XesLog) (record : XesRecord) : log.add record ≠ [] := by
  cases log with
  | nil => simp [XesLog.add, Keyed.update]
  | cons trace rest =>
      unfold XesLog.add Keyed.update
      split <;> simp

theorem XesLog.foldl_add_eq_nil {records : List XesRecord} :
    records.foldl XesLog.add [] = [] ↔ records = [] := by
  cases records using List.reverseRecOn with
  | nil => simp
  | append_singleton records record => simp [XesLog.add_ne_nil]

namespace Buffer

/-- The files that a sink makes of records are the artifacts that they give something for. -/
theorem mem_files_iff (records : List Record) (buffer : Buffer) (number : Int)
    (path text : String) :
    (path, text) ∈ (records.foldl add buffer.cleared).files (.block number) ↔
      ∃ artifact : Artifact, path = artifact.file number ∧
        buffer.contents records artifact = some text := by
  rw [Artifact.exists_iff]
  cases buffer with
  | lines collected =>
      rw [cleared, foldl_add_lines, List.nil_append]
      cases hlines : Record.lines records <;>
        simp [files, contents, unlessEmpty, hlines, Artifact.file, @eq_comm _ text]
  | xes log =>
      rw [cleared, foldl_add_xes]
      cases hlog : (Record.events records).foldl XesLog.add [] with
      | nil => simp [files, contents, unlessEmpty, XesLog.foldl_add_eq_nil.mp hlog]
      | cons trace rest =>
          have hevents : Record.events records ≠ [] := by
            intro hnil
            simp [hnil] at hlog
          simp [files, contents, unlessEmpty, hlog, hevents, Artifact.file, @eq_comm _ text]
  | csv delimiter tables =>
      obtain ⟨after, hadd, hnodup, hget⟩ := foldl_add_csv delimiter records [] List.nodup_nil
      have htable (name : String) : contents records (csv delimiter tables) (.table name) =
          (after.get? name).map (·.render delimiter) := by
        rw [hget name]
        cases hrows : Record.rows records name with
        | nil => simp [contents, unlessEmpty, hrows, Keyed.get?]
        | cons cells rows =>
            simp [contents, unlessEmpty, hrows, Keyed.get?, foldl_some_addRow]
      simp only [htable, Option.map_eq_some_iff, ← Keyed.mem_iff_get? hnodup]
      rw [cleared, hadd, files, List.mem_map]
      simp only [contents, Artifact.file, reduceCtorEq, and_false, false_or]
      constructor
      · rintro ⟨⟨name, table⟩, hmem, hfile⟩
        obtain ⟨rfl, rfl⟩ := Prod.mk.inj hfile
        exact ⟨name, rfl, table, hmem, rfl⟩
      · rintro ⟨name, rfl, table, hmem, rfl⟩
        exact ⟨(name, table), hmem, rfl⟩

/-- The artifact of a block holds what a sink makes of the records for it; the artifacts of
other blocks are not touched. -/
theorem lastContents_files (records : List Record) (buffer : Buffer) (number place : Int)
    (artifact : Artifact) :
    Folder.lastContents ((records.foldl add buffer.cleared).files (.block number))
        (artifact.file place) =
      if number = place then buffer.contents records artifact else none := by
  cases hlast : Folder.lastContents ((records.foldl add buffer.cleared).files (.block number))
      (artifact.file place) with
  | some text =>
      obtain ⟨other, hfile, hcontents⟩ :=
        (mem_files_iff records buffer number _ text).mp (Folder.mem_of_lastContents hlast)
      obtain ⟨rfl, rfl⟩ := Artifact.file_inj.mp hfile
      simp [hcontents]
  | none =>
      split
      next hnumber =>
        subst hnumber
        refine (Option.eq_none_iff_forall_ne_some.mpr fun text hcontents => ?_).symm
        exact Folder.lastContents_ne_none
          ((mem_files_iff records buffer number _ text).mpr ⟨artifact, rfl, hcontents⟩) hlast
      next => rfl

@[simp] theorem cleared_add (buffer : Buffer) (record : Record) :
    (buffer.add record).cleared = buffer.cleared := by
  cases buffer <;> cases record <;> rfl

theorem cleared_foldl_add (records : List Record) (buffer : Buffer) :
    (records.foldl add buffer).cleared = buffer.cleared := by
  induction records generalizing buffer with
  | nil => rfl
  | cons record records ih => rw [List.foldl_cons, ih, cleared_add]

/-- A table gets a file only if it was given a row. -/
theorem mem_tables_of_contents {records : List Record} {buffer : Buffer} {name text : String}
    (hcontents : buffer.contents records (.table name) = some text) :
    name ∈ Record.tables records := by
  cases buffer with
  | lines | xes => cases hcontents
  | csv delimiter tables =>
      cases hrows : Record.rows records name with
      | nil => simp [contents, unlessEmpty, hrows] at hcontents
      | cons cells rows =>
          have hcells : cells ∈ Record.rows records name := by simp [hrows]
          obtain ⟨record, hrecord, hrow⟩ := List.mem_filterMap.mp hcells
          refine List.mem_filterMap.mpr ⟨record, hrecord, ?_⟩
          cases record with
          | row table cells =>
              simp only [Option.ite_none_right_eq_some] at hrow
              rw [hrow.1]
          | line | event => cases hrow

end Buffer

namespace Sink

/-- A sink that makes files after every block and has collected nothing. -/
structure Idle (sink : Sink) : Prop where
  streaming : sink.mode = .streaming
  empty : sink.buffer.cleared = sink.buffer

variable {sinks : List Sink}

theorem foldl_add (records : List Record) (sink : Sink) :
    records.foldl add sink = { sink with buffer := records.foldl Buffer.add sink.buffer } := by
  induction records generalizing sink with
  | nil => rfl
  | cons record records ih => exact ih _

theorem Idle.finish {sink : Sink} (hidle : sink.Idle) (records : List Record) (number : Int) :
    (records.foldl add sink).finish (.block number) =
      ((records.foldl Buffer.add sink.buffer.cleared).files (.block number), sink) := by
  have hdue : (records.foldl add sink).isDue (.block number) = true := by
    simp [foldl_add, isDue, hidle.streaming]
  rw [Sink.finish, if_pos hdue, foldl_add, Buffer.cleared_foldl_add, hidle.empty]

/-- Idle sinks are idle again when a block has ended, whatever they received. -/
theorem finishAll_idle (hidle : ∀ sink ∈ sinks, sink.Idle) (records : List Record) (number : Int) :
    (finishAll (sinks.map fun sink => records.foldl add sink) (.block number)).2 = sinks := by
  rw [finishAll, List.map_map]
  conv_rhs => rw [← List.map_id sinks]
  exact List.map_congr_left fun sink hsink => by simp [(hidle sink hsink).finish]

/-- The files that idle sinks make of the records of a block are its artifacts. -/
theorem lastContents_finishAll (hidle : ∀ sink ∈ sinks, sink.Idle) (records : List Record)
    (number place : Int) (artifact : Artifact) :
    Folder.lastContents
        (finishAll (sinks.map fun sink => records.foldl add sink) (.block number)).1
        (artifact.file place) =
      if number = place then artifact.contents sinks records else none := by
  rw [finishAll, List.flatMap_map, Folder.lastContents_flatMap, Artifact.contents]
  have hsink : ∀ sink ∈ sinks.reverse,
      Folder.lastContents ((records.foldl add sink).finish (.block number)).1
        (artifact.file place) =
      if number = place then sink.buffer.contents records artifact else none := by
    intro sink hsink
    rw [(hidle sink (List.mem_reverse.mp hsink)).finish, Buffer.lastContents_files]
  generalize sinks.reverse = sinks at hsink
  induction sinks with
  | nil => simp
  | cons sink sinks ih =>
      obtain ⟨hfirst, hrest⟩ := List.forall_mem_cons.mp hsink
      rw [List.findSome?_cons, hfirst, ih hrest, List.findSome?_cons]
      by_cases hnumber : number = place <;> simp [hnumber]

/-- The artifacts lie directly in the folder if no table has a slash in its name. -/
theorem plain_finishAll (hidle : ∀ sink ∈ sinks, sink.Idle) {records : List Record}
    (htables : ∀ name ∈ Record.tables records, '/' ∉ name.toList) (number : Int) :
    ∀ file ∈ (finishAll (sinks.map fun sink => records.foldl add sink) (.block number)).1,
      Folder.Plain file.1 := by
  rintro ⟨path, text⟩ hfile
  rw [finishAll, List.flatMap_map, List.mem_flatMap] at hfile
  obtain ⟨sink, hsink, hfile⟩ := hfile
  rw [(hidle sink hsink).finish, Buffer.mem_files_iff] at hfile
  obtain ⟨artifact, rfl, hcontents⟩ := hfile
  refine Artifact.plain_file ?_ number
  cases artifact with
  | log | events => simp [Artifact.front]
  | table name =>
      simp [Artifact.front, htables name (Buffer.mem_tables_of_contents hcontents)]

end Sink

end ChainExtract
