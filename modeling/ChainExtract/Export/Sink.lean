import ChainExtract.Export.Csv
import ChainExtract.Export.Folder
import ChainExtract.Export.Xes

/-!
# Sinks

A sink collects the records of its format and turns them into files, either
after every block or once at the end of the run. It ignores records of other
formats, and collecting starts anew whenever files have been made.
-/

namespace ChainExtract

/-- When a sink makes files. -/
inductive SinkMode where
  /-- Once, at the end of the run. -/
  | batch
  /-- After every block. -/
  | streaming
deriving DecidableEq, Repr

/-- What a set of files covers. -/
inductive Extent where
  | block (number : Int)
  | allBlocks
deriving DecidableEq, Repr

/-- The part of a file name that tells what the file covers. -/
def Extent.stem : Extent → String
  | block number => "block_" ++ Numeral.decimal number
  | allBlocks => "all_blocks"

/-- Something to be exported. -/
inductive Record where
  | row (table : String) (cells : CsvRow)
  | line (text : String)
  | event (record : XesRecord)

/-- The records that a sink has collected. -/
inductive Buffer where
  | csv (delimiter : Char) (tables : Keyed String CsvTable)
  | lines (lines : List String)
  | xes (log : XesLog)

namespace Buffer

/-- Collects a record. -/
def add : Buffer → Record → Buffer
  | csv delimiter tables, .row table cells =>
    csv delimiter (tables.update table fun table? => (table?.getD {}).addRow cells)
  | lines collected, .line text => lines (collected ++ [text])
  | xes log, .event record => xes (log.add record)
  | buffer, _ => buffer

/-- The buffer without records. -/
def cleared : Buffer → Buffer
  | csv delimiter _ => csv delimiter []
  | lines _ => lines []
  | xes _ => xes []

/-- The name of the file of a table. -/
def tableFile (table : String) : Extent → String
  | .allBlocks => table ++ ".csv"
  | extent => table ++ "_" ++ extent.stem ++ ".csv"

/-- The files made of the collected records: names and contents. Without
records there are none. -/
def files (extent : Extent) : Buffer → List (String × String)
  | csv delimiter tables =>
    tables.map fun (name, table) => (tableFile name extent, table.render delimiter)
  | lines [] => []
  | lines collected => [(extent.stem ++ ".log", "\n".intercalate collected ++ "\n")]
  | xes [] => []
  | xes log => [(extent.stem ++ ".xes", log.render)]

end Buffer

/-- A sink: when it makes files, and what it has collected. -/
structure Sink where
  mode : SinkMode
  buffer : Buffer

namespace Sink

/-- Collects a record. -/
def add (sink : Sink) (record : Record) : Sink :=
  { sink with buffer := sink.buffer.add record }

/-- Whether the sink makes files when the given extent ends. -/
def isDue (sink : Sink) : Extent → Bool
  | .block _ => sink.mode == .streaming
  | .allBlocks => sink.mode == .batch

/-- Ends a block or the run: the files to be written, and the sink after them. -/
def finish (sink : Sink) (extent : Extent) : List (String × String) × Sink :=
  if sink.isDue extent then
    (sink.buffer.files extent, { sink with buffer := sink.buffer.cleared })
  else ([], sink)

/-- Ends a block or the run for several sinks: the files of each, in order. -/
def finishAll (sinks : List Sink) (extent : Extent) : List (String × String) × List Sink :=
  (sinks.flatMap fun sink => (sink.finish extent).1, sinks.map fun sink => (sink.finish extent).2)

end Sink

end ChainExtract
