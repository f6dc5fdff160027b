import ChainExtract.Proofs.Export.EventLogs
import ChainExtract.Proofs.Export.Places
import ChainExtract.Proofs.Export.Streaming
import ChainExtract.Proofs.Export.Tables
import ChainExtract.Proofs.Reporting.Throughout

/-! # Batch sinks

A batch sink gathers what exporters export throughout a run, whatever becomes of the items and
blocks that it was exported for. It makes no files before the instructions of the program have
ended, and then it makes them of everything that was exported.
-/

namespace ChainExtract

open Journal

variable {σ : Type}

namespace Record

/-- The rows among records, each with its table. -/
def tableRows (records : List Record) : List (String × CsvRow) :=
  records.filterMap fun
    | .row table cells => some (table, cells)
    | _ => none

theorem map_fst_tableRows (records : List Record) :
    (tableRows records).map (·.1) = tables records := by
  rw [tableRows, tables, List.map_filterMap]
  refine List.filterMap_congr fun record _ => ?_
  cases record <;> rfl

theorem filter_tableRows (records : List Record) (table : String) :
    ((tableRows records).filter (·.1 = table)).map (·.2) = rows records table := by
  induction records with
  | nil => rfl
  | cons record records ih =>
      cases record with
      | row name cells =>
          rw [rows_cons_row, ← ih]
          by_cases hname : name = table <;> simp [tableRows, hname]
      | line | event => exact ih

end Record

namespace Buffer

/-- The files that a sink with an empty buffer of this kind makes of the records of a run: names
and contents. -/
def rendering (records : List Record) : Buffer → List (String × String)
  | lines _ =>
    let texts := Record.lines records
    if texts = [] then [] else [("all_blocks.log", "\n".intercalate texts ++ "\n")]
  | csv delimiter _ =>
    (Record.tables records).eraseDups.map fun table =>
      let rows := Record.rows records table
      (table ++ ".csv", CsvTable.render ⟨CsvTable.header rows, rows⟩ delimiter)
  | xes _ =>
    let events := Record.events records
    if events = [] then [] else [("all_blocks.xes", (XesRecord.log events).render)]

theorem foldl_add_tableRows (delimiter : Char) (records : List Record)
    (tables : Keyed String CsvTable) :
    records.foldl add (csv delimiter tables) =
      csv delimiter ((Record.tableRows records).foldl (fun tables row =>
        tables.update row.1 fun table? => (table?.getD {}).addRow row.2) tables) := by
  induction records generalizing tables with
  | nil => rfl
  | cons record records ih => cases record <;> exact ih _

/-- The tables that rows make, in the order in which they were first named. -/
theorem foldl_tableRows (records : List Record) :
    (Record.tableRows records).foldl (fun (tables : Keyed String CsvTable) row =>
        tables.update row.1 fun table? => (table?.getD {}).addRow row.2) [] =
      (Record.tables records).eraseDups.map fun table =>
        (table, ⟨CsvTable.header (Record.rows records table), Record.rows records table⟩) := by
  refine (Keyed.foldl_update_getD (·.1) (fun table row => CsvTable.addRow table row.2) {}
    (Record.tableRows records)).trans ?_
  rw [Record.map_fst_tableRows]
  refine List.map_congr_left fun table _ => congrArg (table, ·) ?_
  rw [← Record.filter_tableRows, ← CsvTable.foldl_addRow, List.foldl_map]

/-- A sink with an empty buffer makes the rendering of the records that it has received. -/
theorem files_foldl_add {buffer : Buffer} (hempty : buffer.cleared = buffer)
    (records : List Record) :
    (records.foldl add buffer).files .allBlocks = rendering records buffer := by
  rw [← hempty]
  cases buffer with
  | lines collected =>
      rw [cleared, foldl_add_lines, List.nil_append]
      cases hlines : Record.lines records <;> simp [files, rendering, hlines, Extent.stem]
  | csv delimiter tables =>
      rw [cleared, foldl_add_tableRows, foldl_tableRows, files, rendering, List.map_map]
      rfl
  | xes log =>
      rw [cleared, foldl_add_xes, XesRecord.foldl_add]
      cases hevents : Record.events records with
      | nil => simp [files, rendering, hevents, XesRecord.log]
      | cons event events =>
          have hlog : XesRecord.log (event :: events) ≠ [] := by
            rw [← XesRecord.foldl_add]
            exact fun hnil => by simpa using XesLog.foldl_add_eq_nil.mp hnil
          obtain ⟨trace, rest, hlog⟩ := List.exists_cons_of_ne_nil hlog
          simp [files, rendering, hevents, hlog, Extent.stem]

end Buffer

theorem Buffer.exists_ending_of_mem_rendering {buffer : Buffer} {records : List Record}
    {name text : String} (hfile : (name, text) ∈ buffer.rendering records) :
    ∃ front ending : List Char, name = String.ofList (front ++ ending) ∧ '/' ∉ ending ∧
      ∀ other ∈ ["", ".", "..", errorLogName], ¬ ending <:+ other.toList := by
  cases buffer with
  | lines collected =>
      obtain ⟨-, rfl, -⟩ : Record.lines records ≠ [] ∧ name = "all_blocks.log" ∧ _ := by
        simpa [rendering] using hfile
      exact ⟨[], "all_blocks.log".toList, rfl, by decide, by decide⟩
  | xes log =>
      obtain ⟨-, rfl, -⟩ : Record.events records ≠ [] ∧ name = "all_blocks.xes" ∧ _ := by
        simpa [rendering] using hfile
      exact ⟨[], "all_blocks.xes".toList, rfl, by decide, by decide⟩
  | csv delimiter tables =>
      obtain ⟨table, -, hname⟩ := List.mem_map.mp hfile
      cases hname
      exact ⟨table.toList, ['.', 'c', 's', 'v'], by simp, by decide, by decide⟩

namespace Sink

variable {sink : Sink}

/-- A batch sink makes nothing of a block. -/
theorem finish_block (hbatch : sink.mode = .batch) (records : List Record) (number : Int) :
    (records.foldl add sink).finish (.block number) = ([], records.foldl add sink) := by
  simp [foldl_add, finish, isDue, hbatch]

/-- At the end of a run it makes the rendering of what it has received. -/
theorem finish_allBlocks (hbatch : sink.mode = .batch) (hempty : sink.buffer.cleared = sink.buffer)
    (records : List Record) :
    ((records.foldl add sink).finish .allBlocks).1 = sink.buffer.rendering records := by
  simp [foldl_add, finish, isDue, hbatch, Buffer.files_foldl_add hempty]

/-- When a sink makes files, and the buffer that it begins with after it has made them. -/
def kind (sink : Sink) : SinkMode × Buffer := (sink.mode, sink.buffer.cleared)

@[simp] theorem kind_add (sink : Sink) (record : Record) : (sink.add record).kind = sink.kind := by
  simp [kind, add]

@[simp] theorem kind_finish (sink : Sink) (extent : Extent) :
    (sink.finish extent).2.kind = sink.kind := by
  unfold finish
  split
  · cases hbuffer : sink.buffer <;> simp [kind, hbuffer, Buffer.cleared]
  · rfl

/-- A sink of this kind makes the file of some block, if it has received the right records. -/
def MakesOfBlock (sink : Sink) (file : String × String) : Prop :=
  ∃ maker : Sink, maker.kind = sink.kind ∧ ∃ number, file ∈ (maker.finish (.block number)).1

theorem MakesOfBlock.mode_ne_batch {file : String × String} (hfile : sink.MakesOfBlock file) :
    sink.mode ≠ .batch := by
  obtain ⟨maker, hkind, number, hmade⟩ := hfile
  have hmode : maker.mode = sink.mode := congrArg (·.1) hkind
  intro hbatch
  rw [finish, isDue, hmode, hbatch] at hmade
  simp at hmade

/-- The files of several sinks are those of each of them, between those before and behind it. -/
theorem finishAll_split {sinks : List Sink} {index : Nat} (hsink : sinks[index]? = some sink)
    (extent : Extent) :
    (finishAll sinks extent).1 =
      (finishAll (sinks.take index) extent).1 ++ (sink.finish extent).1 ++
        (finishAll (sinks.drop (index + 1)) extent).1 := by
  obtain ⟨hindex, rfl⟩ := List.getElem?_eq_some_iff.mp hsink
  have hsplit : sinks = sinks.take index ++ sinks[index] :: sinks.drop (index + 1) := by simp
  simp only [finishAll]
  conv_lhs => rw [hsplit, List.flatMap_append, List.flatMap_cons, ← List.append_assoc]

end Sink

namespace RunState

variable {settings : Settings σ} {index : Nat} {sink : Sink} {start state after : RunState σ}

/-- The sink at an index has received what was exported since the start, and still holds it. -/
def Gathered (index : Nat) (sink : Sink) (start state : RunState σ) : Prop :=
  ∃ entries, state.journal = entries.reverse ++ start.journal ∧
    state.sinks[index]? = some ((exports entries).foldl Sink.add sink)

theorem Gathered.eq_since (hgathered : Gathered index sink start state) :
    state.sinks[index]? = some ((exports (state.since start)).foldl Sink.add sink) := by
  obtain ⟨entries, hjournal, hsinks⟩ := hgathered
  rw [since_eq hjournal, hsinks]

theorem Gathered.of_eq (hgathered : Gathered index sink start state)
    (hjournal : after.journal = state.journal)
    (hsinks : after.sinks[index]? = state.sinks[index]?) : Gathered index sink start after := by
  obtain ⟨entries, hentries, hsink⟩ := hgathered
  exact ⟨entries, hjournal.trans hentries, hsinks.trans hsink⟩

theorem Gathered.cons (hgathered : Gathered index sink start state) {entry : JournalEntry}
    (hentry : exports [entry] = []) (hjournal : after.journal = entry :: state.journal)
    (hsinks : after.sinks = state.sinks) : Gathered index sink start after := by
  obtain ⟨entries, hentries, hsink⟩ := hgathered
  refine ⟨entries ++ [entry], by simp [hjournal, hentries], ?_⟩
  rw [hsinks, hsink, exports_append, hentry, List.append_nil]

theorem Gathered.emitted (hgathered : Gathered index sink start state) (record : Record) :
    Gathered index sink start
      { state with
        sinks := state.sinks.map (·.add record)
        journal := .exported record :: state.journal } := by
  obtain ⟨entries, hentries, hsink⟩ := hgathered
  have hexports : exports [.exported record] = [record] := rfl
  refine ⟨entries ++ [.exported record], by simp [hentries], ?_⟩
  rw [List.getElem?_map, hsink, exports_append, hexports, List.foldl_append]
  rfl

/-- Nothing that instructions do takes away from what a batch sink has gathered, and the end of a
block does not either. -/
theorem enduring_gathered (hbatch : sink.mode = .batch) (start : RunState σ) :
    Run.Enduring settings (Gathered index sink start) where
  stable := {
    visits := {
      cursor := fun _ _ hstate => hstate.of_eq rfl rfl
      reported := fun _ _ _ hstate => hstate.cons rfl rfl rfl }
    operands := {
      assigned := fun _ _ _ hstate => hstate.cons rfl rfl rfl
      queried := fun _ _ hstate => hstate.cons rfl rfl rfl }
    erased := fun _ _ hstate => hstate.of_eq rfl rfl
    emitted := fun _ record hstate => hstate.emitted record }
  retrieval := {
    polled := fun _ hstate => hstate.cons rfl rfl rfl
    requested := fun _ _ hstate => hstate.cons rfl rfl rfl
    withdrawn := fun _ _ _ hstate => hstate.cons rfl rfl rfl }
  delivered := fun _ _ hstate => hstate.cons rfl rfl rfl
  finished := by
    intro number state hstate
    refine ⟨hstate.of_eq rfl ?_, trivial⟩
    obtain ⟨entries, -, hsink⟩ := hstate
    show (Sink.finishAll state.sinks (.block number)).2[index]? = state.sinks[index]?
    simp only [Sink.finishAll, List.getElem?_map, hsink, Option.map_some, Sink.finish_block hbatch]

/-- A place holds the file that it held at the start, in the same sub-directories, and the sinks
are of the same kinds. -/
structure Undisturbed (place : List String) (start state : RunState σ) : Prop where
  kinds : state.sinks.map Sink.kind = start.sinks.map Sink.kind
  directories : state.folder.directories = start.folder.directories
  file : state.folder.files.get? place = start.folder.files.get? place

theorem Undisturbed.of_eq {place : List String} (hundisturbed : Undisturbed place start state)
    (hkinds : after.sinks.map Sink.kind = state.sinks.map Sink.kind)
    (hfolder : after.folder = state.folder) : Undisturbed place start after where
  kinds := hkinds.trans hundisturbed.kinds
  directories := hfolder ▸ hundisturbed.directories
  file := hfolder ▸ hundisturbed.file

/-- The end of a block disturbs no place but those that its files lead to. -/
theorem upholds_finish_undisturbed {place : List String}
    (hother : ∀ other ∈ start.sinks, other.mode ≠ .batch → ∀ file, other.MakesOfBlock file →
      ¬ start.folder.LeadsTo file.1 place) (number : Int) :
    (Run.finish (.block number)).Upholds settings (Undisturbed place start) := by
  intro state hstate
  have hunwritten : ∀ file ∈ (Sink.finishAll state.sinks (.block number)).1,
      ¬ state.folder.LeadsTo file.1 place := by
    intro file hfile hleads
    obtain ⟨maker, hmaker, hmade⟩ := List.mem_flatMap.mp hfile
    obtain ⟨other, hmem, hkind⟩ : ∃ other ∈ start.sinks, other.kind = maker.kind :=
      List.mem_map.mp (hstate.kinds ▸ List.mem_map_of_mem hmaker)
    have hmakes : other.MakesOfBlock file := ⟨maker, hkind.symm, number, hmade⟩
    exact hother other hmem hmakes.mode_ne_batch file hmakes
      (hleads.of_directories hstate.directories.symm)
  refine ⟨?_, trivial⟩
  exact
    { kinds := by simpa [Sink.finishAll, Function.comp_def] using hstate.kinds
      directories := (Folder.directories_writeAll _ _).trans hstate.directories
      file := (Folder.get?_writeAll_of_not_leadsTo hunwritten).trans hstate.file }

/-- Nothing that instructions do disturbs a place but reports in the error log and the files of
blocks. -/
theorem enduring_undisturbed {place : List String} (hplace : place ≠ [errorLogName])
    (hother : ∀ other ∈ start.sinks, other.mode ≠ .batch → ∀ file, other.MakesOfBlock file →
      ¬ start.folder.LeadsTo file.1 place) :
    Run.Enduring settings (Undisturbed place start) where
  stable := {
    visits := {
      cursor := fun _ _ hstate => hstate.of_eq rfl rfl
      reported := fun _ _ _ hstate =>
        { kinds := hstate.kinds
          directories := (Folder.directories_append _ _ _).trans hstate.directories
          file := (Folder.get?_append_of_not_leadsTo (Folder.not_leadsTo_errorLog hplace) _).trans
            hstate.file } }
    operands := {
      assigned := fun _ _ _ hstate => hstate.of_eq rfl rfl
      queried := fun _ _ hstate => hstate.of_eq rfl rfl }
    erased := fun _ _ hstate => hstate.of_eq rfl rfl
    emitted := fun _ _ hstate => hstate.of_eq (by simp [Function.comp_def]) rfl }
  retrieval := {
    polled := fun _ hstate => hstate.of_eq rfl rfl
    requested := fun _ _ hstate => hstate.of_eq rfl rfl
    withdrawn := fun _ _ _ hstate => hstate.of_eq rfl rfl }
  delivered := fun _ _ hstate => hstate.of_eq rfl rfl
  finished := upholds_finish_undisturbed hother

/-- Nothing was exported since a state, and the sinks are as they were. -/
structure Unexported (state after : RunState σ) : Prop where
  exports : exports (after.since state) = []
  sinks : after.sinks = state.sinks

/-- One record was exported since a state, and every sink has received it. -/
structure ExportedOne (state after : RunState σ) (record : Record) : Prop where
  exports : exports (after.since state) = [record]
  sinks : after.sinks = state.sinks.map (·.add record)

theorem Idled.unexported (hidled : Idled state after) : Unexported state after := by
  obtain ⟨entries, hcollects, hnone⟩ := hidled
  refine ⟨by rw [since_eq hcollects.journal, hnone], ?_⟩
  rw [hcollects.sinks, hnone]
  exact List.map_id _

theorem Idled.exportedOne (hidled : Idled state after) (record : Record) :
    ExportedOne state
      { after with
        sinks := after.sinks.map (·.add record)
        journal := .exported record :: after.journal } record := by
  obtain ⟨entries, hcollects, hnone⟩ := hidled
  have hall := hcollects.trans (collects_emitted record after)
  have hexports : Journal.exports (entries ++ [.exported record]) = [record] := by
    rw [exports_append, hnone]
    rfl
  exact ⟨by rw [since_eq hall.journal, hexports], by rw [hall.sinks, hexports]; rfl⟩

end RunState

namespace Instruction

open RunState Run

variable {settings : Settings σ} {χ : Type}

/-- The instruction exports a record. -/
def IsExporter : Instruction χ → Prop
  | .exportRow _ _ | .exportLine _ | .exportEvent _ _ _ => True
  | _ => False

/-- What an instruction exports, if it is this record: a row has the columns of the instruction,
and an event its attributes. -/
def MayExport : Instruction χ → Record → Prop
  | .exportRow table columns, .row name cells =>
    name = table ∧ cells.map (·.1) = columns.map (·.1)
  | .exportLine _, .line _ => True
  | .exportEvent _ _ attributes, .event record =>
    record.attributes.map (·.1) = attributes.map (·.key)
  | _, _ => False

/-- Cells are evaluated for all columns, or evaluating them fails. -/
theorem ensures_evaluateCells {P U : RunState σ → Prop} (hstable : OperandStable settings P)
    (columns : List (String × Operand)) :
    (Operand.evaluateCells columns : Run σ _).Ensures settings P
      (fun cells after => P after ∧ cells.map (·.1) = columns.map (·.1))
      (fun error after => P after ∧ error.IsOrdinary) U := by
  induction columns with
  | nil => exact ensures_pure fun _ hstate => ⟨hstate, rfl⟩
  | cons column columns ih =>
      refine (sustains_evaluate hstable column.2).bind fun value => ih.bind fun cells => ?_
      exact ensures_pure fun _ hcells => ⟨hcells.1, by simp [hcells.2]⟩

/-- Attributes are converted all of them, or converting them fails. -/
theorem ensures_evaluateAttributes {P U : RunState σ → Prop} (hstable : OperandStable settings P)
    (attributes : List AttributeOperand) :
    (Operand.evaluateAttributes attributes : Run σ _).Ensures settings P
      (fun converted after => P after ∧ converted.map (·.1) = attributes.map (·.key))
      (fun error after => P after ∧ error.IsOrdinary) U := by
  induction attributes with
  | nil => exact ensures_pure fun _ hstate => ⟨hstate, rfl⟩
  | cons entry attributes ih =>
      refine (sustains_evaluate hstable entry.value).bind fun value => ?_
      have hconverted := XesValue.failsOnly_ofValue entry.type value
      refine (sustains_ofExcept (hconverted.imp fun _ h => h.isOrdinary)).bind fun _ => ?_
      refine ih.bind fun converted => ?_
      exact ensures_pure fun _ hrest => ⟨hrest.1, by simp [hrest.2]⟩

/-- An exporter exports one record, which every sink receives, or fails and exports nothing. -/
theorem ensures_exporter {instruction : Instruction χ} (hexporter : instruction.IsExporter)
    (further : χ → Run σ Unit) (state : RunState σ) :
    (instruction.execute further).Ensures settings (Idled state)
      (fun _ after => ∃ record, instruction.MayExport record ∧ ExportedOne state after record)
      (fun error after => Idled state after ∧ error.IsOrdinary) (Idled state) := by
  have hstable := operandStable_idled settings state
  have hemit (record : Record) {H : Error → RunState σ → Prop} {U : RunState σ → Prop}
      (hrecord : instruction.MayExport record) : (emit record).Ensures settings (Idled state)
        (fun _ after => ∃ record, instruction.MayExport record ∧ ExportedOne state after record)
        H U :=
    fun _ hidled => ⟨record, hrecord, hidled.exportedOne record⟩
  cases instruction with
  | exportRow table columns =>
      rw [execute]
      refine (ensures_evaluateCells hstable columns).bind fun cells after hcells => ?_
      exact hemit (.row table cells) ⟨rfl, hcells.2⟩ after hcells.1
  | exportLine parts =>
      rw [execute]
      exact (sustains_evaluateAll hstable parts).bind fun _ => hemit _ trivial
  | exportEvent trace event attributes =>
      rw [execute]
      refine (sustains_evaluate hstable trace).bind fun _ => ?_
      refine (sustains_evaluate hstable event).bind fun _ => ?_
      refine (ensures_evaluateAttributes hstable attributes).bind fun _ after hconverted => ?_
      refine hemit _ ?_ after hconverted.1
      exact hconverted.2
  | _ => exact hexporter.elim

/-- Other instructions without a body export nothing. -/
theorem sustains_idled {instruction : Instruction χ} (hsimple : instruction.IsSimple)
    (hquiet : ¬ instruction.IsExporter) (further : χ → Run σ Unit) (state : RunState σ) :
    (instruction.execute further).Sustains settings (Idled state) Error.IsOrdinary
      (Idled state) := by
  have hstable := operandStable_idled settings state
  cases instruction with
  | assign target value =>
      rw [execute]
      exact (sustains_evaluate hstable value).bind fun _ => sustains_assign hstable target _
  | call method arguments result =>
      rw [execute]
      refine (sustains_evaluateAll hstable arguments).bind fun values => ?_
      exact (sustains_invokeInto hstable expects_ordinary method values result).bind fun _ =>
        sustains_pure _
  | exportRow | exportLine | exportEvent => exact absurd trivial hquiet
  | _ => exact hsimple.elim

end Instruction

namespace RunState

variable {settings : Settings σ} {index : Nat} {sink : Sink} {start ended : RunState σ}

/-- The files that sinks in front of one make when the run ends. -/
def filesBefore (index : Nat) (state : RunState σ) : List (String × String) :=
  (Sink.finishAll (state.sinks.take index) .allBlocks).1

/-- The files that sinks behind one make when the run ends. -/
def filesBehind (index : Nat) (state : RunState σ) : List (String × String) :=
  (Sink.finishAll (state.sinks.drop (index + 1)) .allBlocks).1

/-- What a sink makes of records when the run ends in a state. -/
structure MakesArtifacts (settings : Settings σ) (index : Nat) (sink : Sink)
    (records : List Record) (ended : RunState σ) : Prop where
  /-- Its files are the rendering of the records, and stand between those of the other sinks. -/
  files : (Sink.finishAll ended.sinks .allBlocks).1 =
    ended.filesBefore index ++ sink.buffer.rendering records ++ ended.filesBehind index
  /-- If they could be written, each is found in the folder, unless a later one took its place. -/
  written : ∀ earlier name text later place,
    sink.buffer.rendering records = earlier ++ (name, text) :: later →
    ((ended.folder.writeAll (ended.filesBefore index)).1.writeAll
      (sink.buffer.rendering records)).2 = none →
    ended.folder.LeadsTo name place →
    (∀ file ∈ later ++ ended.filesBehind index, ¬ ended.folder.LeadsTo file.1 place) →
    (ended.finished settings).folder.files.get? place = some text

/-- The end of a run exports no records. -/
theorem Gathered.exports_finished (hgathered : Gathered index sink start ended) :
    exports ((ended.finished settings).since start) = exports (ended.since start) := by
  obtain ⟨entries, hjournal, -⟩ := hgathered
  have hfinished : (ended.finished settings).journal = _ := finished_journal ended
  rw [hjournal] at hfinished
  cases hreport : ended.lastExport.report? with
  | none => rw [since_eq hjournal, since_eq (by simpa [hreport] using hfinished)]
  | some report =>
      have hlast : (ended.finished settings).journal =
          (entries ++ [JournalEntry.reported report.1 report.2]).reverse ++ start.journal := by
        simpa [hreport] using hfinished
      rw [since_eq hjournal, since_eq hlast, exports_append]
      exact List.append_nil _

/-- Closing the run writes nothing but the error log. -/
theorem get?_finished {place : List String} (hplace : place ≠ [errorLogName]) :
    (ended.finished settings).folder.files.get? place = ended.exported.folder.files.get? place := by
  unfold finished
  cases ended.exportFailure? with
  | none => rfl
  | some error => exact Folder.get?_append_of_not_leadsTo (Folder.not_leadsTo_errorLog hplace) _

theorem makesArtifacts_of_files {records : List Record}
    (hfiles : (Sink.finishAll ended.sinks .allBlocks).1 =
      ended.filesBefore index ++ sink.buffer.rendering records ++ ended.filesBehind index) :
    MakesArtifacts settings index sink records ended := by
  refine ⟨hfiles, ?_⟩
  intro earlier name text later place hrendering hwritten hleads hlater
  have hplace : place ≠ [errorLogName] := by
    have hfile : (name, text) ∈ sink.buffer.rendering records := by simp [hrendering]
    obtain ⟨front, ending, rfl, hslash, hending⟩ := Buffer.exists_ending_of_mem_rendering hfile
    exact hleads.ne_errorLog hslash hending
  obtain ⟨hlater, hbehind⟩ := List.forall_mem_append.mp hlater
  have hbefore := Folder.directories_writeAll ended.folder (ended.filesBefore index)
  rw [hrendering] at hwritten
  rw [get?_finished hplace]
  show (ended.folder.writeAll (Sink.finishAll ended.sinks .allBlocks).1).1.files.get? place = _
  rw [hfiles, hrendering, Folder.writeAll_append, Folder.writeAll_append]
  -- the folder after the files of earlier sinks has the sub-directories that it had before
  generalize (ended.folder.writeAll (ended.filesBefore index)).1 = middle at hwritten hbefore ⊢
  have hmiddle := Folder.directories_writeAll middle (earlier ++ (name, text) :: later)
  rw [Folder.get?_writeAll_of_not_leadsTo fun file hfile hfound =>
    hbehind file hfile (hfound.of_directories (hmiddle.trans hbefore).symm)]
  exact Folder.get?_writeAll hwritten (hleads.of_directories hbefore) fun file hfile hfound =>
    hlater file hfile (hfound.of_directories hbefore.symm)

theorem Gathered.makesArtifacts (hbatch : sink.mode = .batch)
    (hempty : sink.buffer.cleared = sink.buffer) (hgathered : Gathered index sink start ended) :
    MakesArtifacts settings index sink (exports ((ended.finished settings).since start)) ended := by
  apply makesArtifacts_of_files
  rw [hgathered.exports_finished, Sink.finishAll_split hgathered.eq_since,
    Sink.finish_allBlocks hbatch hempty]
  rfl

end RunState

namespace Program

open RunState Reporting Traced

/-- What becomes of what is exported while a program runs, as far as a sink is concerned. -/
structure ExportsAtEnd (settings : Settings σ) (program : Program Empty) (start : RunState σ)
    (index : Nat) (sink : Sink) : Prop where
  traced : (trace program : Traced σ Unit).run = run Empty.elim program
  /-- Wherever a task ends, the sink holds everything that has been exported so far. -/
  gathers : ∀ ending ∈ (trace program).endings settings start, ending.task ≠ .lastExport →
    ending.state.sinks[index]? =
      some ((exports (ending.state.since start)).foldl Sink.add sink)
  /-- It makes no files at the end of a block, whatever it holds then. -/
  waits : ∀ (records : List Record) number,
    (records.foldl Sink.add sink).finish (.block number) = ([], records.foldl Sink.add sink)
  /-- Until the run itself ends, nothing is written but the error log and the files that other
  sinks make of blocks: all other places in the folder hold what they held at the start. -/
  undisturbed : ∀ place, place ≠ [errorLogName] →
    (∀ other ∈ start.sinks, other.mode ≠ .batch → ∀ file, other.MakesOfBlock file →
      ¬ start.folder.LeadsTo file.1 place) →
    ∀ ending ∈ (trace program).endings settings start, ending.task ≠ .lastExport →
      ending.state.folder.files.get? place = start.folder.files.get? place
  /-- However the instructions have ended, the sink makes its files of everything exported. -/
  makes : ∀ outcome middle,
    (Instruction.executeAll Empty.elim program).attempt.run settings start = .ok outcome middle →
      (run Empty.elim program).run settings start =
        .ok () ((concluded settings outcome middle).finished settings) ∧
      MakesArtifacts settings index sink
        (exports (((concluded settings outcome middle).finished settings).since start))
        (concluded settings outcome middle)
  /-- An exporter exports one record, which every sink receives, or fails and exports nothing. -/
  exporters : ∀ instruction : Instruction Empty, instruction.IsExporter → ∀ state,
    ((instruction.execute Empty.elim).run settings state).Satisfies
      (fun _ after => ∃ record, instruction.MayExport record ∧ ExportedOne state after record)
      (fun _ after => Unexported state after) (Unexported state)
  /-- What is exported comes from exporters, since filters only run what is nested in them. -/
  others : ∀ instruction : Instruction Empty, instruction.IsSimple → ¬ instruction.IsExporter →
    ∀ state, ((instruction.execute Empty.elim).run settings state).Satisfies
      (fun _ after => Unexported state after) (fun _ after => Unexported state after)
      (Unexported state)

/-- A batch sink that is empty at the start loses nothing that is exported and makes up nothing,
whatever the client answers. -/
theorem exportsAtEnd {settings : Settings σ} {start : RunState σ} {index : Nat} {sink : Sink}
    (hsink : start.sinks[index]? = some sink) (hbatch : sink.mode = .batch)
    (hempty : sink.buffer.cleared = sink.buffer) (program : Program Empty) :
    ExportsAtEnd settings program start index sink := by
  have henduring : Run.Enduring settings (Gathered index sink start) :=
    enduring_gathered hbatch start
  have hstart : Gathered index sink start start := ⟨[], rfl, hsink⟩
  exact
    { traced := run_trace program
      gathers := fun ending hending htask =>
        (holds_of_mem_endings henduring hstart hending htask).eq_since
      waits := Sink.finish_block hbatch
      undisturbed := fun _ hplace hother _ hending htask =>
        (holds_of_mem_endings (enduring_undisturbed hplace hother) ⟨rfl, rfl, rfl⟩ hending
          htask).file
      makes := fun outcome middle hinstructions =>
        ⟨run_of_attempt hinstructions,
          (kept_of_attempt henduring hstart hinstructions).2.makesArtifacts hbatch hempty⟩
      exporters := fun instruction hexporter state =>
        (Instruction.ensures_exporter hexporter Empty.elim state state
          ⟨[], collects_refl state, rfl⟩).imp (fun _ _ h => h) (fun _ _ h => h.1.unexported)
          fun _ h => h.unexported
      others := fun instruction hsimple hquiet state =>
        (Instruction.sustains_idled hsimple hquiet Empty.elim state state
          ⟨[], collects_refl state, rfl⟩).imp (fun _ _ h => h.unexported)
          (fun _ _ h => h.1.unexported) fun _ h => h.unexported }

/-! ### Payments that fail, and a second branch without them -/

/-- A line for each of three blocks, and another for each payment in it, which then fails. -/
def failingPayments : Program Empty :=
  [Instruction.threeBlocks
    [.exportLine [.literal (.str "block "), .chain "block.number"],
      .transactions none none
        [.exportLine [.literal (.str "paid")], .when (.literal (.int 0)) []]]]

/-- A state with a streaming sink for rows and a batch sink for lines. -/
def batchStart : RunState Nat :=
  { BlockRange.forkingStart with sinks := [⟨.streaming, .csv ',' []⟩, ⟨.batch, .lines []⟩] }

def runFailingPayments : Outcome Nat Unit :=
  (run Empty.elim failingPayments).run Instruction.payingSettings batchStart

/-- Block 2 is given up after its payment has failed. The lines of both are there in the end. -/
theorem exportsAtEnd_failing :
    (batchStart.sinks[1]? = some ⟨.batch, .lines []⟩ ∧
      (⟨.batch, .lines []⟩ : Sink).mode = .batch ∧
      (⟨.batch, .lines []⟩ : Sink).buffer.cleared = .lines []) ∧
    ExportsAtEnd Instruction.payingSettings failingPayments batchStart 1 ⟨.batch, .lines []⟩ ∧
    runFailingPayments = .ok () runFailingPayments.last ∧
    (withdrawals (runFailingPayments.last.since batchStart)).map (·.1) = [2] ∧
    (reports (runFailingPayments.last.since batchStart)).map (·.1) =
      ["error processing transaction 0", "error processing transaction 0"] ∧
    runFailingPayments.last.folder.read? "all_blocks.log" =
      some "block 1\npaid\nblock 2\npaid\nblock 2\nblock 3\n" := by
  have hexports : ExportsAtEnd Instruction.payingSettings failingPayments batchStart 1
      ⟨.batch, .lines []⟩ := exportsAtEnd rfl rfl rfl failingPayments
  exact ⟨⟨rfl, rfl, rfl⟩, hexports, Outcome.eq_ok_last (by decide +kernel), by decide +kernel,
    by decide +kernel, by decide +kernel⟩

end Program

end ChainExtract
