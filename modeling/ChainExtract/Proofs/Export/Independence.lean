import ChainExtract.Run.Basic
import Mathlib.Data.List.Forall2
import Mathlib.Tactic.Common

/-! # Sinks side by side

Sinks share nothing but the folder that they write to, and they do not look at what became of
their files. Each of them collects records and tries to write files as it does alone, whatever the
others do and whichever writes fail; what ending a block or a run returns is the failure of the
first file that could not be written.
-/

namespace ChainExtract

/-- Something that files are written to: how writing a file fails, if it does, and what the write
leaves behind. -/
abbrev Writer (φ : Type) := φ → String × String → Option Error × φ

/-- Writing files to a folder. -/
def Folder.writer : Writer Folder := fun folder (name, contents) =>
  match folder.write name contents with
  | .ok folder => (none, folder)
  | .error failure => (some (.unwritten (folder.pathOf name) failure.message), folder)

/-- A file that was tried to be written, by name and contents, and how this failed if it did. -/
structure Attempt where
  file : String × String
  failure : Option Error

namespace Writer

variable {φ : Type} (write : Writer φ)

/-- Tries files one after the other, whatever happens to those before. -/
def tryAll : φ → List (String × String) → List Attempt × φ
  | medium, [] => ([], medium)
  | medium, file :: files =>
    let (failure, medium) := write medium file
    let (attempts, medium) := tryAll medium files
    (⟨file, failure⟩ :: attempts, medium)

/-- Writes files one after the other, whatever happens to those before, and returns the first
failure. -/
def writeAll : φ → List (String × String) → φ × Option Error
  | medium, [] => (medium, none)
  | medium, file :: files =>
    let (failure, medium) := write medium file
    let (medium, later) := writeAll medium files
    (medium, failure.or later)

/-- Tries the files of several sinks, one sink after the other. -/
def tryEach : φ → List (List (String × String)) → List (List Attempt) × φ
  | medium, [] => ([], medium)
  | medium, files :: rest =>
    let (attempts, medium) := tryAll write medium files
    let (further, medium) := tryEach medium rest
    (attempts :: further, medium)

/-- Writing files is to try all of them. -/
theorem writeAll_eq (medium : φ) (files : List (String × String)) :
    writeAll write medium files =
      ((tryAll write medium files).2,
        (tryAll write medium files).1.findSome? Attempt.failure) := by
  induction files generalizing medium with
  | nil => rfl
  | cons file files ih =>
      simp only [writeAll, tryAll, ih, List.findSome?_cons]
      cases (write medium file).1 <;> rfl

theorem map_file_tryAll (medium : φ) (files : List (String × String)) :
    (tryAll write medium files).1.map Attempt.file = files := by
  induction files generalizing medium with
  | nil => rfl
  | cons file files ih => simp [tryAll, ih]

theorem map_file_tryEach (medium : φ) (each : List (List (String × String))) :
    (tryEach write medium each).1.map (·.map Attempt.file) = each := by
  induction each generalizing medium with
  | nil => rfl
  | cons files rest ih => simp [tryEach, ih, map_file_tryAll]

theorem tryAll_append (medium : φ) (first second : List (String × String)) :
    tryAll write medium (first ++ second) =
      ((tryAll write medium first).1 ++ (tryAll write (tryAll write medium first).2 second).1,
        (tryAll write (tryAll write medium first).2 second).2) := by
  induction first generalizing medium with
  | nil => rfl
  | cons file first ih => simp [tryAll, ih]

/-- It does not matter for a medium whose file a file is. -/
theorem tryAll_flatten (medium : φ) (each : List (List (String × String))) :
    tryAll write medium each.flatten =
      ((tryEach write medium each).1.flatten, (tryEach write medium each).2) := by
  induction each generalizing medium with
  | nil => rfl
  | cons files rest ih => simp [tryEach, tryAll_append, ih]

end Writer

/-- The failure of the first attempt that failed, sink by sink. -/
def Attempt.firstFailure (attempts : List (List Attempt)) : Option Error :=
  attempts.findSome? fun made => made.findSome? Attempt.failure

namespace Attempt

theorem firstFailure_eq (attempts : List (List Attempt)) :
    firstFailure attempts = attempts.flatten.findSome? failure := by
  induction attempts with
  | nil => rfl
  | cons made attempts ih =>
      rw [List.flatten_cons, List.findSome?_append, ← ih, firstFailure, List.findSome?_cons]
      cases made.findSome? failure <;> rfl

/-- What the attempts of several sinks fail with: nothing if no attempt failed, and otherwise the
failure of the first attempt that failed of the first sink that has one. -/
def FailsWith (attempts : List (List Attempt)) : Option Error → Prop
  | none => ∀ made ∈ attempts, ∀ attempt ∈ made, attempt.failure = none
  | some error => ∃ earlier before attempt after later,
      attempts = earlier ++ (before ++ attempt :: after) :: later ∧
      (∀ made ∈ earlier, ∀ other ∈ made, other.failure = none) ∧
      (∀ other ∈ before, other.failure = none) ∧ attempt.failure = some error

theorem failsWith_firstFailure (attempts : List (List Attempt)) :
    FailsWith attempts (firstFailure attempts) := by
  cases hfailure : firstFailure attempts with
  | none => simpa [firstFailure, FailsWith] using hfailure
  | some error =>
      obtain ⟨earlier, made, later, rfl, hmade, hearlier⟩ := List.findSome?_eq_some_iff.mp hfailure
      obtain ⟨before, attempt, after, rfl, hattempt, hbefore⟩ := List.findSome?_eq_some_iff.mp hmade
      exact ⟨earlier, before, attempt, after, later, rfl,
        fun other hother => List.findSome?_eq_none_iff.mp (hearlier other hother), hbefore, hattempt⟩

end Attempt

theorem Folder.writeAll_eq (folder : Folder) (files : List (String × String)) :
    folder.writeAll files = writer.writeAll folder files := by
  induction files generalizing folder with
  | nil => rfl
  | cons file files ih =>
      obtain ⟨name, contents⟩ := file
      rw [writeAll]
      cases hwrite : folder.write name contents with
      | ok written => simp [Writer.writeAll, writer, hwrite, ih]
      | error failure => simp [Writer.writeAll, writer, hwrite, ih]

/-- What is done with sinks: they are given a record, or a block or the run ends. -/
inductive SinkAction where
  | collect (record : Record)
  | finish (extent : Extent)

/-- Does something with the sinks of a run. Returned is what ending a block or the run fails
with. -/
def SinkAction.perform {σ : Type} : SinkAction → Run σ (Option Error)
  | collect record => do
    Run.emit record
    return none
  | finish extent => Run.finish extent

namespace Sink

/-- What a sink does: the files that it makes, and the sink after it. -/
def perform (sink : Sink) : SinkAction → List (String × String) × Sink
  | .collect record => ([], sink.add record)
  | .finish extent => sink.finish extent

/-- The sink after several actions. -/
def after (sink : Sink) (actions : List SinkAction) : Sink :=
  actions.foldl (fun sink action => (sink.perform action).2) sink

/-- The files that a sink makes of each of several actions. -/
def filesThroughout (sink : Sink) : List SinkAction → List (List (String × String))
  | [] => []
  | action :: actions => (sink.perform action).1 :: filesThroughout (sink.perform action).2 actions

end Sink

/-- Sinks in the order in which they were registered, and the medium that they write to. -/
structure Exporters (φ : Type) where
  sinks : List Sink
  medium : φ

namespace Exporters

variable {φ : Type} (write : Writer φ)

/-- Does something with all sinks: what each of them tries to write, and the sinks and the medium
after it. -/
def step (exporters : Exporters φ) (action : SinkAction) : List (List Attempt) × Exporters φ :=
  let (attempts, medium) := write.tryEach exporters.medium
    (exporters.sinks.map fun sink => (sink.perform action).1)
  (attempts, ⟨exporters.sinks.map fun sink => (sink.perform action).2, medium⟩)

/-- Ends a block or the run: the failure that is returned, and the sinks and the medium after
it. -/
def finish (exporters : Exporters φ) (extent : Extent) : Option Error × Exporters φ :=
  let (files, sinks) := Sink.finishAll exporters.sinks extent
  let (medium, failure) := write.writeAll exporters.medium files
  (failure, ⟨sinks, medium⟩)

/-- Ending a block or the run is one of the things that are done with sinks. -/
theorem finish_eq (exporters : Exporters φ) (extent : Extent) :
    exporters.finish write extent =
      (Attempt.firstFailure (exporters.step write (.finish extent)).1,
        (exporters.step write (.finish extent)).2) := by
  rw [finish, Sink.finishAll, List.flatMap_def]
  simp only [Writer.writeAll_eq, Writer.tryAll_flatten, ← Attempt.firstFailure_eq]
  rfl

/-- Does several things one after the other. -/
def run (exporters : Exporters φ) : List SinkAction → List (List (List Attempt)) × Exporters φ
  | [] => ([], exporters)
  | action :: actions =>
    let (attempts, exporters) := exporters.step write action
    let (further, exporters) := exporters.run actions
    (attempts :: further, exporters)

/-- A sink on its own. -/
def only (sink : Sink) (medium : φ) : Exporters φ := ⟨[sink], medium⟩

/-- The files that the sink at an index tries to write in each of several actions. -/
def filesAt (exporters : Exporters φ) (actions : List SinkAction) (index : Nat) :
    List (List (String × String)) :=
  (exporters.run write actions).1.map fun attempts => (attempts[index]?.getD []).map Attempt.file

variable {write} {exporters : Exporters φ} {index : Nat} {sink : Sink}

variable (write) in
/-- Each sink tries to write the files that it makes. -/
theorem exists_made_of_step (hsink : exporters.sinks[index]? = some sink) (action : SinkAction) :
    ∃ made, (exporters.step write action).1[index]? = some made ∧
      made.map Attempt.file = (sink.perform action).1 := by
  have hfiles := congrArg (·[index]?) (write.map_file_tryEach exporters.medium
    (exporters.sinks.map fun sink => (sink.perform action).1))
  simp only [List.getElem?_map, hsink, Option.map_some] at hfiles
  exact Option.map_eq_some_iff.mp hfiles

theorem sinks_run (exporters : Exporters φ) (actions : List SinkAction) :
    (exporters.run write actions).2.sinks = exporters.sinks.map (·.after actions) := by
  induction actions generalizing exporters with
  | nil => simp [run, Sink.after]
  | cons action actions ih =>
      rw [run, ih]
      simp [step, Sink.after]

theorem filesAt_eq (hsink : exporters.sinks[index]? = some sink) (actions : List SinkAction) :
    exporters.filesAt write actions index = sink.filesThroughout actions := by
  induction actions generalizing exporters sink with
  | nil => rfl
  | cons action actions ih =>
      have hnext : (exporters.step write action).2.sinks[index]? = some (sink.perform action).2 := by
        simp [step, hsink]
      obtain ⟨made, hmade, hfile⟩ := exists_made_of_step write hsink action
      have hfirst : ((exporters.step write action).1[index]?.getD []).map Attempt.file =
          (sink.perform action).1 := by rw [hmade, Option.getD_some, hfile]
      rw [Sink.filesThroughout, ← ih hnext, ← hfirst]
      rfl

end Exporters

/-- The sinks of a run with the folder that they write to. -/
def RunState.exporters {σ : Type} (state : RunState σ) : Exporters Folder :=
  ⟨state.sinks, state.folder⟩

namespace SinkAction

variable {σ : Type} (settings : Settings σ) (state : RunState σ)

theorem tryEach_nothing {φ : Type} (write : Writer φ) (medium : φ) (sinks : List Sink) :
    write.tryEach medium (sinks.map fun _ => []) = (sinks.map fun _ => [], medium) := by
  induction sinks with
  | nil => rfl
  | cons sink sinks ih => simp only [List.map_cons, Writer.tryEach, Writer.tryAll, ih]

/-- Ending a block or a run is to end it for the sinks of the run. -/
theorem run_finish (extent : Extent) :
    ∃ after, (Run.finish extent).run settings state =
        .ok (state.exporters.finish Folder.writer extent).1 after ∧
      after.exporters = (state.exporters.finish Folder.writer extent).2 := by
  have hwrite := state.folder.writeAll_eq (Sink.finishAll state.sinks extent).1
  refine ⟨{ state with
    sinks := (Sink.finishAll state.sinks extent).2
    folder := (state.folder.writeAll (Sink.finishAll state.sinks extent).1).1 }, ?_, ?_⟩
  · rw [Exporters.finish]
    show _ = Outcome.ok (Folder.writer.writeAll state.folder
      (Sink.finishAll state.sinks extent).1).2 _
    rw [← hwrite]
    rfl
  · rw [RunState.exporters, hwrite]
    rfl

/-- A run does with its sinks what is done with each of them, and returns the first failure. -/
theorem run_perform (action : SinkAction) :
    ∃ after, (action.perform : Run σ (Option Error)).run settings state =
        .ok (Attempt.firstFailure (state.exporters.step Folder.writer action).1) after ∧
      after.exporters = (state.exporters.step Folder.writer action).2 := by
  cases action with
  | collect record =>
      have hstep : state.exporters.step Folder.writer (.collect record) =
          (state.sinks.map fun _ => [], ⟨state.sinks.map (·.add record), state.folder⟩) := by
        simp only [Exporters.step, Sink.perform, RunState.exporters, tryEach_nothing]
      have hnone : Attempt.firstFailure (state.sinks.map fun _ => []) = none := by
        rw [Attempt.firstFailure, List.findSome?_map]
        exact List.findSome?_eq_none_iff.mpr fun _ _ => rfl
      rw [hstep, hnone]
      exact ⟨_, rfl, rfl⟩
  | finish extent =>
      have hrun := run_finish settings state extent
      rw [Exporters.finish_eq] at hrun
      exact hrun

/-- Does several things with the sinks of a run, and returns what each of them fails with. -/
def performAll (actions : List SinkAction) : Run σ (List (Option Error)) := actions.mapM perform

theorem run_performAll (actions : List SinkAction) :
    ∃ after, (performAll actions).run settings state =
        .ok ((state.exporters.run Folder.writer actions).1.map Attempt.firstFailure) after ∧
      after.exporters = (state.exporters.run Folder.writer actions).2 := by
  induction actions generalizing state with
  | nil => exact ⟨state, rfl, rfl⟩
  | cons action actions ih =>
      obtain ⟨middle, haction, hmiddle⟩ := run_perform settings state action
      obtain ⟨after, hactions, hafter⟩ := ih middle
      rw [hmiddle] at hactions hafter
      refine ⟨after, ?_, hafter⟩
      rw [performAll] at hactions ⊢
      simp only [List.mapM_cons, Run.run_bind, haction, hactions, Run.run_pure]
      rfl

end SinkAction

/-- Sinks that write to a medium do what they do on their own, however writing to it fails. -/
structure Exporters.Independent {φ : Type} (write : Writer φ) : Prop where
  /-- Each sink has in the end collected what it has alone on any other medium, and in every
  action it has tried to write the same files. -/
  alone : ∀ (exporters : Exporters φ) (actions : List SinkAction) (index : Nat) (sink : Sink),
    exporters.sinks[index]? = some sink →
    ∀ (χ : Type) (other : Writer χ) (medium : χ),
      (exporters.run write actions).2.sinks[index]? =
          ((only sink medium).run other actions).2.sinks[0]? ∧
        exporters.filesAt write actions index = (only sink medium).filesAt other actions 0
  /-- A streaming sink tries to write when a block ends, and a batch sink when the run ends. -/
  timely : ∀ (exporters : Exporters φ) (action : SinkAction) (index : Nat) (sink : Sink)
      (made : List Attempt),
    exporters.sinks[index]? = some sink → (exporters.step write action).1[index]? = some made →
    made ≠ [] → (sink.mode = .streaming ∧ ∃ number, action = .finish (.block number)) ∨
      (sink.mode = .batch ∧ action = .finish .allBlocks)
  /-- A sink of rows tries to write all tables that it holds when it is due, whichever fail. -/
  tables : ∀ (exporters : Exporters φ) (extent : Extent) (index : Nat) (mode : SinkMode)
      (delimiter : Char) (tables : Keyed String CsvTable),
    exporters.sinks[index]? = some ⟨mode, .csv delimiter tables⟩ →
    Sink.isDue ⟨mode, .csv delimiter tables⟩ extent →
      ∃ made, (exporters.step write (.finish extent)).1[index]? = some made ∧
        made.map Attempt.file = tables.map fun (name, table) =>
          (Buffer.tableFile name extent, table.render delimiter)
  /-- Ending a block or the run returns the failure of the first file of the first sink that could
  not be written. -/
  fails : ∀ (exporters : Exporters φ) (extent : Extent),
    (exporters.finish write extent).2 = (exporters.step write (.finish extent)).2 ∧
      Attempt.FailsWith (exporters.step write (.finish extent)).1
        (exporters.finish write extent).1

theorem Sink.due_of_perform_ne_nil {sink : Sink} {action : SinkAction}
    (hfiles : (sink.perform action).1 ≠ []) :
    (sink.mode = .streaming ∧ ∃ number, action = .finish (.block number)) ∨
      (sink.mode = .batch ∧ action = .finish .allBlocks) := by
  cases action with
  | collect record => exact absurd rfl hfiles
  | finish extent =>
      have hdue : sink.isDue extent = true := by
        by_contra hidle
        exact hfiles (by simp [perform, finish, hidle])
      cases extent with
      | block number => exact Or.inl ⟨by simpa [isDue] using hdue, number, rfl⟩
      | allBlocks => exact Or.inr ⟨by simpa [isDue] using hdue, rfl⟩

namespace Exporters

theorem independent {φ : Type} (write : Writer φ) : Independent write where
  alone := by
    intro exporters actions index sink hsink χ other medium
    have honly : (only sink medium).sinks[0]? = some sink := rfl
    refine ⟨?_, ?_⟩
    · rw [sinks_run, sinks_run, List.getElem?_map, List.getElem?_map, hsink, honly]
    · rw [filesAt_eq hsink, filesAt_eq honly]
  timely := by
    intro exporters action index sink made hsink hmade hattempts
    obtain ⟨own, hown, hfile⟩ := exists_made_of_step write hsink action
    obtain rfl : made = own := Option.some.inj (hmade.symm.trans hown)
    refine Sink.due_of_perform_ne_nil ?_
    rw [← hfile]
    simpa using hattempts
  tables := by
    intro exporters extent index mode delimiter tables hsink hdue
    obtain ⟨made, hmade, hfile⟩ := exists_made_of_step write hsink (.finish extent)
    refine ⟨made, hmade, hfile.trans ?_⟩
    rw [Sink.perform, Sink.finish, if_pos hdue]
    rfl
  fails := by
    intro exporters extent
    rw [finish_eq]
    exact ⟨rfl, Attempt.failsWith_firstFailure _⟩

/-- Sinks of a run do not depend on each other, on whatever medium and however writing to it
fails. What is done with them in a run is done with them and the folder of the run, and what it
returns is the failure of the first file of the first sink that could not be written. -/
theorem independent_throughout :
    (∀ (φ : Type) (write : Writer φ), Independent write) ∧
      ∀ (σ : Type) (settings : Settings σ) (state : RunState σ) (actions : List SinkAction),
        ∃ errors after, (SinkAction.performAll actions).run settings state = .ok errors after ∧
          after.exporters = (state.exporters.run Folder.writer actions).2 ∧
          List.Forall₂ Attempt.FailsWith (state.exporters.run Folder.writer actions).1 errors := by
  refine ⟨fun φ write => independent write, ?_⟩
  intro σ settings state actions
  obtain ⟨after, hrun, hafter⟩ := SinkAction.run_performAll settings state actions
  refine ⟨_, after, hrun, hafter, ?_⟩
  rw [List.forall₂_map_right_iff]
  exact List.forall₂_same.mpr fun attempts _ => Attempt.failsWith_firstFailure attempts

end Exporters

end ChainExtract
