import ChainExtract.Chain.Cursor
import ChainExtract.Run.Journal
import ChainExtract.Store

/-!
# Runs

A step of a run reads the settings, changes the state, and ends with a result,
with a failure, or not at all: steps whose end depends on the chain are given
a bound, and a run that reaches it is unfinished. Both keep the changes made
before.
-/

namespace ChainExtract

structure Settings (σ : Type) where
  client : Client σ
  /-- Whether the first reported failure ends the run. -/
  abortOnFailure : Bool
  /-- How often a loop may turn whose end depends on the chain. -/
  patience : Nat
  /-- What stands in front of each line of the error log. -/
  stamp : String

structure RunState (σ : Type) where
  chain : σ
  /-- Whether the connection to the chain has been closed. -/
  closed : Bool := false
  cursor : Cursor := {}
  store : Store := {}
  sinks : List Sink := []
  folder : Folder
  /-- What has happened so far, the newest entry first. -/
  journal : List JournalEntry := []

inductive Outcome (σ α : Type) where
  | ok (result : α) (state : RunState σ)
  | failed (error : Error) (state : RunState σ)
  /-- The run has come as far as the state `s`. -/
  | unfinished {s : RunState σ}

structure Run (σ α : Type) where
  run : Settings σ → RunState σ → Outcome σ α

namespace Run

variable {σ α β γ : Type}

@[ext] theorem ext {x y : Run σ α} (h : x.run = y.run) : x = y := by
  cases x
  cases y
  congr

def pure (result : α) : Run σ α := ⟨fun _ state => .ok result state⟩

def bind (x : Run σ α) (f : α → Run σ β) : Run σ β :=
  ⟨fun settings state =>
    match x.run settings state with
    | .ok result state => (f result).run settings state
    | .failed error state => .failed error state
    | .unfinished (s := state) => .unfinished (s := state)⟩

instance : Monad (Run σ) where
  pure := pure
  bind := bind

@[simp] theorem run_pure (result : α) (settings : Settings σ) (state : RunState σ) :
    (Pure.pure result : Run σ α).run settings state = .ok result state := rfl

@[simp] theorem run_bind (x : Run σ α) (f : α → Run σ β) (settings : Settings σ)
    (state : RunState σ) :
    (x >>= f).run settings state =
      match x.run settings state with
      | .ok result state => (f result).run settings state
      | .failed error state => .failed error state
      | .unfinished (s := state) => .unfinished (s := state) := rfl

@[simp] theorem run_map (f : α → β) (x : Run σ α) (settings : Settings σ) (state : RunState σ) :
    (f <$> x).run settings state =
      match x.run settings state with
      | .ok result state => .ok (f result) state
      | .failed error state => .failed error state
      | .unfinished (s := state) => .unfinished (s := state) := rfl

theorem map_id (x : Run σ α) : id <$> x = x := by
  ext settings state
  show (match x.run settings state with
    | .ok result state => Outcome.ok (id result) state
    | .failed error state => .failed error state
    | .unfinished (s := state) => .unfinished (s := state)) = x.run settings state
  cases x.run settings state <;> rfl

theorem bind_bind (x : Run σ α) (f : α → Run σ β) (g : β → Run σ γ) :
    (x >>= f) >>= g = x >>= fun result => f result >>= g := by
  ext settings state
  simp only [run_bind]
  cases x.run settings state <;> rfl

instance : LawfulMonad (Run σ) := LawfulMonad.mk' (Run σ) map_id (fun _ _ => rfl) bind_bind

def fail (error : Error) : Run σ α := ⟨fun _ state => .failed error state⟩

/-- The step that does not end. -/
def giveUp : Run σ α := ⟨fun _ state => .unfinished (s := state)⟩

/-- The result of a step, or its failure, as a value. -/
def attempt (x : Run σ α) : Run σ (Except Error α) :=
  ⟨fun settings state =>
    match x.run settings state with
    | .ok result state => .ok (.ok result) state
    | .failed error state => .ok (.error error) state
    | .unfinished (s := state) => .unfinished (s := state)⟩

def settings : Run σ (Settings σ) := ⟨fun settings state => .ok settings state⟩

def state : Run σ (RunState σ) := ⟨fun _ state => .ok state state⟩

def modify (f : RunState σ → RunState σ) : Run σ Unit := ⟨fun _ state => .ok () (f state)⟩

/-- A result that has been computed, or a failure. -/
def ofExcept : Except Error α → Run σ α
  | .ok result => pure result
  | .error error => fail error

@[simp] theorem run_fail (error : Error) (settings : Settings σ) (state : RunState σ) :
    (fail error : Run σ α).run settings state = .failed error state := rfl

@[simp] theorem run_giveUp (settings : Settings σ) (state : RunState σ) :
    (giveUp : Run σ α).run settings state = .unfinished (s := state) := rfl

@[simp] theorem run_attempt (x : Run σ α) (settings : Settings σ) (state : RunState σ) :
    x.attempt.run settings state =
      match x.run settings state with
      | .ok result state => .ok (.ok result) state
      | .failed error state => .ok (.error error) state
      | .unfinished (s := state) => .unfinished (s := state) := rfl

@[simp] theorem run_settings (settings : Settings σ) (state : RunState σ) :
    (Run.settings : Run σ (Settings σ)).run settings state = .ok settings state := rfl

@[simp] theorem run_state (settings : Settings σ) (state : RunState σ) :
    (Run.state : Run σ (RunState σ)).run settings state = .ok state state := rfl

@[simp] theorem run_modify (f : RunState σ → RunState σ) (settings : Settings σ)
    (state : RunState σ) : (modify f).run settings state = .ok () (f state) := rfl

@[simp] theorem run_ofExcept_ok (result : α) (settings : Settings σ) (state : RunState σ) :
    (ofExcept (.ok result) : Run σ α).run settings state = .ok result state := rfl

@[simp] theorem run_ofExcept_error (error : Error) (settings : Settings σ) (state : RunState σ) :
    (ofExcept (.error error) : Run σ α).run settings state = .failed error state := rfl

def note (entry : JournalEntry) : Run σ Unit :=
  modify fun state => { state with journal := entry :: state.journal }

@[simp] theorem run_note (entry : JournalEntry) (settings : Settings σ) (state : RunState σ) :
    (note entry).run settings state =
      .ok () { state with journal := entry :: state.journal } := rfl

def lookup (name : String) : Run σ Value := do
  ofExcept ((← state).store.get name)

def assign (name : String) (value : Value) : Run σ Unit := do
  note (.assigned name value)
  modify fun state => { state with store := state.store.set name value }

def erase (names : List String) : Run σ Unit :=
  modify fun state => { state with store := state.store.eraseAll names }

def setCursor (cursor : Cursor) : Run σ Unit :=
  modify fun state => { state with cursor := cursor }

def emit (record : Record) : Run σ Unit := do
  note (.exported record)
  modify fun state => { state with sinks := state.sinks.map (·.add record) }

/-- Ends a block or the whole run for the sinks and writes their files. All
files are tried, and the first failure is returned. -/
def finish (extent : Extent) : Run σ (Option Error) :=
  ⟨fun _ state =>
    let (files, sinks) := Sink.finishAll state.sinks extent
    let (folder, error?) := state.folder.writeAll files
    .ok error? { state with sinks, folder }⟩

end Run

namespace RunState

variable {σ : Type}

/-- The reported failures, the oldest first. -/
def reports (state : RunState σ) : List (String × Error) :=
  state.journal.reverse.filterMap fun
    | .reported message error => some (message, error)
    | _ => none

end RunState

end ChainExtract
