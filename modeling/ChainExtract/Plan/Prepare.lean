import ChainExtract.Plan.Compile

/-!
# Preparation

What a plan needs before it runs: its program, its sinks, and the state at the
beginning of the run.
-/

namespace ChainExtract

/-- The state at the beginning of a run that writes into a folder, if the
folder exists. -/
def RunState.start {σ : Type} (chain : σ) (path : String) (folder : Option Folder) :
    Except Error (RunState σ) :=
  match folder with
  | some folder => .ok { chain, folder }
  | none => .error (.configuration s!"output folder '{path}' does not exist")

namespace Plan

/-- The program of a plan and the state in which it begins. A missing folder
is found before the plan is compiled. -/
def prepare {σ : Type} (plan : Plan) (chain : σ) (path : String) (folder : Option Folder) :
    Except CompileError (Program Empty × RunState σ) := do
  let state ← (RunState.start chain path folder).mapError .refused
  let program ← plan.compile Library.standard
  return (program, { state with sinks := plan.sinks })

end Plan

/-- Runs a program that has the standard instructions only. -/
def Program.runPlain {σ : Type} (program : Program Empty) : Run σ Unit :=
  Program.run Empty.elim program

end ChainExtract
