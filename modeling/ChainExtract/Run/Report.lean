import ChainExtract.Run.Basic

/-!
# Reports

A failure is reported where it was met: it enters the journal and the error
log. The settings decide whether the run goes on; if not, the failure passes
outward as an abort, which is not reported again.
-/

namespace ChainExtract

def errorLogName : String := "error.log"

namespace Run

variable {σ : Type}

def logLine (stamp message : String) (error : Error) : String :=
  stamp ++ " " ++ message ++ ": " ++ error.description ++ "\n"

def report (message : String) (error : Error) : Run σ Unit := do
  note (.reported message error)
  let line := logLine (← settings).stamp message error
  modify fun state => { state with folder := state.folder.append errorLogName line }

/-- Reports a failure of something nested, unless it was reported before.
Ends with an abort if the run must stop. -/
def settle (message : String) (error : Error) : Run σ Unit := do
  if error.isAborted then fail error
  report message error
  if (← settings).abortOnFailure then fail (.aborted error)

/-- Concludes something nested: settles its failure, if it ended in one. -/
def conclude (message : String) : Except Error Unit → Run σ Unit
  | .ok () => pure ()
  | .error error => settle message error

end Run

end ChainExtract
