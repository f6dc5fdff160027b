import ChainExtract.Filter.Window
import ChainExtract.Run.Report
import ChainExtract.Run.Request

/-!
# Ranges of blocks

The blocks of a range are visited in ascending order. A block is confirmed if
its parent is the block visited before; if it is not, the blocks below it are
asked for again, back to one whose parent is remembered, and visited anew from
there.
-/

namespace ChainExtract.BlockRange

variable {σ : Type}

/-- Asks for a block and, while its parent is not the newest remembered
block, gives that one up and asks for the block below. The block found is
remembered. Nothing is known about a block below a truncated window. -/
def confirm (window : Window) (number : Int) : Run σ (Block × Window) := do
  let block ← Run.blockOf number
  match h : window.blocks with
  | [] =>
    -- there are older blocks, but whether the parent is among them cannot be told
    if window.truncated then Run.fail (.discontinuity number window.capacity)
    else return (block, window.push (number, block.hash))
  | (known, hash) :: _ =>
    if hash = block.parentHash then return (block, window.push (number, block.hash))
    else do
      Run.note (.withdrawn known hash)
      confirm window.pop (number - 1)
termination_by window.blocks.length
decreasing_by simp [Window.pop, h]

/-- Visits a confirmed block: runs the body with the cursor on the block, then
ends the block for the sinks. -/
def visit (body : Run σ Unit) (block : Block) : Run σ Unit := do
  let number := Numeral.decimal block.number
  Run.note (.delivered block)
  Run.setCursor (.atBlock block)
  let outcome ← Run.attempt do
    Run.conclude s!"error processing block {number}" (← body.attempt)
    let failure? ← Run.finish (.block block.number)
    Run.conclude s!"error exporting block {number}" (failure?.elim (.ok ()) .error)
  Run.setCursor .empty
  Run.ofExcept outcome

/-- Whether a block lies beyond the last of a range. -/
def isBeyond (last : Option Int) (number : Int) : Bool := last.any (· < number)

/-- Waits until the chain has reached a number and confirms its block. How that
ended is told as a value. -/
def fetch (window : Window) (next : Int) : Run σ (Except Error (Block × Window)) :=
  Run.attempt do
    Run.waitFor next (← Run.settings).patience
    confirm window next

/-- The words in which a block that cannot be had is reported. -/
def retrievalMessage (number : Int) : String :=
  s!"error retrieving block {Numeral.decimal number}"

/-- One turn of the visits: visits the block that comes next and returns the
window and the number to go on with. A block that cannot be had is reported
and left out, and what was known about earlier blocks is forgotten; a
reorganization below everything that is known ends the range. -/
def turn (body : Run σ Unit) (window : Window) (next : Int) : Run σ (Window × Int) := do
  match ← fetch window next with
  | .ok (block, window) =>
    visit body block
    -- a walk back makes the range go on from the block it ended at
    return (window, block.number + 1)
  | .error (.discontinuity number depth) =>
    -- a lost chain ends the range even if failures are to be passed over
    let error := Error.discontinuity number depth
    Run.report "cannot continue extracting blocks" error
    Run.fail (.aborted error)
  | .error error =>
    Run.settle (retrievalMessage next) error
    return (window.reset, next + 1)

/-- Visits the blocks from `next` on, turn by turn. -/
def visitFrom (body : Run σ Unit) (last : Option Int) :
    (patience : Nat) → Window → (next : Int) → Run σ Unit
  | patience, window, next => do
    if isBeyond last next then return
    match patience with
    | 0 => Run.giveUp
    | patience + 1 =>
      let (window, next) ← turn body window next
      visitFrom body last patience window next

/-- A bound of a range, which must be an integer. -/
def bound (value : Value) : Except Error Int :=
  match value with
  | .int number => .ok number
  | value =>
    .error (.invalidParameters "block range" s!"block numbers must be integers, got {value.text}")

/-- The upper bound of a range, which may be missing. -/
def bound? : Option Value → Except Error (Option Int)
  | none => .ok none
  | some value => some <$> bound value

/-- Visits the blocks of a range. -/
def visitAll (body : Run σ Unit) (first : Int) (last : Option Int) : Run σ Unit := do
  visitFrom body last (← Run.settings).patience { capacity := Window.rangeCapacity } first

end ChainExtract.BlockRange
