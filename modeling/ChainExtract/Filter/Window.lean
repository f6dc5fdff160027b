import ChainExtract.Bytes

/-!
# The window of known blocks

The numbers and hashes of the blocks visited last. The window has a capacity;
once a block had to be forgotten for a newer one it counts as truncated,
until it is reset.
-/

namespace ChainExtract

/-- A remembered block: the number under which it was asked for, and its hash. -/
abbrev KnownBlock := Int × Word

/-- The blocks visited last. -/
structure Window where
  capacity : Nat
  /-- The remembered blocks, the newest first. -/
  blocks : List KnownBlock := []
  /-- Whether a block had to be forgotten. -/
  truncated : Bool := false
deriving DecidableEq

namespace Window

/-- The number of blocks that a range remembers. -/
def rangeCapacity : Nat := 30

/-- Remembers a block, and forgets the oldest if the window is full. -/
def push (window : Window) (block : KnownBlock) : Window :=
  if window.blocks.length = window.capacity then
    { window with blocks := block :: window.blocks.dropLast, truncated := true }
  else { window with blocks := block :: window.blocks }

/-- The block remembered last. -/
def last? (window : Window) : Option KnownBlock := window.blocks.head?

/-- Gives up the block remembered last. -/
def pop (window : Window) : Window := { window with blocks := window.blocks.tail }

/-- Forgets all blocks, and that any had to be forgotten. -/
def reset (window : Window) : Window := { window with blocks := [], truncated := false }

/-- The number of remembered blocks. -/
def size (window : Window) : Nat := window.blocks.length

end Window

end ChainExtract
