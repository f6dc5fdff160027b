import ChainExtract.Bytes

/-!
# Keccak-256

The hash that names events, selects contract members and fixes the letter
case of addresses: the Keccak sponge with a rate of 136 bytes and the padding
byte `0x01`.
-/

namespace ChainExtract.Keccak

/-- The 5 × 5 lanes of the sponge; lane `(x, y)` stands at `x + 5 * y`. -/
abbrev Lanes := Vector UInt64 25

/-- The lane in column `x` and row `y`, both taken modulo five. -/
def lane (a : Lanes) (x y : Nat) : UInt64 :=
  a.get ⟨x % 5 + 5 * (y % 5), by omega⟩

/-- The lanes given column by row. -/
def tabulate (f : (x y : Nat) → UInt64) : Lanes :=
  Vector.ofFn fun i => f (i.val % 5) (i.val / 5)

/-- The word turned left by `n` bits. -/
def rotateLeft (word : UInt64) (n : Nat) : UInt64 :=
  if n % 64 = 0 then word
  else (word <<< UInt64.ofNat (n % 64)) ||| (word >>> UInt64.ofNat (64 - n % 64))

/-- The rotation of each lane, in the order of the lanes. -/
def rotations : Vector Nat 25 :=
  #v[0, 1, 62, 28, 27, 36, 44, 6, 55, 20, 3, 10, 43, 25, 39, 41, 45, 15, 21, 8, 18, 2, 61, 56, 14]

/-- The constants that tell the twenty-four rounds apart. -/
def roundConstants : List UInt64 :=
  [0x0000000000000001, 0x0000000000008082, 0x800000000000808a, 0x8000000080008000,
   0x000000000000808b, 0x0000000080000001, 0x8000000080008081, 0x8000000000008009,
   0x000000000000008a, 0x0000000000000088, 0x0000000080008009, 0x000000008000000a,
   0x000000008000808b, 0x800000000000008b, 0x8000000000008089, 0x8000000000008003,
   0x8000000000008002, 0x8000000000000080, 0x000000000000800a, 0x800000008000000a,
   0x8000000080008081, 0x8000000000008080, 0x0000000080000001, 0x8000000080008008]

/-- Adds to each lane the parities of the columns on its two sides. -/
def theta (a : Lanes) : Lanes :=
  let parity : Vector UInt64 5 := Vector.ofFn fun x =>
    lane a x 0 ^^^ lane a x 1 ^^^ lane a x 2 ^^^ lane a x 3 ^^^ lane a x 4
  let column (x : Nat) : UInt64 := parity.get ⟨x % 5, by omega⟩
  tabulate fun x y => lane a x y ^^^ column (x + 4) ^^^ rotateLeft (column (x + 1)) 1

/-- Turns each lane by its rotation and moves it to its new place. -/
def rhoPi (a : Lanes) : Lanes :=
  let turned : Lanes := a.zipWith rotateLeft rotations
  tabulate fun x y => lane turned (x + 3 * y) x

/-- Combines each lane with the next two of its row. -/
def chi (a : Lanes) : Lanes :=
  tabulate fun x y => lane a x y ^^^ (~~~ lane a (x + 1) y &&& lane a (x + 2) y)

/-- One round: the three steps, then the round's constant on the first lane. -/
def round (a : Lanes) (constant : UInt64) : Lanes :=
  let b := chi (rhoPi (theta a))
  b.set 0 (b[0] ^^^ constant)

def permute (a : Lanes) : Lanes := roundConstants.foldl round a

/-- The bytes that one application of the permutation absorbs. -/
def rate : Nat := 136

/-- The message with its padding: one byte `0x01`, zeros up to the rate, and
the highest bit of the last byte set. -/
def pad (message : Bytes) : Bytes :=
  match rate - message.length % rate with
  | 1 => message ++ [0x81]
  | free => message ++ [0x01] ++ List.replicate (free - 2) 0 ++ [0x80]

/-- Eight bytes as a lane, lowest first. -/
def laneOfBytes (bytes : Bytes) : UInt64 :=
  bytes.foldr (fun byte word => (word <<< 8) ||| byte.toUInt64) 0

/-- The eight bytes of a lane, lowest first. -/
def bytesOfLane (word : UInt64) : Bytes :=
  (List.range 8).map fun i => (word >>> UInt64.ofNat (8 * i)).toUInt8

/-- Adds one block of the padded message to the lanes. -/
def absorb (a : Lanes) (block : Bytes) : Lanes :=
  permute (Vector.ofFn fun i => a[i] ^^^ laneOfBytes ((block.drop (8 * i.val)).take 8))

/-- The blocks of a padded message, each as long as the rate. -/
def blocks (padded : Bytes) : List Bytes :=
  (List.range (padded.length / rate)).map fun i => (padded.drop (rate * i)).take rate

def hash (message : Bytes) : Word :=
  let final := (blocks (pad message)).foldl absorb (Vector.replicate 25 0)
  FixedBytes.padRight 32 ((final.toList.take 4).flatMap bytesOfLane)

/-- The hash of a text's UTF-8 bytes. -/
def hashText (text : String) : Word := hash text.toUTF8.toList

end ChainExtract.Keccak
