import ChainExtract.Bytes

/-!
# Lossy reading of UTF-8

Every byte string is read as a text. A maximal run of bytes that begins a
character but does not finish it counts as one replacement character, and so
does every byte that can begin nothing.
-/

namespace ChainExtract.Utf8

/-- The character that stands for unreadable bytes. -/
def replacement : Char := Char.ofNat 0xFFFD

/-- What a first byte promises: the payload bits that it carries, the number
of bytes to follow, and the bounds of the first of these. -/
structure Lead where
  payload : Nat
  following : Nat
  low : UInt8
  high : UInt8

/-- What the first byte of a character promises, if it can begin one. The
bounds exclude overlong forms, surrogates and numbers past the last character. -/
def lead? (byte : UInt8) : Option Lead :=
  let n := byte.toNat
  if n < 0x80 then some ⟨n, 0, 0x80, 0xBF⟩
  else if 0xC2 ≤ n ∧ n ≤ 0xDF then some ⟨n - 0xC0, 1, 0x80, 0xBF⟩
  else if n = 0xE0 then some ⟨0, 2, 0xA0, 0xBF⟩
  else if n = 0xED then some ⟨0xD, 2, 0x80, 0x9F⟩
  else if 0xE1 ≤ n ∧ n ≤ 0xEF then some ⟨n - 0xE0, 2, 0x80, 0xBF⟩
  else if n = 0xF0 then some ⟨0, 3, 0x90, 0xBF⟩
  else if 0xF1 ≤ n ∧ n ≤ 0xF3 then some ⟨n - 0xF0, 3, 0x80, 0xBF⟩
  else if n = 0xF4 then some ⟨4, 3, 0x80, 0x8F⟩
  else none

/-- A character whose first bytes have been read: its payload so far, how
many bytes are still to follow, and the bounds of the next. -/
structure Partial where
  payload : Nat
  missing : Nat
  low : UInt8
  high : UInt8

/-- Reads on from a byte that stands where a character may begin. -/
def start (byte : UInt8) : Option Partial × List Char :=
  match lead? byte with
  | none => (none, [replacement])
  | some lead =>
    if lead.following = 0 then (none, [Char.ofNat lead.payload])
    else (some ⟨lead.payload, lead.following, lead.low, lead.high⟩, [])

/-- Reads one byte: the state after it and the characters that it settles. -/
def step (state : Option Partial) (byte : UInt8) : Option Partial × List Char :=
  match state with
  | none => start byte
  | some pending =>
    if pending.low ≤ byte ∧ byte ≤ pending.high then
      let payload := 64 * pending.payload + (byte.toNat - 0x80)
      if pending.missing = 1 then (none, [Char.ofNat payload])
      else (some ⟨payload, pending.missing - 1, 0x80, 0xBF⟩, [])
    else
      let (next, settled) := start byte
      (next, replacement :: settled)

/-- The characters that the bytes settle from a state on. A character left
unfinished at the end is unreadable. -/
def decodeFrom (state : Option Partial) : Bytes → List Char
  | [] => if state.isSome then [replacement] else []
  | byte :: rest =>
    let (next, settled) := step state byte
    settled ++ decodeFrom next rest

/-- The text of a byte string. -/
def decodeLossy (bytes : Bytes) : String := String.ofList (decodeFrom none bytes)

/-- The bytes of a text. -/
def encode (text : String) : Bytes := text.toUTF8.toList

end ChainExtract.Utf8
