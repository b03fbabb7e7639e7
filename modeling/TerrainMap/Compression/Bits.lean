/-!
Bits of a byte string, counted from the lowest bit of the first byte. A
position in a compressed stream is a number of bits.
-/

namespace TerrainMap.Compression

/-- Why a stream gives no further output: its bytes end too early, or they are
not what a compressor writes. -/
inductive StreamFault where
  | truncated
  | corrupt
  deriving DecidableEq, Repr

def bit? (data : ByteArray) (position : Nat) : Option Nat :=
  if h : position / 8 < data.size then
    some ((data[position / 8].toNat >>> (position % 8)) % 2)
  else none

/-- The number in the `width` bits from `position` on, lowest bit first. -/
def bits (data : ByteArray) (position : Nat) : Nat → Except StreamFault Nat
  | 0 => .ok 0
  | width + 1 => do
    match bit? data position with
    | none => throw .truncated
    | some low => return low + 2 * (← bits data (position + 1) width)

/-- The position of the first whole byte at or after a position. -/
def nextByte (position : Nat) : Nat := (position + 7) / 8

end TerrainMap.Compression
