import TerrainMap.Compression.Checksum
import TerrainMap.Compression.Inflate

/-!
Streams in gzip's framing: a header with optional parts, a deflate stream, and
a checksum with the length. Such a stream must be complete.
-/

namespace TerrainMap.Compression.Gzip

/-- The byte at a position, which is zero behind the end. -/
def byteAt (data : ByteArray) (position : Nat) : UInt8 :=
  if h : position < data.size then data[position] else 0

/-- The number in `width` bytes from `start` on, least significant first. -/
def littleEndian (data : ByteArray) (start : Nat) : Nat → Nat
  | 0 => 0
  | width + 1 => (byteAt data start).toNat + 256 * littleEndian data (start + 1) width

/-- The position behind the next zero byte, looked for in `count` bytes. -/
def behindZero? (data : ByteArray) (start : Nat) : Nat → Option Nat
  | 0 => none
  | count + 1 =>
    if data.size ≤ start then none
    else if byteAt data start = 0 then some (start + 1)
    else behindZero? data (start + 1) count

def flagged (flags bit : Nat) : Bool := flags >>> bit % 2 == 1

def maxTextLength : Nat := 65535

/-- Passes over a text that ends in a zero byte, if it is announced. -/
def skipText (announced : Bool) (data : ByteArray) (start : Nat) : Option Nat :=
  if announced then behindZero? data start (maxTextLength + 1) else some start

def skipExtra (announced : Bool) (data : ByteArray) (start : Nat) : Option Nat :=
  if announced then
    let behind := start + 2 + littleEndian data start 2
    if data.size < start + 2 ∨ data.size < behind then none else some behind
  else some start

def skipHeaderChecksum (announced : Bool) (data : ByteArray) (start : Nat) : Option Nat :=
  if announced then
    if data.size < start + 2 then none
    else if littleEndian data start 2 = (crc32 (data.extract 0 start)).toNat % 65536 then
      some (start + 2)
    else none
  else some start

def headerEnd? (data : ByteArray) : Option Nat :=
  if data.size < 10 ∨ littleEndian data 0 3 ≠ 0x088B1F then none
  else
    let flags := (byteAt data 3).toNat
    if 32 ≤ flags then none
    else do
      let position ← skipExtra (flagged flags 2) data 10
      let position ← skipText (flagged flags 3) data position
      let position ← skipText (flagged flags 4) data position
      skipHeaderChecksum (flagged flags 1) data position

/-- Decompresses a stream, or nothing where any part of it is wrong or missing
or where bytes follow it. -/
def decode (data : ByteArray) : Option ByteArray := do
  let start ← headerEnd? data
  let inflated := inflate data start
  match inflated.ending with
  | .error _ => none
  | .ok position =>
    let trailer := nextByte position
    if data.size = trailer + 8
        ∧ littleEndian data trailer 4 = (crc32 inflated.output).toNat
        ∧ littleEndian data (trailer + 4) 4 = inflated.output.size % 4294967296 then
      some inflated.output
    else none

end TerrainMap.Compression.Gzip
