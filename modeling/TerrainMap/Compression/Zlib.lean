import TerrainMap.Compression.Checksum
import TerrainMap.Compression.Inflate

/-!
Streams in zlib's framing: a header of two bytes, a deflate stream, and a
checksum. A stream that merely ends too early counts as far as it goes.
-/

namespace TerrainMap.Compression.Zlib

/-- The header names the method and the window, and is divisible by 31. A
preset dictionary is not supported. -/
def validHeader (method flags : Nat) : Bool :=
  (method * 256 + flags) % 31 == 0 && flags / 32 % 2 == 0 && method % 16 == 8
    && method / 16 ≤ 7

/-- The number in the four bytes from `at` on, most significant first. -/
def bigEndian32 (data : ByteArray) (start : Nat) : Nat :=
  ((data.extract start (start + 4)).foldl (fun n b => n * 256 + b.toNat) 0)

/-- Decompresses a stream, or nothing where it is corrupt or does not end where
the data ends. -/
def decode (data : ByteArray) : Option ByteArray :=
  if h : data.size < 2 then some ByteArray.empty
  else if !validHeader data[0].toNat data[1].toNat then none
  else
    let inflated := inflate data 2
    match inflated.ending with
    | .error .truncated => some inflated.output
    | .error .corrupt => none
    | .ok position =>
      let trailer := nextByte position
      if data.size < trailer + 4 then some inflated.output
      else if data.size = trailer + 4 ∧ bigEndian32 data trailer = adler32 inflated.output then
        some inflated.output
      else none

end TerrainMap.Compression.Zlib
