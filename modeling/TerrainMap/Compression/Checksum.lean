/-!
Checksums of byte strings.
-/

namespace TerrainMap.Compression

/-- The two running sums of Adler-32, modulo the largest prime below 65536. -/
def adlerStep (sums : Nat × Nat) (b : UInt8) : Nat × Nat :=
  let low := (sums.1 + b.toNat) % 65521
  (low, (sums.2 + low) % 65521)

def adler32 (data : ByteArray) : Nat :=
  let (low, high) := data.foldl adlerStep (1, 0)
  high * 65536 + low

def crcBit (remainder : UInt32) : UInt32 :=
  if remainder &&& 1 = 1 then (remainder >>> 1) ^^^ 0xEDB88320 else remainder >>> 1

def crcStep (remainder : UInt32) (b : UInt8) : UInt32 :=
  (List.range 8).foldl (fun r _ => crcBit r) (remainder ^^^ b.toUInt32)

def crc32 (data : ByteArray) : UInt32 :=
  (data.foldl crcStep 0xFFFFFFFF) ^^^ 0xFFFFFFFF

end TerrainMap.Compression
