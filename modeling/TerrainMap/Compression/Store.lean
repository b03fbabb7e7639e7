import TerrainMap.Compression.Checksum

/-!
Zlib streams that store their data as they are, in blocks of at most 65535
bytes.
-/

namespace TerrainMap.Compression.Store

def maxBlock : Nat := 65535

/-- Two bytes of a number, least significant first. -/
def half (n : Nat) : ByteArray := ⟨#[UInt8.ofNat n, UInt8.ofNat (n / 256)]⟩

/-- Four bytes of a number, most significant first. -/
def word (n : Nat) : ByteArray :=
  ⟨#[UInt8.ofNat (n / 16777216), UInt8.ofNat (n / 65536), UInt8.ofNat (n / 256), UInt8.ofNat n]⟩

/-- One block: whether it is the last, its length twice, the second time with
all bits turned over, and its bytes. -/
def block (isLast : Bool) (content : ByteArray) : ByteArray :=
  ⟨#[if isLast then 1 else 0]⟩ ++ half content.size ++ half (65535 - content.size) ++ content

/-- The blocks of the data from `start` on. There is always a last one. -/
def blocks (data : ByteArray) (start : Nat) : ByteArray :=
  if start + maxBlock < data.size then
    block false (data.extract start (start + maxBlock)) ++ blocks data (start + maxBlock)
  else block true (data.extract start data.size)
termination_by data.size - start
decreasing_by simp only [maxBlock] at *; omega

/-- The stream of the data: a header without a dictionary, blocks, checksum. -/
def encode (data : ByteArray) : ByteArray :=
  ⟨#[0x78, 0x01]⟩ ++ blocks data 0 ++ word (adler32 data)

end TerrainMap.Compression.Store
