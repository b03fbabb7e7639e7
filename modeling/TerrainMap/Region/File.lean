import TerrainMap.Compression.Gzip
import TerrainMap.Compression.Zlib

/-!
Region files. The file begins with a table of one entry per chunk: the number
of the sector at which the chunk begins, in three bytes, and a count of
sectors, which is not needed. At the chunk's sector stand the length of what
follows, the number of the compression scheme, and the compressed chunk.
-/

namespace TerrainMap

/-- Why a chunk cannot be taken out of a region file. -/
inductive RegionFault where
  | unknownScheme (scheme : Nat)
  | outside (x z : Nat)
  | unreadable
  deriving DecidableEq, Repr

/-- The bytes of a region file that has a whole table. -/
structure RegionFile where
  data : ByteArray

namespace RegionFile

/-- Bytes of the table, and of each sector. -/
def sectorSize : Nat := 4096

def ofBytes? (data : ByteArray) : Option RegionFile :=
  if data.size < sectorSize then none else some ⟨data⟩

/-- The number in the `count` bytes from `start` on, most significant first. -/
def number (f : RegionFile) (start count : Nat) : Nat :=
  (f.data.extract start (start + count)).foldl (fun n b => n * 256 + b.toNat) 0

/-- Where the table has its entry for a chunk. -/
def entryStart (cx cz : Nat) : Nat := 4 * (cx + 32 * cz)

def decompress (scheme : Nat) (payload : ByteArray) : Except RegionFault ByteArray :=
  let demand (result : Option ByteArray) :=
    match result with
    | some data => Except.ok data
    | none => .error .unreadable
  match scheme with
  | 1 => demand (Compression.Gzip.decode payload)
  | 2 => demand (Compression.Zlib.decode payload)
  | 3 => .ok payload
  | _ => .error (.unknownScheme scheme)

/-- The decompressed bytes of a chunk, or nothing where the table has no entry
for it. The length counts the byte of the scheme, and a payload that is cut off
by the end of the file ends there. -/
def chunk? (f : RegionFile) (cx cz : Nat) : Except RegionFault (Option ByteArray) :=
  if 32 ≤ cx ∨ 32 ≤ cz then .error (.outside cx cz)
  else if f.number (entryStart cx cz) 4 = 0 then .ok none
  else
    let start := f.number (entryStart cx cz) 3 * sectorSize
    if f.data.size < start + 5 then .error .unreadable
    else
      let length := (f.number start 4 + 4294967295) % 4294967296
      let payload := f.data.extract (start + 5) (start + 5 + length)
      (decompress (f.number (start + 4) 1) payload).map some

end RegionFile

end TerrainMap
