import TerrainMap.Compression.Store
import TerrainMap.Raster

/-!
PNG images of rasters: three channels of eight bits, without interlacing. Rows
are neither filtered nor compressed.
-/

namespace TerrainMap.Png

open Compression

def signature : ByteArray := ⟨#[0x89, 0x50, 0x4E, 0x47, 0x0D, 0x0A, 0x1A, 0x0A]⟩

/-- A part of the image: its length, name, content, and the checksum of name
and content. -/
def part (name : String) (content : ByteArray) : ByteArray :=
  let named := name.toUTF8 ++ content
  Store.word content.size ++ named ++ Store.word (crc32 named).toNat

/-- Width, height, eight bits, three channels, and no choice in the rest. -/
def header (r : Raster) : ByteArray :=
  Store.word r.width ++ Store.word r.height ++ ⟨#[8, 2, 0, 0, 0]⟩

/-- A row with the number of its filter in front. -/
def rowBytes (r : Raster) (y : Nat) : ByteArray :=
  ⟨#[0] ++ r.data.extract (r.index 0 y) (r.index 0 (y + 1))⟩

def rows (r : Raster) : ByteArray :=
  (List.range r.height).foldl (fun out y => out ++ rowBytes r y) ByteArray.empty

def encode (r : Raster) : ByteArray :=
  signature ++ part "IHDR" (header r) ++ part "IDAT" (Store.encode (rows r))
    ++ part "IEND" ByteArray.empty

end TerrainMap.Png
