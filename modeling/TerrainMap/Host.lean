import TerrainMap.Chunk.Stored
import TerrainMap.Path
import TerrainMap.Raster
import TerrainMap.Region.File

/-!
What a run takes from outside of it: threads from the system, and from libraries
the reading of region files and of chunks and the encoding of images. A run is
the same program on every host.
-/

namespace TerrainMap

/-- The chunks of an opened region file, by their positions. -/
abbrev ChunkReader := Nat → Nat → Except RegionFault (Option ByteArray)

structure Host where
  /-- Why so many threads cannot be started, if they cannot. -/
  threadFault? : Nat → Option String
  /-- Opens a region file that is made of these bytes. -/
  openRegion? : ByteArray → Option ChunkReader
  /-- Reads the tags of a chunk. -/
  readChunk : List UInt8 → Attempt Nbt.Fault Chunk.Record
  /-- Why an image cannot be made for a path, if it cannot. -/
  encodingFault? : Raster → Path → Option String

namespace Host

/-- The readers of this library, on a system that refuses nothing. -/
def own : Host where
  threadFault? _ := none
  openRegion? data := (RegionFile.ofBytes? data).map RegionFile.chunk?
  readChunk := Chunk.Record.ofBytes
  encodingFault? _ _ := none

end Host

end TerrainMap
