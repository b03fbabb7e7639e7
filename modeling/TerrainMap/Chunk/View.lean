import TerrainMap.Block

/-!
What a map needs to know of a chunk: the block at each position. A chunk is 16
blocks wide and deep and 256 blocks high.
-/

namespace TerrainMap

/-- Blocks along either horizontal edge of a chunk. -/
def chunkEdge : Nat := 16

/-- Blocks from the bottom of the world to its top. -/
def worldHeight : Nat := 256

/-- Gives the name of the block at `x`, `y`, `z`, where `y` counts upward. -/
structure ChunkView where
  blockId : Nat → Nat → Nat → String

end TerrainMap
