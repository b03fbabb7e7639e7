import TerrainMap.Chunk.View

/-!
Columns seen from above. A scan goes down a column of blocks to the first one
that is not looked through.
-/

namespace TerrainMap

/-- What a column shows: a block with its elevation, or nothing at all. -/
inductive Column where
  | block (id : String) (elevation : Int)
  | empty
  deriving DecidableEq, Repr

/-- How a column is scanned. Under `nether` the scan starts below the ceiling
of the world, and passes over solid blocks until it has met a transparent one. -/
inductive ScanPolicy where
  | overworld
  | nether
  deriving DecidableEq, Repr

namespace ScanPolicy

def netherCeiling : Nat := 127

/-- The number of heights that are scanned, counted from the bottom. -/
def heights : ScanPolicy → Nat
  | overworld => worldHeight
  | nether => netherCeiling + 1

def startsOpen : ScanPolicy → Bool
  | overworld => true
  | nether => false

end ScanPolicy

namespace Column

/-- Scans the heights below `height` downward. `isOpen` tells whether a
transparent block was met above. -/
def scanBelow (chunk : ChunkView) (x z : Nat) (isOpen : Bool) : (height : Nat) → Column
  | 0 => empty
  | y + 1 =>
    let id := chunk.blockId x y z
    if Block.isTransparent id then scanBelow chunk x z true y
    else if isOpen then block id y
    else scanBelow chunk x z false y

def resolve (chunk : ChunkView) (x z : Nat) (policy : ScanPolicy) : Column :=
  scanBelow chunk x z policy.startsOpen policy.heights

end Column

end TerrainMap
