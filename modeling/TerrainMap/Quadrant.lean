import TerrainMap.Region.Coord
import TerrainMap.Tile

/-!
Quadrants: every region is shown in four tiles of 16 × 16 chunks. Tiles have
positions of their own, in a grid twice as fine as that of the regions.
-/

namespace TerrainMap

/-- A quarter of a region; either offset is 0 or 1. -/
structure Quadrant where
  region : RegionCoord
  offsetX : Nat
  offsetZ : Nat
  deriving DecidableEq, Repr

namespace Quadrant

/-- The four quadrants of a region, in ascending order. -/
def all (region : RegionCoord) : List Quadrant :=
  [⟨region, 0, 0⟩, ⟨region, 0, 1⟩, ⟨region, 1, 0⟩, ⟨region, 1, 1⟩]

def tile (q : Quadrant) : TileSpec := TileSpec.quadrant q.offsetX q.offsetZ

/-- The position in the grid of tiles. -/
def tileCoord (q : Quadrant) : Int × Int :=
  (Word.signed (q.region.x * 2 + q.offsetX), Word.signed (q.region.z * 2 + q.offsetZ))

def outputName (q : Quadrant) : String :=
  Decimal.ofInt q.tileCoord.1 ++ "," ++ Decimal.ofInt q.tileCoord.2 ++ ".png"

def display (q : Quadrant) : String :=
  "r." ++ Decimal.ofInt q.region.x ++ "." ++ Decimal.ofInt q.region.z ++ " +"
    ++ Decimal.ofNat q.offsetX ++ "," ++ Decimal.ofNat q.offsetZ

/-- Quadrants are ordered by their regions, then by their offsets. -/
def le (a b : Quadrant) : Bool :=
  if a.region = b.region then
    decide (a.offsetX < b.offsetX ∨ (a.offsetX = b.offsetX ∧ a.offsetZ ≤ b.offsetZ))
  else a.region.le b.region

end Quadrant

end TerrainMap
