import TerrainMap.Decimal

/-!
Regions are squares of 32 × 32 chunks. A region is named by its position in
the grid of regions, a chunk by its position inside its region.
-/

namespace TerrainMap

/-- Chunks along one edge of a region. -/
def regionChunks : Nat := 32

structure RegionCoord where
  x : Int
  z : Int
  deriving DecidableEq, Repr, Inhabited

namespace RegionCoord

/-- Reads a number as a signed word of 32 bits: only its low bits count. -/
def wordOfNat (n : Nat) : Int := Int.bmod n 4294967296

/-- The absolute position of a chunk, given inside its region. -/
def chunkAt (c : RegionCoord) (cx cz : Nat) : Int × Int :=
  (c.x * regionChunks + wordOfNat cx, c.z * regionChunks + wordOfNat cz)

def fileName (c : RegionCoord) : String :=
  "r." ++ Decimal.ofInt c.x ++ "." ++ Decimal.ofInt c.z ++ ".mca"

def display (c : RegionCoord) : String :=
  "(" ++ Decimal.ofInt c.x ++ ", " ++ Decimal.ofInt c.z ++ ")"

/-- Regions are ordered by `x`, and by `z` where `x` agrees. -/
def le (a b : RegionCoord) : Bool :=
  decide (a.x < b.x ∨ (a.x = b.x ∧ a.z ≤ b.z))

end RegionCoord

end TerrainMap
