import TerrainMap.Chunk.Stored
import TerrainMap.FileTree
import TerrainMap.Region.Coord
import TerrainMap.Region.File

/-!
Worlds are asked for regions, and regions for chunks. A chunk may be absent; a
region or a chunk that is there may fail to load.
-/

namespace TerrainMap

inductive WorldError where
  | missingRegion (path : Path)
  | unopened (path : Path) (cause : FileError)
  | unreadable (path : Path)
  | badScheme (path : Path) (scheme : Nat)
  | badPosition (path : Path) (x z : Nat)
  | decode (cx cz : Nat) (cause : Chunk.DecodeError)
  deriving DecidableEq, Repr

namespace WorldError

/-- States a fault in the region file at a path. -/
def ofRegionFault (path : Path) : RegionFault → WorldError
  | .unknownScheme scheme => badScheme path scheme
  | .outside x z => badPosition path x z
  | .unreadable => unreadable path

def message : WorldError → String
  | missingRegion path => "region file not found: " ++ path.text
  | unopened path cause => "cannot read " ++ path.text ++ ": " ++ cause.message
  | unreadable path => "unreadable region " ++ path.text ++ ": corrupt or incomplete data"
  | badScheme path scheme =>
    "unreadable region " ++ path.text ++ ": compression scheme (" ++ Nat.repr scheme
      ++ ") was not recognised for chunk"
  | badPosition path x z =>
    "unreadable region " ++ path.text ++ ": invalid offset: x = " ++ Nat.repr x ++ ", z = "
      ++ Nat.repr z
  | decode cx cz cause =>
    "corrupt chunk (" ++ Nat.repr cx ++ ", " ++ Nat.repr cz ++ "): " ++ cause.message

end WorldError

/-- An opened region. Chunks are asked for by their position inside it. -/
structure RegionHandle where
  coord : RegionCoord
  chunk : Nat → Nat → Attempt WorldError (Option ChunkView)

structure WorldStore where
  openRegion : RegionCoord → Except WorldError RegionHandle

end TerrainMap
