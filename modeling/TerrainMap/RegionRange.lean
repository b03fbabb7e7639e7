import TerrainMap.FileTree
import TerrainMap.Region.Coord

/-!
The bounds of a list of regions: the least box that holds them all. Its upper
ends lie outside. The bounds can be written beside the tiles, as a list of four
numbers.
-/

namespace TerrainMap

structure RegionRange where
  minX : Int
  minZ : Int
  maxX : Int
  maxZ : Int
  deriving DecidableEq, Repr

/-- Why the range file was not written: no directory for it, or no file. -/
inductive RangeFileError where
  | directory (path : Path) (cause : FileError)
  | file (path : Path) (cause : FileError)
  deriving DecidableEq, Repr

def RangeFileError.message : RangeFileError → String
  | directory _ cause => cause.message
  | file path cause => "cannot write " ++ path.text ++ ": " ++ cause.message

namespace RegionRange

def ofRegion (r : RegionCoord) : RegionRange := ⟨r.x, r.z, r.x + 1, r.z + 1⟩

/-- The least box that holds both. -/
def union (a b : RegionRange) : RegionRange :=
  ⟨min a.minX b.minX, min a.minZ b.minZ, max a.maxX b.maxX, max a.maxZ b.maxZ⟩

/-- The bounds of a list of regions; an empty list has none. -/
def ofRegions? : List RegionCoord → Option RegionRange
  | [] => none
  | first :: rest => some (rest.foldl (fun range r => range.union (ofRegion r)) (ofRegion first))

def text (r : RegionRange) : String :=
  "[" ++ Decimal.ofInt r.minX ++ "," ++ Decimal.ofInt r.minZ ++ "," ++ Decimal.ofInt r.maxX
    ++ "," ++ Decimal.ofInt r.maxZ ++ "]\n"

def fileName : String := "chunk_range.json"

/-- Writes the range file into a directory, which is made if it is missing. -/
def write (r : RegionRange) (directory : Path) (t : FileTree) :
    FileTree × Except RangeFileError Path :=
  match t.createDirectories directory with
  | (t, .error cause) => (t, .error (.directory directory cause))
  | (t, .ok ()) =>
    let path := directory.join ⟨fileName⟩
    match t.write path (.bytes r.text.toUTF8) with
    | (t, .error cause) => (t, .error (.file path cause))
    | (t, .ok ()) => (t, .ok path)

end RegionRange

end TerrainMap
