import TerrainMap.Path
import TerrainMap.Region.Coord

/-!
Region file names carry the position of their region: `r.`, two signed
numbers with a dot between them, and `.mca`. A name that is no text could not be
one of them, and would be passed over like any other name.
-/

namespace TerrainMap.RegionCoord

def splitAtDot? (chars : List Char) : Option (List Char × List Char) :=
  match chars.dropWhile (· != '.') with
  | [] => none
  | _ :: rest => some (chars.takeWhile (· != '.'), rest)

/-- Reads a file name of the form `r.<x>.<z>.mca`. -/
def ofFileName? (name : String) : Option RegionCoord := do
  let inner ← "r.".toList.isPrefixOf? name.toList
  let numbers ← ".mca".toList.isSuffixOf? inner
  let (x, z) ← splitAtDot? numbers
  return ⟨← Decimal.readInt32? x, ← Decimal.readInt32? z⟩

def ofPath? (p : Path) : Option RegionCoord :=
  p.fileName?.bind ofFileName?

example : ofFileName? "r.-3.12.mca" = some ⟨-3, 12⟩ := by decide
example : ofFileName? "r.+1.-0.mca" = some ⟨1, 0⟩ := by decide
example : ofFileName? "r.1.mca" = none := by decide
example : ofFileName? "r.1.2.3.mca" = none := by decide
example : ofFileName? "r.2147483648.0.mca" = none := by decide

end TerrainMap.RegionCoord
