import TerrainMap.FileTree
import TerrainMap.Log
import TerrainMap.Region.FileName

/-!
Discovery of the region files in a directory. What is no file, or has no name
of a region file, is passed over.
-/

namespace TerrainMap.Discovery

/-- The region that an entry of a directory holds, if it is a region file. -/
def regionOf? (t : FileTree) (directory : Path) (name : String) : Option RegionCoord :=
  let path := directory.join ⟨name⟩
  if t.isFile path then RegionCoord.ofPath? path else none

def regionsAmong (t : FileTree) (directory : Path) (names : List String) : List RegionCoord :=
  (names.filterMap (regionOf? t directory)).mergeSort RegionCoord.le

def skippedLine (directory : Path) (name : String) : LogLine :=
  ⟨.info, "skipping " ++ (directory.join ⟨name⟩).text ++ ": not a region file"⟩

def skippedLines (t : FileTree) (directory : Path) (names : List String) : List LogLine :=
  (names.filter fun name => (regionOf? t directory name).isNone).map (skippedLine directory)

/-- The regions in a directory, and the lines for all other entries. -/
def discover (t : FileTree) (directory : Path) :
    Except FileError (List RegionCoord × List LogLine) := do
  let names ← t.list directory
  return (regionsAmong t directory names, skippedLines t directory names)

end TerrainMap.Discovery
