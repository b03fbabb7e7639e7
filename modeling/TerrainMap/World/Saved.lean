import TerrainMap.Host
import TerrainMap.World.Store

/-!
Worlds kept in region files. The source is a directory of region files named
by their positions, or a single region file that stands for whatever region is
asked for.
-/

namespace TerrainMap.SavedWorld

def regionPath (t : FileTree) (source : Path) (coord : RegionCoord) : Path :=
  if t.isDirectory source then source.join ⟨coord.fileName⟩ else source

/-- Loads a chunk from a region file that was found at `path`. -/
def loadChunk (host : Host) (path : Path) (read : ChunkReader) (cx cz : Nat) :
    Attempt WorldError (Option Chunk.StoredChunk) :=
  match read cx cz with
  | .error fault => .fail (.ofRegionFault path fault)
  | .ok none => .ok none
  | .ok (some data) =>
    ((Chunk.StoredChunk.decode host.readChunk data.toList).mapCause (.decode cx cz)).map some

/-- Opens the region file at a path. A directory can be opened, but it has no
bytes to read. -/
def openFile (host : Host) (t : FileTree) (path : Path) : Except WorldError ChunkReader :=
  match t.lookup path with
  | .error .notFound => .error (.missingRegion path)
  | .error cause => .error (.unopened path cause)
  | .ok (.file (.bytes data)) =>
    match host.openRegion? data with
    | some read => .ok read
    | none => .error (.unreadable path)
  | .ok _ => .error (.unreadable path)

def openRegion (host : Host) (t : FileTree) (source : Path) (coord : RegionCoord) :
    Except WorldError RegionHandle := do
  let path := regionPath t source coord
  let read ← openFile host t path
  return ⟨coord, fun cx cz => (loadChunk host path read cx cz).map (·.map Chunk.StoredChunk.view)⟩

def store (host : Host) (t : FileTree) (source : Path) : WorldStore := ⟨openRegion host t source⟩

end TerrainMap.SavedWorld
