import Std.Data.HashMap
import TerrainMap.Chunk.Painted
import TerrainMap.World.Store

/-!
Worlds held in memory, by the absolute positions of their chunks. An opened
region keeps the world as it was when it was opened.
-/

namespace TerrainMap

/-- What stands at the position of a chunk. -/
inductive MemoryEntry where
  | chunk (c : Chunk.PaintedChunk)
  | corrupt

structure MemoryWorld where
  entries : Std.HashMap (Int × Int) MemoryEntry

namespace MemoryWorld

def empty : MemoryWorld := ⟨∅⟩

/-- Puts an entry at an absolute chunk position, in the place of an earlier one. -/
def insert (w : MemoryWorld) (x z : Int) (entry : MemoryEntry) : MemoryWorld :=
  ⟨w.entries.insert (x, z) entry⟩

def insertChunk (w : MemoryWorld) (x z : Int) (c : Chunk.PaintedChunk) : MemoryWorld :=
  w.insert x z (.chunk c)

def insertCorrupt (w : MemoryWorld) (x z : Int) : MemoryWorld := w.insert x z .corrupt

def size (w : MemoryWorld) : Nat := w.entries.size

def isEmpty (w : MemoryWorld) : Bool := w.entries.isEmpty

def loadChunk (w : MemoryWorld) (coord : RegionCoord) (cx cz : Nat) :
    Attempt WorldError (Option Chunk.PaintedChunk) :=
  match w.entries[coord.chunkAt cx cz]? with
  | some (.chunk c) => .ok (some c)
  | some .corrupt => .fail (.decode cx cz .markedCorrupt)
  | none => .ok none

def openRegion (w : MemoryWorld) (coord : RegionCoord) : RegionHandle :=
  ⟨coord, fun cx cz => (w.loadChunk coord cx cz).map (·.map Chunk.PaintedChunk.view)⟩

def store (w : MemoryWorld) : WorldStore := ⟨fun coord => .ok (w.openRegion coord)⟩

end MemoryWorld

end TerrainMap
