import Mathlib.Data.List.Induction
import TerrainMap.World.Memory

/-!
Worlds in memory, told from how they were filled. What stands at a position is
what was put there last; a region reads its chunks at the absolute positions
that they have in the world.
-/

namespace TerrainMap

/-- One thing that a world was filled with. -/
inductive Insertion where
  | chunk (x z : Int) (c : Chunk.PaintedChunk)
  | corrupt (x z : Int)

namespace Insertion

def place : Insertion → Int × Int
  | chunk x z _ => (x, z)
  | corrupt x z => (x, z)

def entry : Insertion → MemoryEntry
  | chunk _ _ c => .chunk c
  | corrupt _ _ => .corrupt

end Insertion

/-- What was put at a position last, if anything was. -/
def lastAt (insertions : List Insertion) (x z : Int) : Option MemoryEntry :=
  (insertions.reverse.find? fun i => i.place = (x, z)).map Insertion.entry

/-- The chunk that was put at a position last, unless the position was marked
corrupt since. -/
def chunkAt? (insertions : List Insertion) (x z : Int) : Option ChunkView :=
  match lastAt insertions x z with
  | some (.chunk c) => some c.view
  | _ => none

def IsCorrupt (insertions : List Insertion) (x z : Int) : Prop :=
  lastAt insertions x z = some .corrupt

theorem mem_of_isCorrupt {insertions : List Insertion} {x z : Int}
    (h : IsCorrupt insertions x z) : .corrupt x z ∈ insertions := by
  simp only [IsCorrupt, lastAt, Option.map_eq_some_iff] at h
  obtain ⟨i, hfound, hentry⟩ := h
  have hmem := List.mem_reverse.mp (List.mem_of_find?_eq_some hfound)
  have hplace := List.find?_some hfound
  cases i with
  | chunk x' z' c => cases hentry
  | corrupt x' z' =>
      simp only [Insertion.place, Prod.mk.injEq, decide_eq_true_eq] at hplace
      obtain ⟨rfl, rfl⟩ := hplace
      exact hmem

namespace MemoryWorld

def put (w : MemoryWorld) : Insertion → MemoryWorld
  | .chunk x z c => w.insertChunk x z c
  | .corrupt x z => w.insertCorrupt x z

def ofInsertions (insertions : List Insertion) : MemoryWorld := insertions.foldl put empty

theorem entries_put (w : MemoryWorld) (i : Insertion) :
    (w.put i).entries = w.entries.insert i.place i.entry := by
  cases i with
  | chunk x z c => rfl
  | corrupt x z => rfl

theorem entries_ofInsertions (insertions : List Insertion) (x z : Int) :
    (ofInsertions insertions).entries[(x, z)]? = lastAt insertions x z := by
  induction insertions using List.reverseRecOn with
  | nil => simp [ofInsertions, empty, lastAt]
  | append_singleton before last ih =>
      simp only [ofInsertions, lastAt, List.foldl_append, List.foldl_cons, List.foldl_nil,
        List.reverse_append, List.reverse_cons, List.reverse_nil, List.nil_append,
        List.singleton_append, List.find?_cons] at ih ⊢
      rw [entries_put, Std.HashMap.getElem?_insert]
      by_cases hplace : last.place = (x, z)
      · simp [hplace]
      · simp [hplace, ih]

theorem chunkAt_eq (coord : RegionCoord) {cx cz : Nat} (hx : cx < regionChunks)
    (hz : cz < regionChunks) :
    coord.chunkAt cx cz = (coord.x * regionChunks + cx, coord.z * regionChunks + cz) := by
  have hword {n : Nat} (hn : n < regionChunks) : RegionCoord.wordOfNat n = n := by
    simp only [regionChunks] at hn
    unfold RegionCoord.wordOfNat
    exact Int.bmod_eq_of_le (by omega) (by omega)
  rw [RegionCoord.chunkAt, hword hx, hword hz]

section Reading

variable {insertions : List Insertion} {coord : RegionCoord} {cx cz : Nat}
  (hx : cx < regionChunks) (hz : cz < regionChunks)
include hx hz

/-- A region reads what was put last at the absolute position of a chunk. -/
theorem chunk_of_not_isCorrupt
    (h : ¬ IsCorrupt insertions (coord.x * regionChunks + cx) (coord.z * regionChunks + cz)) :
    ((ofInsertions insertions).openRegion coord).chunk cx cz =
      .ok (chunkAt? insertions (coord.x * regionChunks + cx) (coord.z * regionChunks + cz)) := by
  simp only [openRegion, loadChunk, chunkAt_eq coord hx hz, entries_ofInsertions, chunkAt?,
    IsCorrupt] at h ⊢
  rcases hlast : lastAt insertions (coord.x * regionChunks + cx) (coord.z * regionChunks + cz) with
    _ | (c | _)
  · rfl
  · rfl
  · exact absurd hlast h

theorem chunk_of_isCorrupt
    (h : IsCorrupt insertions (coord.x * regionChunks + cx) (coord.z * regionChunks + cz)) :
    ((ofInsertions insertions).openRegion coord).chunk cx cz =
      .fail (.decode cx cz .markedCorrupt) := by
  simp only [IsCorrupt] at h
  simp only [openRegion, loadChunk, chunkAt_eq coord hx hz, entries_ofInsertions, h]
  rfl

end Reading

end MemoryWorld

end TerrainMap
