import TerrainMap.Proofs.World.Atlas

/-!
The slots of regions, and the positions of a world that they read. Regions that
can be named cut the positions of signed words of 32 bits into squares, so that
each position is read in one slot and no other.
-/

namespace TerrainMap

namespace MemoryWorld

/-- What a region answers about the entry of a chunk, given where the chunk lies
in the region. -/
def answer (cx cz : Nat) : Option MemoryEntry → Attempt WorldError (Option ChunkView)
  | some (.chunk c) => .ok (some c.view)
  | some .corrupt => .fail (.decode cx cz .markedCorrupt)
  | none => .ok none

theorem chunk_openRegion (w : MemoryWorld) (coord : RegionCoord) (cx cz : Nat) :
    (w.openRegion coord).chunk cx cz = answer cx cz w.entries[coord.chunkAt cx cz]? := by
  simp only [openRegion, loadChunk]
  rcases w.entries[coord.chunkAt cx cz]? with _ | c | _ <;> rfl

end MemoryWorld

/-- A place for a chunk in a region. -/
structure Slot where
  region : RegionCoord
  cx : Nat
  cz : Nat

namespace Slot

open MemoryWorld

def position (slot : Slot) : Int × Int := slot.region.chunkAt slot.cx slot.cz

/-- Whatever the world, the slot answers for the position. -/
def Reads (slot : Slot) (position : Int × Int) : Prop :=
  ∀ w : MemoryWorld,
    (w.openRegion slot.region).chunk slot.cx slot.cz = answer slot.cx slot.cz w.entries[position]?

theorem reads_position (slot : Slot) : slot.Reads slot.position := fun w =>
  chunk_openRegion w slot.region slot.cx slot.cz

/-- A world with a single mark in it tells the position that a slot reads. -/
theorem reads_iff {slot : Slot} {p : Int × Int} : slot.Reads p ↔ slot.position = p := by
  constructor
  · intro h
    by_contra hne
    have hentry (q : Int × Int) : (empty.put (.corrupt p.1 p.2)).entries[q]? =
        if p = q then some .corrupt else none := by
      simp [entries_put, Std.HashMap.getElem?_insert, Insertion.place, Insertion.entry, empty]
    have hmark := h (empty.put (.corrupt p.1 p.2))
    rw [reads_position, hentry, hentry, if_pos rfl, if_neg (Ne.symm hne)] at hmark
    cases hmark
  · rintro rfl
    exact reads_position slot

/-- The slot is one of its region, and its region is in reach. -/
structure IsProper (slot : Slot) : Prop where
  reach : Scheduler.InReach slot.region
  cx : slot.cx < regionChunks
  cz : slot.cz < regionChunks

namespace IsProper

variable {slot : Slot} (h : slot.IsProper)
include h

theorem position_eq : slot.position =
    (slot.region.x * regionChunks + slot.cx, slot.region.z * regionChunks + slot.cz) :=
  chunkAt_eq slot.region h.cx h.cz

theorem position_inInt32 :
    Decimal.inInt32 slot.position.1 ∧ Decimal.inInt32 slot.position.2 := by
  rw [h.position_eq]
  obtain ⟨⟨⟨hx, hx'⟩, hz, hz'⟩, hcx, hcz⟩ := h
  simp only [regionChunks] at hcx hcz
  simp only [Decimal.inInt32_iff, regionChunks]
  omega

end IsProper

/-- The slot that a position falls into. -/
def ofPosition (ax az : Int) : Slot := ⟨⟨ax / 32, az / 32⟩, (ax % 32).toNat, (az % 32).toNat⟩

theorem isProper_ofPosition {ax az : Int} (hx : Decimal.inInt32 ax) (hz : Decimal.inInt32 az) :
    (ofPosition ax az).IsProper := by
  rw [Decimal.inInt32_iff] at hx hz
  constructor
  · simp only [ofPosition, Scheduler.InReach]
    omega
  · simp only [ofPosition, regionChunks]
    omega
  · simp only [ofPosition, regionChunks]
    omega

theorem position_ofPosition (ax az : Int) : (ofPosition ax az).position = (ax, az) := by
  rw [position, chunkAt_eq _ (by simp only [ofPosition, regionChunks]; omega)
    (by simp only [ofPosition, regionChunks]; omega)]
  simp only [ofPosition, regionChunks, Prod.mk.injEq]
  omega

/-- The squares of two regions do not overlap. -/
theorem IsProper.eq_ofPosition {slot : Slot} {ax az : Int} (h : slot.IsProper)
    (hposition : slot.position = (ax, az)) : slot = ofPosition ax az := by
  rw [h.position_eq] at hposition
  obtain ⟨-, hcx, hcz⟩ := h
  obtain ⟨⟨x, z⟩, cx, cz⟩ := slot
  simp only [regionChunks] at hcx hcz
  simp only [regionChunks, Prod.mk.injEq] at hposition
  simp only [ofPosition, Slot.mk.injEq, RegionCoord.mk.injEq]
  omega

/-- Each position of signed words of 32 bits is read in one slot. -/
theorem existsUnique_reads {ax az : Int} (hx : Decimal.inInt32 ax) (hz : Decimal.inInt32 az) :
    ∃! slot : Slot, slot.IsProper ∧ slot.Reads (ax, az) := by
  refine ⟨ofPosition ax az, ⟨isProper_ofPosition hx hz, ?_⟩, ?_⟩
  · exact reads_iff.mpr (position_ofPosition ax az)
  · rintro slot ⟨hproper, hreads⟩
    exact hproper.eq_ofPosition (reads_iff.mp hreads)

end Slot

end TerrainMap
