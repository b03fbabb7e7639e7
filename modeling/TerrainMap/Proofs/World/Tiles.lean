import TerrainMap.Proofs.Quadrant
import TerrainMap.Proofs.Tile.PixelLaw
import TerrainMap.Proofs.World.Memory

/-!
The tiles of a world in memory, by absolute positions. Four systems of
coordinates meet in a tile: columns of the world, chunks of the world, chunks of
a region, and the grid of tiles. Each is got from the one before by division,
so that a pixel of a tile is a column of the world and the place of a chunk
inside its tile a chunk of the world.
-/

namespace TerrainMap

namespace Tile

variable {insertions : List Insertion} {q : Quadrant}

/-- The chunk at an absolute position belongs to the tile at a position of the
grid. -/
def Covers (tx tz ax az : Int) : Prop :=
  (16 * tx ≤ ax ∧ ax < 16 * tx + 16) ∧ 16 * tz ≤ az ∧ az < 16 * tz + 16

theorem Covers.exists_place {tx tz ax az : Int} (h : Covers tx tz ax az) :
    ∃ i j : Nat, i < 16 ∧ j < 16 ∧ ax = 16 * tx + i ∧ az = 16 * tz + j := by
  obtain ⟨⟨hx, hx'⟩, hz, hz'⟩ := h
  refine ⟨(ax - 16 * tx).toNat, (az - 16 * tz).toNat, ?_⟩
  omega

theorem covers_place (tx tz : Int) {i j : Nat} (hi : i < 16) (hj : j < 16) :
    Covers tx tz (16 * tx + i) (16 * tz + j) := by
  simp only [Covers]
  omega

/-- None of the chunks of a tile is corrupt. -/
def IsSound (insertions : List Insertion) (tx tz : Int) : Prop :=
  ∀ ax az, Covers tx tz ax az → ¬ IsCorrupt insertions ax az

/-- The westernmost column of a chunk has no slope: it has the colour of its
block. -/
theorem eq_of_columnLaw_zero {chunk : ChunkView} {palette : Palette} {policy : ScanPolicy} {z : Nat}
    {c : Color} (h : ColumnLaw chunk palette policy 0 z c) {id : String} {elevation : Int}
    (hblock : Column.resolve chunk 0 z policy = .block id elevation) {base : Color}
    (hbase : palette.lookup id = some base) : c = base := by
  simp only [ColumnLaw, hblock, hbase] at h
  obtain ⟨nearest, hnearest, hmoved⟩ := h
  cases nearest with
  | none => exact hmoved.eq_of_zero
  | some before =>
      obtain ⟨x, hx, -⟩ := hnearest
      exact absurd hx (Nat.not_lt_zero x)

/-- A raster of full size that shows in each pixel the column of the world that
the pixel stands for. -/
structure ShowsWorld (palette : Palette) (policy : ScanPolicy) (insertions : List Insertion)
    (tx tz : Int) (raster : Raster) : Prop where
  width : raster.width = 256
  height : raster.height = 256
  size : raster.data.size = 256 * 256 * 3
  pixel : ∀ bx bz : Int, bx / 256 = tx → bz / 256 = tz →
    ∃ c, raster.pixel? (bx % 256).toNat (bz % 256).toNat = some c ∧
      PlaceLaw palette policy (chunkAt? insertions (bx / 16) (bz / 16)) (bx % 16).toNat
        (bz % 16).toNat c

theorem ShowsWorld.column {palette : Palette} {policy : ScanPolicy} {tx tz : Int}
    {raster : Raster} (h : ShowsWorld palette policy insertions tx tz raster) {bx bz : Int}
    (hbx : bx / 256 = tx) (hbz : bz / 256 = tz) {chunk : ChunkView}
    (hchunk : chunkAt? insertions (bx / 16) (bz / 16) = some chunk) :
    ∃ c, raster.pixel? (bx % 256).toNat (bz % 256).toNat = some c ∧
      ColumnLaw chunk palette policy (bx % 16).toNat (bz % 16).toNat c := by
  obtain ⟨c, hpixel, hlaw⟩ := h.pixel bx bz hbx hbz
  rw [hchunk] at hlaw
  exact ⟨c, hpixel, hlaw⟩

section Places

variable (hgrid : q.region.FitsGrid) (hq : q ∈ Quadrant.all q.region) {i j : Nat}
  (hi : i < 16) (hj : j < 16)

include hq hi hj in
theorem place_lt : q.tile.chunkX + i < regionChunks ∧ q.tile.chunkZ + j < regionChunks := by
  obtain ⟨-, hx, hz⟩ := Quadrant.mem_all.mp hq
  simp only [Quadrant.tile_eq hq, regionChunks]
  omega

include hgrid hq

/-- Where a place of a tile lies in the world. -/
theorem place_eq (i j : Nat) :
    q.region.x * regionChunks + (q.tile.chunkX + i : Nat) = 16 * q.tileCoord.1 + i ∧
      q.region.z * regionChunks + (q.tile.chunkZ + j : Nat) = 16 * q.tileCoord.2 + j := by
  obtain ⟨-, hx, hz⟩ := Quadrant.mem_all.mp hq
  simp only [Quadrant.tile_eq hq, Quadrant.tileCoord_eq hgrid hx hz, regionChunks]
  omega

include hi hj

theorem chunk_of_place
    (h : ¬ IsCorrupt insertions (16 * q.tileCoord.1 + i) (16 * q.tileCoord.2 + j)) :
    ((MemoryWorld.ofInsertions insertions).openRegion q.region).chunk (q.tile.chunkX + i)
        (q.tile.chunkZ + j) =
      .ok (chunkAt? insertions (16 * q.tileCoord.1 + i) (16 * q.tileCoord.2 + j)) := by
  obtain ⟨hx, hz⟩ := place_lt hq hi hj
  obtain ⟨hax, haz⟩ := place_eq hgrid hq i j
  rw [← hax, ← haz] at h ⊢
  exact MemoryWorld.chunk_of_not_isCorrupt hx hz h

theorem chunk_of_corrupt_place
    (h : IsCorrupt insertions (16 * q.tileCoord.1 + i) (16 * q.tileCoord.2 + j)) :
    ((MemoryWorld.ofInsertions insertions).openRegion q.region).chunk (q.tile.chunkX + i)
        (q.tile.chunkZ + j) =
      .fail (.decode (q.tile.chunkX + i) (q.tile.chunkZ + j) .markedCorrupt) := by
  obtain ⟨hx, hz⟩ := place_lt hq hi hj
  obtain ⟨hax, haz⟩ := place_eq hgrid hq i j
  rw [← hax, ← haz] at h
  exact MemoryWorld.chunk_of_isCorrupt hx hz h

end Places

variable {palette : Palette} {policy : ScanPolicy}

/-- A tile that renders is sound and shows the world. -/
theorem showsWorld_of_render (hgrid : q.region.FitsGrid) (hq : q ∈ Quadrant.all q.region)
    {rendered : RenderedTile}
    (h : (render ((MemoryWorld.ofInsertions insertions).openRegion q.region) palette q.tile
      policy).outcome = .ok rendered) :
    IsSound insertions q.tileCoord.1 q.tileCoord.2 ∧
      ShowsWorld palette policy insertions q.tileCoord.1 q.tileCoord.2 rendered.raster := by
  have hfits := Quadrant.fits_tile hq
  obtain ⟨hloads, rfl⟩ := (outcome_eq_ok_iff hfits).mp h
  obtain ⟨hwidth, hheight⟩ := q.tile_size
  rw [hfits.width_eq] at hwidth
  rw [hfits.height_eq] at hheight
  have hsound : IsSound insertions q.tileCoord.1 q.tileCoord.2 := by
    intro ax az hcovers hcorrupt
    obtain ⟨i, j, hi, hj, rfl, rfl⟩ := hcovers.exists_place
    obtain ⟨found, hfound⟩ := hloads (i, j)
      (by rw [Quadrant.tile_eq hq]; exact TileSpec.mem_places.mpr ⟨hi, hj⟩)
    cases hfound.symm.trans (chunk_of_corrupt_place hgrid hq hi hj hcorrupt)
  have hcanvas := fits_finalCanvas ((MemoryWorld.ofInsertions insertions).openRegion q.region)
    palette hfits policy
  refine ⟨hsound, by rw [hcanvas.width, hwidth], by rw [hcanvas.height, hheight], ?_, ?_⟩
  · rw [hcanvas.full.size_eq, hcanvas.width, hcanvas.height, hwidth, hheight]
  · intro bx bz hbx hbz
    have hpx : (bx % 256).toNat < 256 := by omega
    have hpz : (bz % 256).toNat < 256 := by omega
    have hi : (bx % 256).toNat / 16 < 16 := by omega
    have hj : (bz % 256).toNat / 16 < 16 := by omega
    have hfound := chunk_of_place hgrid hq hi hj (hsound _ _ (covers_place _ _ hi hj))
    -- the pixel's chunk, counted from the corner of the tile, is the column's chunk
    have hax : 16 * q.tileCoord.1 + ((bx % 256).toNat / 16 : Nat) = bx / 16 := by omega
    have haz : 16 * q.tileCoord.2 + ((bz % 256).toNat / 16 : Nat) = bz / 16 := by omega
    rw [hax, haz] at hfound
    refine ⟨_, pixel?_finalCanvas hfits (hwidth.symm ▸ hpx) (hheight.symm ▸ hpz) hfound, ?_⟩
    have hx : (bx % 256).toNat % 16 = (bx % 16).toNat := by omega
    have hz : (bz % 256).toNat % 16 = (bz % 16).toNat := by omega
    simp only [chunkPixels, hx, hz]
    exact placeLaw_placeColor palette policy _ _ _

/-- A tile that does not render has a corrupt chunk, and its failure names
one. -/
theorem decode_of_render (hgrid : q.region.FitsGrid) (hq : q ∈ Quadrant.all q.region)
    {halt : Halt WorldError}
    (h : (render ((MemoryWorld.ofInsertions insertions).openRegion q.region) palette q.tile
      policy).outcome = .error halt) :
    ∃ ax az, Covers q.tileCoord.1 q.tileCoord.2 ax az ∧ IsCorrupt insertions ax az ∧
      halt = .failure (.decode (ax % 32).toNat (az % 32).toNat .markedCorrupt) := by
  obtain ⟨place, hplace⟩ := (outcome_eq_error_iff (Quadrant.fits_tile hq)).mp h
  obtain ⟨hi, hj⟩ : place.1 < 16 ∧ place.2 < 16 := by
    have hinside := hplace.inside
    rwa [Quadrant.tile_eq hq] at hinside
  by_cases hcorrupt : IsCorrupt insertions (16 * q.tileCoord.1 + place.1)
      (16 * q.tileCoord.2 + place.2)
  · refine ⟨_, _, covers_place _ _ hi hj, hcorrupt, ?_⟩
    have hfails := hplace.fails.symm.trans (chunk_of_corrupt_place hgrid hq hi hj hcorrupt)
    obtain ⟨hx, hz⟩ := place_lt hq hi hj
    obtain ⟨hax, haz⟩ := place_eq hgrid hq place.1 place.2
    simp only [regionChunks] at hx hz hax haz
    have hcx : ((16 * q.tileCoord.1 + place.1) % 32).toNat = q.tile.chunkX + place.1 := by omega
    have hcz : ((16 * q.tileCoord.2 + place.2) % 32).toNat = q.tile.chunkZ + place.2 := by omega
    rw [hcx, hcz]
    exact Except.error.inj hfails
  · cases hplace.fails.symm.trans (chunk_of_place hgrid hq hi hj hcorrupt)

end Tile

end TerrainMap
