import TerrainMap.Proofs.Raster.Strokes
import TerrainMap.Tile

/-!
Tiles whose numbers are words and whose pixels have a buffer. On such a tile
nothing wraps around: its size, the positions of its chunks and those of its
pixels are plain sums and products.
-/

namespace TerrainMap

theorem TileSpec.mem_places {tile : TileSpec} {place : Nat × Nat} :
    place ∈ tile.places ↔ place.1 < tile.chunksX ∧ place.2 < tile.chunksZ := by
  obtain ⟨x, z⟩ := place
  simp [places, and_comm]

/-- Width and height of the tile are words, a buffer can take its pixels, and
its chunks have positions that are words. -/
structure TileSpec.Fits (tile : TileSpec) : Prop where
  width_lt : tile.chunksX * chunkPixels < Word.count
  height_lt : tile.chunksZ * chunkPixels < Word.count
  size_le : tile.chunksX * chunkPixels * (tile.chunksZ * chunkPixels) * 3 ≤ Raster.maxBytes
  position : ∀ place ∈ tile.places,
    tile.chunkX + place.1 < Word.count ∧ tile.chunkZ + place.2 < Word.count

namespace TileSpec.Fits

variable {tile : TileSpec}

theorem width_eq (h : tile.Fits) : tile.width = tile.chunksX * chunkPixels :=
  Word.mul_of_lt h.width_lt

theorem height_eq (h : tile.Fits) : tile.height = tile.chunksZ * chunkPixels :=
  Word.mul_of_lt h.height_lt

theorem create? (h : tile.Fits) :
    Raster.create? tile.width tile.height = some (Raster.blank tile.width tile.height) :=
  Raster.create?_of_le (by rw [h.width_eq, h.height_eq]; exact h.size_le)

theorem full_blank (h : tile.Fits) : (Raster.blank tile.width tile.height).Full := by
  rw [h.width_eq, h.height_eq]
  exact Raster.full_blank h.width_lt h.height_lt h.size_le

theorem chunk_eq (h : tile.Fits) {place : Nat × Nat} (hplace : place ∈ tile.places) :
    Word.add tile.chunkX place.1 = tile.chunkX + place.1 ∧
      Word.add tile.chunkZ place.2 = tile.chunkZ + place.2 :=
  ⟨Word.add_of_lt (h.position place hplace).1, Word.add_of_lt (h.position place hplace).2⟩

/-- The square of a place has words for its edges. -/
theorem corner_eq (h : tile.Fits) {place : Nat × Nat} (hplace : place ∈ tile.places) :
    (Word.mul place.1 chunkPixels = place.1 * chunkPixels ∧
        Word.mul place.2 chunkPixels = place.2 * chunkPixels) ∧
      place.1 * chunkPixels + chunkPixels < Word.count ∧
      place.2 * chunkPixels + chunkPixels < Word.count := by
  obtain ⟨hplaceX, hplaceZ⟩ := mem_places.1 hplace
  have hwidth := h.width_lt
  have hheight := h.height_lt
  rw [chunkPixels] at *
  exact ⟨⟨Word.mul_of_lt (by omega), Word.mul_of_lt (by omega)⟩, by omega, by omega⟩

/-- So have its columns for their pixels. -/
theorem pixel_eq (h : tile.Fits) {place : Nat × Nat} (hplace : place ∈ tile.places) {x z : Nat}
    (hx : x < chunkEdge) (hz : z < chunkEdge) :
    Word.add (Word.mul place.1 chunkPixels) x = place.1 * chunkPixels + x ∧
      Word.add (Word.mul place.2 chunkPixels) z = place.2 * chunkPixels + z := by
  obtain ⟨⟨hleft, htop⟩, hright, hbottom⟩ := h.corner_eq hplace
  rw [hleft, htop]
  rw [chunkPixels, chunkEdge] at *
  exact ⟨Word.add_of_lt (by omega), Word.add_of_lt (by omega)⟩

end TileSpec.Fits

namespace TileSpec

/-- Tiles inside a region fit. -/
theorem fits_of_le {tile : TileSpec} (hx : tile.chunkX + tile.chunksX ≤ regionChunks)
    (hz : tile.chunkZ + tile.chunksZ ≤ regionChunks) : tile.Fits where
  width_lt := by
    simp only [regionChunks, chunkPixels, Word.count] at *
    omega
  height_lt := by
    simp only [regionChunks, chunkPixels, Word.count] at *
    omega
  size_le := by
    simp only [regionChunks, chunkPixels] at *
    calc tile.chunksX * 16 * (tile.chunksZ * 16) * 3
      _ ≤ 512 * 512 * 3 := Nat.mul_le_mul_right 3 (Nat.mul_le_mul (by omega) (by omega))
      _ ≤ Raster.maxBytes := by decide
  position := by
    intro place hplace
    obtain ⟨hplaceX, hplaceZ⟩ := mem_places.1 hplace
    simp only [regionChunks, Word.count] at *
    omega

theorem fits_wholeRegion : wholeRegion.Fits := fits_of_le (by decide) (by decide)

/-- The quadrants of a region begin at its edges or at its middle. -/
theorem quadrant_eq {offsetX offsetZ : Nat} (hx : offsetX < 2) (hz : offsetZ < 2) :
    quadrant offsetX offsetZ = ⟨offsetX * 16, offsetZ * 16, 16, 16⟩ := by
  have hword {offset : Nat} (h : offset < 2) : Word.mul offset quadrantChunks = offset * 16 := by
    refine Word.mul_of_lt ?_
    simp only [quadrantChunks, regionChunks, Word.count]
    omega
  rw [quadrant, hword hx, hword hz]
  rfl

theorem fits_quadrant {offsetX offsetZ : Nat} (hx : offsetX < 2) (hz : offsetZ < 2) :
    (quadrant offsetX offsetZ).Fits := by
  rw [quadrant_eq hx hz]
  refine fits_of_le ?_ ?_
  · simp only [regionChunks]
    omega
  · simp only [regionChunks]
    omega

end TileSpec

end TerrainMap
