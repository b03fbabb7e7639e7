import TerrainMap.Proofs.Raster.Strokes
import TerrainMap.Tile

/-!
What painting keeps. What holds of a surface before each stroke and after it
holds of it when a tile is painted, whatever the tile is like; so a raster keeps
its size, also under a tile that does not fit.
-/

namespace TerrainMap.Tile

variable {σ : Type}

/-- A painting that goes on if it was complete so far. -/
def goOn (rest : Canvas σ → Canvas σ × Bool) (painted : Canvas σ × Bool) : Canvas σ × Bool :=
  match painted with
  | (canvas, false) => (canvas, false)
  | (canvas, true) => rest canvas

section Keeping

variable {painter : Painter σ} {P : σ → Prop}

theorem goOn_keeps {painted : Canvas σ × Bool} {rest : Canvas σ → Canvas σ × Bool}
    (hpainted : P painted.1.surface)
    (hrest : ∀ canvas, P canvas.surface → P (rest canvas).1.surface) :
    P (goOn rest painted).1.surface := by
  obtain ⟨canvas, complete⟩ := painted
  cases complete with
  | false => exact hpainted
  | true => exact hrest canvas hpainted

variable (hput : ∀ s x y c, P s → P (painter.put s x y c).1) {canvas : Canvas σ}
  (hcanvas : P canvas.surface)

theorem note_surface (line : String → LogLine) (px pz : Nat) (pixel : ColumnPixel)
    (canvas : Canvas σ) : (note line px pz pixel canvas).surface = canvas.surface := by
  cases pixel <;> rfl

include hput hcanvas

theorem setPixel_keeps (px pz : Nat) (c : Color) :
    P (setPixel painter canvas px pz c).1.surface := hput canvas.surface px pz c hcanvas

theorem paintRow_keeps (chunk : ChunkView) (palette : Palette) (policy : ScanPolicy)
    (line : String → LogLine) (px pz z count x : Nat) (row : RowScan) :
    P (paintRow painter chunk palette policy line px pz z count x row canvas).1.surface := by
  induction count generalizing x row canvas with
  | zero => exact hcanvas
  | succ count ih =>
      rw [paintRow]
      obtain ⟨row, pixel⟩ := row.step (Column.resolve chunk x z policy) palette
      simp only
      have hnoted : P (note line (Word.add px x) (Word.add pz z) pixel canvas).surface :=
        (note_surface ..).symm ▸ hcanvas
      exact goOn_keeps (setPixel_keeps hput hnoted ..) fun canvas h => ih h (x + 1) row

theorem paintRows_keeps (chunk : ChunkView) (palette : Palette) (policy : ScanPolicy)
    (line : String → LogLine) (px pz count z : Nat) :
    P (paintRows painter chunk palette policy line px pz count z canvas).1.surface := by
  induction count generalizing z canvas with
  | zero => exact hcanvas
  | succ count ih =>
      rw [paintRows]
      exact goOn_keeps (paintRow_keeps hput hcanvas chunk palette policy ..)
        fun canvas h => ih h (z + 1)

theorem paintPlace_keeps (coord : RegionCoord) (palette : Palette) (tile : TileSpec)
    (policy : ScanPolicy) (place : Nat × Nat) (found : Option ChunkView) :
    P (paintPlace painter coord palette tile policy place found canvas).1.surface := by
  cases found with
  | none =>
      have hfill : P (painter.fillRect canvas.surface (Word.mul place.1 chunkPixels)
          (Word.mul place.2 chunkPixels) chunkPixels chunkPixels Color.blank).1 := by
        rw [Painter.fillRect, Painter.fillRows_eq_paint]
        exact painter.paint_keeps hput hcanvas _
      obtain ⟨surface, report, log⟩ := canvas
      simp only [paintPlace, paintAbsent]
      revert hfill
      rcases painter.fillRect surface (Word.mul place.1 chunkPixels)
        (Word.mul place.2 chunkPixels) chunkPixels chunkPixels Color.blank with ⟨_, _ | _⟩
      · exact id
      · exact id
  | some chunk =>
      exact goOn_keeps (paintRows_keeps hput hcanvas chunk palette policy ..) fun _ h => h

theorem paintPlaces_keeps (region : RegionHandle) (palette : Palette) (tile : TileSpec)
    (policy : ScanPolicy) (places : List (Nat × Nat)) :
    P (paintPlaces painter region palette tile policy places canvas).1.surface := by
  induction places generalizing canvas with
  | nil => exact hcanvas
  | cons place rest ih =>
      rw [paintPlaces]
      cases region.chunk (Word.add tile.chunkX place.1) (Word.add tile.chunkZ place.2) with
      | error halt => exact hcanvas
      | ok found =>
          have hplace := paintPlace_keeps hput hcanvas region.coord palette tile policy place found
          revert hplace
          simp only
          rcases paintPlace painter region.coord palette tile policy place found canvas
            with ⟨_, _ | _⟩
          · exact id
          · exact fun hplace => ih hplace

end Keeping

/-- A rendered tile has the size that was asked for. -/
theorem sameSize_of_render {region : RegionHandle} {palette : Palette} {tile : TileSpec}
    {policy : ScanPolicy} {rendered : RenderedTile}
    (h : (render region palette tile policy).outcome = .ok rendered) :
    (Raster.blank tile.width tile.height).SameSize rendered.raster := by
  unfold render at h
  rcases hcreate : Raster.create? tile.width tile.height with _ | raster
  · simp [hcreate] at h
  · obtain rfl : Raster.blank tile.width tile.height = raster :=
      Option.some.inj (Option.ite_none_right_eq_some.1 hcreate).2
    have hkeeps := paintPlaces_keeps
      (fun s x y c hs => Raster.SameSize.trans hs (Raster.sameSize_painter_put s x y c))
      (Raster.SameSize.refl (Canvas.fresh (Raster.blank tile.width tile.height)).surface)
      region palette tile policy tile.places
    rw [hcreate] at h
    simp only at h
    rcases hpaint : paintPlaces Raster.painter region palette tile policy tile.places
      (Canvas.fresh (Raster.blank tile.width tile.height)) with ⟨⟨surface, report, log⟩, _ | _⟩
    · rw [hpaint] at h
      cases h
    · rw [hpaint] at h hkeeps
      cases h
      exact hkeeps

end TerrainMap.Tile
