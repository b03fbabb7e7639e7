import TerrainMap.Proofs.Tile.Accounting

/-!
The pixels that a tile writes. An absent chunk is painted as a square, the
columns of a chunk one by one, and a raster does not tell a position past its
right edge from one in the next row. A ledger does: painted on a ledger, a tile
leaves the list of its strokes, and the list shows that every pixel of the tile
is written once and nothing else is.
-/

namespace TerrainMap

namespace Stroke

def position (s : Stroke) : Nat × Nat := (s.x, s.y)

/-- Strokes on different positions leave each position with one stroke. -/
theorem on_eq_singleton {strokes : List Stroke} (honce : (strokes.map position).Nodup)
    {s : Stroke} (hs : s ∈ strokes) : on strokes s.x s.y = [s] := by
  induction strokes with
  | nil => simp at hs
  | cons t rest ih =>
      rw [List.map_cons, List.nodup_cons] at honce
      obtain ⟨hfirst, hrest⟩ := honce
      rcases List.mem_cons.1 hs with rfl | hs
      · have hnone : on rest s.x s.y = [] := by
          refine List.filter_eq_nil_iff.2 fun u hu => ?_
          have hne : u.position ≠ s.position :=
            fun heq => hfirst (heq ▸ List.mem_map_of_mem hu)
          simpa [position] using hne
        rw [on_cons_of_pos ⟨rfl, rfl⟩, hnone]
      · have hne : ¬ (t.x = s.x ∧ t.y = s.y) := by
          rintro ⟨hx, hy⟩
          have heq : t.position = s.position := Prod.ext hx hy
          exact hfirst (heq ▸ List.mem_map_of_mem hs)
        rw [on_cons_of_neg hne, ih hrest hs]

theorem map_position_grid (x y width height : Nat) (color : Nat → Nat → Color) :
    (grid x y width height color).map position =
      (List.range height).flatMap fun j => (List.range width).map fun i => (x + i, y + j) := by
  simp [grid, row, position, List.map_flatMap, Function.comp_def]

end Stroke

namespace Painter

/-- Writes the strokes down, in the order in which they are made. -/
def ledger : Painter (List Stroke) where
  put made x y c := (made ++ [⟨x, y, c⟩], true)

theorem paint_ledger (made strokes : List Stroke) :
    ledger.paint made strokes = (made ++ strokes, true) := by
  induction strokes generalizing made with
  | nil => rw [paint_nil, List.append_nil]
  | cons stroke rest ih =>
      rw [paint]
      show ledger.paint (made ++ [stroke]) rest = _
      rw [ih, List.append_assoc, List.singleton_append]

end Painter

namespace Tile

variable {region : RegionHandle} {palette : Palette} {tile : TileSpec} {policy : ScanPolicy}

theorem map_position_placeEvents (palette : Palette) (policy : ScanPolicy) (place : Nat × Nat)
    (found : Option ChunkView) :
    (strokesOf (placeEvents palette policy place found)).map Stroke.position =
      placePixels place := by
  rw [strokesOf]
  cases found with
  | none =>
      rw [placeEvents, List.flatMap_singleton, Event.strokes, Stroke.map_position_grid]
      simp [placePixels, squareColumns, List.map_flatMap, Function.comp_def, chunkPixels, chunkEdge]
  | some chunk =>
      rw [placeEvents, rowsEvents_eq_map, List.flatMap_append, List.flatMap_map, List.map_append,
        List.map_flatMap]
      simpa [Event.strokes, Stroke.position, chunkPixels, placePixels] using
        List.map_eq_flatMap.symm

section Loaded

variable (palette : Palette) (policy : ScanPolicy)
  (hloads : ∀ place ∈ tile.places, Loads region tile place)

include hloads

/-- The strokes of a tile go where a visit does. -/
theorem map_position_events :
    (strokesOf (events region palette tile policy)).map Stroke.position = visited tile := by
  rw [strokesOf, events, List.flatMap_assoc, List.map_flatMap, visited]
  refine List.flatMap_congr fun place hplace => ?_
  obtain ⟨found, hfound⟩ := hloads place hplace
  rw [readEvents, hfound]
  exact map_position_placeEvents palette policy place found

theorem exists_on_events {x y : Nat} (hx : x < tile.chunksX * chunkPixels)
    (hy : y < tile.chunksZ * chunkPixels) :
    ∃ c, Stroke.on (strokesOf (events region palette tile policy)) x y = [⟨x, y, c⟩] := by
  have hpositions := map_position_events palette policy hloads
  have honce : (visited tile).Nodup := (pairwise_visited tile).imp fun h heq => by
    subst heq
    exact lt_irrefl _ h
  have hvisited : (x, y) ∈ visited tile := mem_visited.2 ⟨hx, hy⟩
  rw [← hpositions] at honce hvisited
  obtain ⟨s, hs, hposition⟩ := List.mem_map.1 hvisited
  obtain ⟨rfl, rfl⟩ := Prod.mk.inj hposition
  exact ⟨s.color, Stroke.on_eq_singleton honce hs⟩

end Loaded

variable {canvas canvas' : Canvas Raster}

/-- A pixel shows the one stroke on it, whatever was there before. -/
theorem pixel?_after_events (hcanvas : canvas.Fits tile) {x y : Nat}
    (hx : x < tile.chunksX * chunkPixels) (hy : y < tile.chunksZ * chunkPixels) {c : Color}
    (hon : Stroke.on (strokesOf (events region palette tile policy)) x y = [⟨x, y, c⟩]) :
    (canvas.after Raster.painter region.coord tile
      (events region palette tile policy)).surface.pixel? x y = some c := by
  refine (Raster.pixel?_paint hcanvas.full
    (hcanvas.holds_strokesOf fun _ => inside_of_mem_events) (hcanvas.width ▸ hx)
    (hcanvas.height ▸ hy)).trans ?_
  rw [hon]
  rfl

theorem after_events_surface (palette : Palette) (policy : ScanPolicy)
    (hloads : ∀ place ∈ tile.places, Loads region tile place)
    (hcanvas : canvas.Fits tile) (hcanvas' : canvas'.Fits tile) :
    (canvas.after Raster.painter region.coord tile (events region palette tile policy)).surface =
      (canvas'.after Raster.painter region.coord tile
        (events region palette tile policy)).surface := by
  have hend := hcanvas.after region.coord (events region palette tile policy)
  have hend' := hcanvas'.after region.coord (events region palette tile policy)
  refine Raster.ext_pixel? hend.full hend'.full (hend.width.trans hend'.width.symm)
    (hend.height.trans hend'.height.symm) fun x hx y hy => ?_
  rw [hend.width] at hx
  rw [hend.height] at hy
  obtain ⟨c, hon⟩ := exists_on_events palette policy hloads hx hy
  rw [pixel?_after_events hcanvas hx hy hon, pixel?_after_events hcanvas' hx hy hon]

/-- On anything that has a place for its strokes a tile is painted to its end. -/
theorem paintPlaces_fresh {σ : Type} {painter : Painter σ} {s : σ} (hfits : tile.Fits)
    (hloads : ∀ place ∈ tile.places, Loads region tile place)
    (htakes : (painter.paint s (strokesOf (events region palette tile policy))).2 = true) :
    paintPlaces painter region palette tile policy tile.places (Canvas.fresh s) =
      ((Canvas.fresh s).after painter region.coord tile (events region palette tile policy),
        .ok ()) := by
  have hpaint := paintPlaces_of_loads palette policy hfits (List.Subset.refl _) hloads
    (show (Canvas.fresh s).Takes painter _ from htakes) []
  rw [List.append_nil] at hpaint
  exact hpaint

/-- **Every pixel is written once.** Where a tile fits and its chunks load, it is
rendered, and the ledger of its painting has one stroke on every pixel and none
beside them, neither past the right edge nor past the bottom. The pixel shows
that stroke, so that the same tile comes out of any raster of its size, whatever
the raster held. The strokes of the ledger are the ones that are made: on
anything else that takes them, painting the tile is making them one after the
other. -/
theorem pixels_written_once (region : RegionHandle) (palette : Palette) (tile : TileSpec)
    (policy : ScanPolicy) (hfits : tile.Fits)
    (hloads : ∀ x < tile.chunksX, ∀ z < tile.chunksZ, ∃ found,
      region.chunk (tile.chunkX + x) (tile.chunkZ + z) = .ok found) :
    ∃ rendered writes log,
      render region palette tile policy = ⟨log, .ok rendered⟩ ∧
      paintPlaces Painter.ledger region palette tile policy tile.places (Canvas.fresh []) =
        (⟨writes, rendered.report, log⟩, .ok ()) ∧
      (rendered.raster.width = tile.chunksX * chunkPixels ∧
        rendered.raster.height = tile.chunksZ * chunkPixels) ∧
      (∀ w ∈ writes, w.x < rendered.raster.width ∧ w.y < rendered.raster.height) ∧
      (∀ x < rendered.raster.width, ∀ y < rendered.raster.height, ∃ c,
        Stroke.on writes x y = [⟨x, y, c⟩] ∧ rendered.raster.pixel? x y = some c) ∧
      (∀ r : Raster, r.Full → r.width = rendered.raster.width →
        r.height = rendered.raster.height →
        paintPlaces Raster.painter region palette tile policy tile.places (Canvas.fresh r) =
          (⟨rendered.raster, rendered.report, log⟩, .ok ())) ∧
      ∀ (σ : Type) (painter : Painter σ) (s : σ), (painter.paint s writes).2 = true →
        paintPlaces painter region palette tile policy tile.places (Canvas.fresh s) =
          (⟨(painter.paint s writes).1, rendered.report, log⟩, .ok ()) := by
  have hall := loads_of_forall hloads
  have hblank := Canvas.fits_blank hfits
  have hfinal := fits_finalCanvas region palette hfits policy
  refine ⟨_, strokesOf (events region palette tile policy), _,
    render_of_loads palette hfits policy hall, ?_, ⟨hfinal.width, hfinal.height⟩, ?_, ?_, ?_, ?_⟩
  · have hledger := Painter.paint_ledger [] (strokesOf (events region palette tile policy))
    rw [paintPlaces_fresh hfits hall (by rw [hledger]), Canvas.after]
    simp only [Canvas.fresh, hledger, List.nil_append]
    rfl
  · rw [hfinal.width, hfinal.height, ← hblank.width, ← hblank.height]
    exact hblank.holds_strokesOf fun _ => inside_of_mem_events
  · intro x hx y hy
    rw [hfinal.width] at hx
    rw [hfinal.height] at hy
    obtain ⟨c, hon⟩ := exists_on_events palette policy hall hx hy
    exact ⟨c, hon, pixel?_after_events hblank hx hy hon⟩
  · intro r hr hwidth hheight
    have hcanvas : (Canvas.fresh r).Fits tile :=
      ⟨hr, hwidth.trans hfinal.width, hheight.trans hfinal.height⟩
    have hsurface := after_events_surface palette policy hall hcanvas hblank
    have htakes : (Raster.painter.paint r (strokesOf (events region palette tile policy))).2 =
        true := hcanvas.takes fun _ => inside_of_mem_events
    rw [paintPlaces_fresh hfits hall htakes]
    exact congrArg (fun surface => (Canvas.mk surface _ _, Except.ok ())) hsurface
  · exact fun σ painter s htakes => paintPlaces_fresh hfits hall htakes

/-- A tile without a buffer has no pixels to write. -/
theorem long_tile_is_not_written :
    (∀ x < longTile.chunksX, ∀ z < longTile.chunksZ, ∃ found,
      voidRegion.chunk (longTile.chunkX + x) (longTile.chunkZ + z) = .ok found) ∧
    ¬ ∃ rendered, (render voidRegion Palette.empty longTile .overworld).outcome = .ok rendered ∧
      ∀ x < 16 * longTile.chunksX, ∀ y < 16 * longTile.chunksZ,
        (rendered.raster.pixel? x y).isSome := by
  refine ⟨fun _ _ _ _ => ⟨none, rfl⟩, ?_⟩
  rintro ⟨rendered, hrendered, -⟩
  rw [render_of_no_buffer create?_longTile] at hrendered
  cases hrendered

/-- A white raster. -/
def whiteRaster : Raster := ⟨32, 16, Array.replicate (32 * 16 * 3) 255⟩

theorem full_whiteRaster : whiteRaster.Full where
  width_lt := by decide
  height_lt := by decide
  size_eq := Array.size_replicate ..
  size_le := by
    rw [whiteRaster, Array.size_replicate]
    decide

/-- The ridge and the absent chunk beside it, painted over a white raster: one
stroke on the last pixel of the square, and no white is left. -/
theorem ridge_over_white :
    TileSpec.Fits ⟨0, 0, 2, 1⟩ ∧
    (∀ x < 2, ∀ z < 1, ∃ found, ridgeRegion.chunk (0 + x) (0 + z) = .ok found) ∧
    ∃ (rendered : RenderedTile) (writes : List Stroke) (log : Array LogLine),
      paintPlaces Raster.painter ridgeRegion (Palette.ofList [("stone", ⟨100, 0, 240⟩)])
        ⟨0, 0, 2, 1⟩ .overworld (TileSpec.places ⟨0, 0, 2, 1⟩) (Canvas.fresh whiteRaster) =
          (⟨rendered.raster, rendered.report, log⟩, .ok ()) ∧
      paintPlaces Painter.ledger ridgeRegion (Palette.ofList [("stone", ⟨100, 0, 240⟩)])
        ⟨0, 0, 2, 1⟩ .overworld (TileSpec.places ⟨0, 0, 2, 1⟩) (Canvas.fresh []) =
          (⟨writes, rendered.report, log⟩, .ok ()) ∧
      (Stroke.on writes 31 15).length = 1 ∧ rendered.raster.width = 32 := by
  have hloads : ∀ x < 2, ∀ z < 1, ∃ found, ridgeRegion.chunk (0 + x) (0 + z) = .ok found :=
    fun x _ z _ => ⟨_, rfl⟩
  have hfits : TileSpec.Fits ⟨0, 0, 2, 1⟩ := TileSpec.fits_of_le (by decide) (by decide)
  obtain ⟨rendered, writes, log, -, hwrites, ⟨hwidth, hheight⟩, -, honce, hany, -⟩ :=
    pixels_written_once ridgeRegion (Palette.ofList [("stone", ⟨100, 0, 240⟩)]) ⟨0, 0, 2, 1⟩
      .overworld hfits hloads
  obtain ⟨c, hon, -⟩ := honce 31 (by rw [hwidth]; decide) 15 (by rw [hheight]; decide)
  have hwhite := hany whiteRaster full_whiteRaster hwidth.symm hheight.symm
  exact ⟨hfits, hloads, rendered, writes, log, hwhite, hwrites, by rw [hon]; rfl, hwidth⟩

end Tile

end TerrainMap
