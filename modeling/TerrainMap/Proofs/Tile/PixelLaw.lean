import TerrainMap.Proofs.Color
import TerrainMap.Proofs.Column
import TerrainMap.Proofs.Tile.Render

/-!
What a pixel of a tile shows. The law names the chunk, the column and the
nearest coloured column before it in the same row, and nothing else of the
tile.
-/

namespace TerrainMap

namespace Tile

variable {chunk : ChunkView} {palette : Palette} {policy : ScanPolicy}

def elevation? (chunk : ChunkView) (palette : Palette) (policy : ScanPolicy) (x z : Nat) :
    Option Int :=
  (Column.resolve chunk x z policy).coloured? palette

/-- `nearest` is the elevation of the nearest coloured column before `x` in the
row `z` of a chunk, if there is one. -/
def IsNearest (chunk : ChunkView) (palette : Palette) (policy : ScanPolicy) (x z : Nat)
    (nearest : Option Int) : Prop :=
  match nearest with
  | none => ∀ x' < x, elevation? chunk palette policy x' z = none
  | some before =>
    ∃ x' < x, elevation? chunk palette policy x' z = some before ∧
      ∀ x'' < x, x' < x'' → elevation? chunk palette policy x'' z = none

/-- The colour of the column at `x`, `z` of a chunk: blank if the column is
empty or its block has no colour, else the colour of the block, moved by the
slope from the nearest coloured column. -/
def ColumnLaw (chunk : ChunkView) (palette : Palette) (policy : ScanPolicy) (x z : Nat)
    (c : Color) : Prop :=
  match Column.resolve chunk x z policy with
  | .empty => c = Color.blank
  | .block id elevation =>
    match palette.lookup id with
    | none => c = Color.blank
    | some base =>
      ∃ nearest, IsNearest chunk palette policy x z nearest ∧
        base.IsMoved (relief nearest elevation) c

/-- The colour at `x`, `z` of a place for which `found` was read. -/
def PlaceLaw (palette : Palette) (policy : ScanPolicy) (found : Option ChunkView) (x z : Nat)
    (c : Color) : Prop :=
  match found with
  | none => c = Color.blank
  | some chunk => ColumnLaw chunk palette policy x z c

/-- A scan of a row remembers the nearest coloured column. -/
theorem isNearest_rowBefore (chunk : ChunkView) (palette : Palette) (policy : ScanPolicy)
    (x z : Nat) :
    IsNearest chunk palette policy x z (rowBefore chunk palette policy x z).previous := by
  induction x with
  | zero =>
      rw [rowBefore_zero]
      exact fun x' hx' => absurd hx' (Nat.not_lt_zero x')
  | succ x ih =>
      have hstep : (rowBefore chunk palette policy (x + 1) z).previous =
          (elevation? chunk palette policy x z).or
            (rowBefore chunk palette policy x z).previous := by
        rw [elevation?, ← RowScan.step_previous, step_rowBefore]
      rw [hstep]
      cases hx : elevation? chunk palette policy x z with
      | some before => exact ⟨x, by omega, hx, fun x'' _ _ => by omega⟩
      | none =>
          -- a column without a colour leaves the nearest one where it was
          rw [Option.none_or]
          cases hprev : (rowBefore chunk palette policy x z).previous with
          | none =>
              rw [hprev] at ih
              intro x' hx'
              rcases Nat.lt_succ_iff_lt_or_eq.1 hx' with h | rfl
              · exact ih x' h
              · exact hx
          | some before =>
              rw [hprev] at ih
              obtain ⟨x', hlt, hbefore, hnone⟩ := ih
              refine ⟨x', by omega, hbefore, fun x'' hx'' hgt => ?_⟩
              rcases Nat.lt_succ_iff_lt_or_eq.1 hx'' with h | rfl
              · exact hnone x'' h hgt
              · exact hx

theorem columnLaw_columnPixel (chunk : ChunkView) (palette : Palette) (policy : ScanPolicy)
    (x z : Nat) :
    ColumnLaw chunk palette policy x z (columnPixel chunk palette policy x z).color := by
  simp only [ColumnLaw, columnPixel]
  cases Column.resolve chunk x z policy with
  | empty => rfl
  | block id elevation =>
      simp only [RowScan.step]
      cases palette.lookup id with
      | none => rfl
      | some base =>
          exact ⟨_, isNearest_rowBefore chunk palette policy x z, base.isMoved_shade _ _⟩

def placeColor (palette : Palette) (policy : ScanPolicy) (found : Option ChunkView) (x z : Nat) :
    Color :=
  match found with
  | none => Color.blank
  | some chunk => (columnPixel chunk palette policy x z).color

theorem placeLaw_placeColor (palette : Palette) (policy : ScanPolicy) (found : Option ChunkView)
    (x z : Nat) : PlaceLaw palette policy found x z (placeColor palette policy found x z) := by
  cases found with
  | none => rfl
  | some chunk => exact columnLaw_columnPixel chunk palette policy x z

/-- The strokes of a place cover its square of pixels. -/
theorem mem_strokes_placeEvents {place : Nat × Nat} {found : Option ChunkView} {s : Stroke} :
    s ∈ strokesOf (placeEvents palette policy place found) ↔
      ∃ x < chunkPixels, ∃ z < chunkPixels,
        s = ⟨place.1 * chunkPixels + x, place.2 * chunkPixels + z,
          placeColor palette policy found x z⟩ := by
  rw [strokesOf]
  cases found with
  | none => simp [placeEvents, Event.strokes, Stroke.mem_grid, placeColor]
  | some chunk =>
      simp only [placeEvents, rowsEvents, rowEvents, List.flatMap_append, List.flatMap_assoc,
        List.flatMap_map, List.mem_append, List.mem_flatMap, List.mem_range'_1, Event.strokes,
        List.flatMap_singleton, List.mem_singleton, List.not_mem_nil, or_false, placeColor,
        Nat.zero_le, true_and, Nat.zero_add]
      constructor
      · rintro ⟨z, hz, x, hx, rfl⟩
        exact ⟨x, hx, z, hz, rfl⟩
      · rintro ⟨x, hx, z, hz, rfl⟩
        exact ⟨z, hz, x, hx, rfl⟩

/-- The strokes of a place have the colours of its columns. -/
theorem color_of_mem_strokes {place : Nat × Nat} {found : Option ChunkView} {s : Stroke}
    (h : s ∈ strokesOf (placeEvents palette policy place found)) :
    s.x / chunkPixels = place.1 ∧ s.y / chunkPixels = place.2 ∧
      s.color = placeColor palette policy found (s.x % chunkPixels) (s.y % chunkPixels) := by
  obtain ⟨x, hx, z, hz, rfl⟩ := mem_strokes_placeEvents.1 h
  simp only [chunkPixels] at hx hz ⊢
  rw [Nat.mul_comm place.1, Nat.mul_comm place.2, Nat.mul_add_div (by decide),
    Nat.mul_add_div (by decide), Nat.div_eq_of_lt hx, Nat.div_eq_of_lt hz, Nat.mul_add_mod,
    Nat.mul_add_mod, Nat.mod_eq_of_lt hx, Nat.mod_eq_of_lt hz]
  exact ⟨rfl, rfl, rfl⟩

variable {region : RegionHandle} {tile : TileSpec}

/-- The strokes of a tile, by the places they belong to. -/
theorem mem_strokes_events {s : Stroke} :
    s ∈ strokesOf (events region palette tile policy) ↔
      ∃ place ∈ tile.places, ∃ found,
        region.chunk (tile.chunkX + place.1) (tile.chunkZ + place.2) = .ok found ∧
        s ∈ strokesOf (placeEvents palette policy place found) := by
  rw [strokesOf, events, List.flatMap_assoc, List.mem_flatMap]
  refine exists_congr fun place => and_congr_right fun _ => ?_
  rw [readEvents]
  split
  · next found hfound => simp [hfound, strokesOf]
  · next halt hhalt => simp [hhalt]

theorem pixel?_finalCanvas (hfits : tile.Fits) {px pz : Nat}
    (hx : px < tile.chunksX * chunkPixels) (hz : pz < tile.chunksZ * chunkPixels)
    {found : Option ChunkView}
    (hfound : region.chunk (tile.chunkX + px / chunkPixels) (tile.chunkZ + pz / chunkPixels) =
      .ok found) :
    (finalCanvas region palette tile policy).surface.pixel? px pz =
      some (placeColor palette policy found (px % chunkPixels) (pz % chunkPixels)) := by
  have hblank := Canvas.fits_blank hfits
  have hmem : ⟨px, pz, placeColor palette policy found (px % chunkPixels) (pz % chunkPixels)⟩ ∈
      strokesOf (events region palette tile policy) := by
    refine mem_strokes_events.2
      ⟨_, div_mem_places hx hz, found, hfound, mem_strokes_placeEvents.2 ?_⟩
    refine ⟨px % chunkPixels, Nat.mod_lt _ (by decide), pz % chunkPixels,
      Nat.mod_lt _ (by decide), ?_⟩
    rw [Nat.div_add_mod', Nat.div_add_mod']
  refine Raster.pixel?_paint_of_mem hblank.full
    (hblank.holds_strokesOf fun _ => inside_of_mem_events) hmem ?_
  -- any other stroke on the pixel comes from the same place, and so from the same chunk
  rintro t ht hx hz
  obtain ⟨place, -, found', hfound', ht⟩ := mem_strokes_events.1 ht
  obtain ⟨h1, h2, hcolor⟩ := color_of_mem_strokes ht
  rw [hx] at h1
  rw [hz] at h2
  rw [← h1, ← h2, hfound] at hfound'
  rw [hcolor, hx, hz, Except.ok.inj hfound']

/-- Two places look alike in the row `z`: both are absent, or both hold chunks
with the same blocks in that row. -/
def SameRow (z : Nat) : Option ChunkView → Option ChunkView → Prop
  | none, none => True
  | some chunk, some chunk' =>
    ∀ x < chunkEdge, ∀ y, chunk.blockId x y z = chunk'.blockId x y z
  | _, _ => False

theorem placeColor_congr {x z : Nat} (hx : x < chunkEdge) {found found' : Option ChunkView}
    (h : SameRow z found found') :
    placeColor palette policy found x z = placeColor palette policy found' x z := by
  match found, found', h with
  | none, none, _ => rfl
  | some chunk, some chunk', h =>
      have hresolve : ∀ x' ≤ x, Column.resolve chunk x' z policy =
          Column.resolve chunk' x' z policy := by
        intro x' hx'
        exact Column.scanBelow_congr fun y _ => h x' (by omega) y
      rw [placeColor, placeColor, columnPixel_congr hresolve]

/-- A tile that fits and whose chunks all load is rendered to its full size, and
every pixel of it obeys the law of its column. Nothing but the row of its own
chunk decides about a pixel: in another tile, place or region the same row shows
the same. -/
theorem rendered_pixels_obey_law (region : RegionHandle) (palette : Palette) (tile : TileSpec)
    (policy : ScanPolicy) (hfits : tile.Fits)
    (hloads : ∀ x < tile.chunksX, ∀ z < tile.chunksZ, ∃ found,
      region.chunk (tile.chunkX + x) (tile.chunkZ + z) = .ok found) :
    ∃ rendered, (render region palette tile policy).outcome = .ok rendered ∧
      rendered.raster.width = 16 * tile.chunksX ∧ rendered.raster.height = 16 * tile.chunksZ ∧
      (∀ px < rendered.raster.width, ∀ pz < rendered.raster.height, ∀ found,
        region.chunk (tile.chunkX + px / 16) (tile.chunkZ + pz / 16) = .ok found →
        ∃ c, rendered.raster.pixel? px pz = some c ∧
          PlaceLaw palette policy found (px % 16) (pz % 16) c) ∧
      ∀ (region' : RegionHandle) (tile' : TileSpec) (rendered' : RenderedTile), tile'.Fits →
        (render region' palette tile' policy).outcome = .ok rendered' →
        ∀ px < rendered.raster.width, ∀ pz < rendered.raster.height,
        ∀ px' < rendered'.raster.width, ∀ pz' < rendered'.raster.height, ∀ found found',
          region.chunk (tile.chunkX + px / 16) (tile.chunkZ + pz / 16) = .ok found →
          region'.chunk (tile'.chunkX + px' / 16) (tile'.chunkZ + pz' / 16) = .ok found' →
          px % 16 = px' % 16 → pz % 16 = pz' % 16 → SameRow (pz % 16) found found' →
          rendered.raster.pixel? px pz = rendered'.raster.pixel? px' pz' := by
  have hcanvas := fits_finalCanvas region palette hfits policy
  refine ⟨_, (outcome_eq_ok_iff hfits).2 ⟨loads_of_forall hloads, rfl⟩, ?_, ?_, ?_, ?_⟩
  · rw [hcanvas.width, Nat.mul_comm, chunkPixels]
  · rw [hcanvas.height, Nat.mul_comm, chunkPixels]
  · intro px hx pz hz found hfound
    rw [hcanvas.width] at hx
    rw [hcanvas.height] at hz
    exact ⟨_, pixel?_finalCanvas hfits hx hz hfound, placeLaw_placeColor _ _ _ _ _⟩
  · intro region' tile' rendered' hfits' hrendered px hx pz hz px' hx' pz' hz' found found' hfound
      hfound' hpx hpz hsame
    obtain ⟨-, rfl⟩ := (outcome_eq_ok_iff hfits').1 hrendered
    have hcanvas' := fits_finalCanvas region' palette hfits' policy
    rw [hcanvas.width] at hx
    rw [hcanvas.height] at hz
    rw [hcanvas'.width] at hx'
    rw [hcanvas'.height] at hz'
    rw [pixel?_finalCanvas hfits hx hz hfound, pixel?_finalCanvas hfits' hx' hz' hfound']
    have hlt : px % 16 < chunkEdge := Nat.mod_lt _ (by decide)
    simp only [chunkPixels]
    rw [← hpx, ← hpz, placeColor_congr hlt hsame]

/-- A tile without a buffer has no width, and its absent chunks have no pixels. -/
theorem long_tile_has_no_pixels :
    (∀ x < longTile.chunksX, ∀ z < longTile.chunksZ, ∃ found,
      voidRegion.chunk (longTile.chunkX + x) (longTile.chunkZ + z) = .ok found) ∧
    ¬ ∃ rendered, (render voidRegion Palette.empty longTile .overworld).outcome = .ok rendered ∧
      rendered.raster.width = 16 * longTile.chunksX ∧
      rendered.raster.pixel? 0 0 = some ⟨0, 0, 0⟩ := by
  refine ⟨fun _ _ _ _ => ⟨none, rfl⟩, ?_⟩
  rintro ⟨rendered, hrendered, -⟩
  rw [render_of_no_buffer create?_longTile] at hrendered
  cases hrendered

/-- A chunk in which every second column is one block higher than the one
before it. -/
def ridgeChunk : ChunkView := ⟨fun x y _ => if y ≤ 250 + x % 2 then "stone" else "air"⟩

/-- A region with the ridge as its only chunk. -/
def ridgeRegion : RegionHandle :=
  ⟨⟨0, 0⟩, fun cx cz => .ok (if cx = 0 ∧ cz = 0 then some ridgeChunk else none)⟩

theorem ridge_second_column {c : Color}
    (h : ColumnLaw ridgeChunk (Palette.ofList [("stone", ⟨100, 0, 240⟩)]) .overworld 1 0 c) :
    c = ⟨130, 30, 255⟩ := by
  have hpalette : (Palette.ofList [("stone", ⟨100, 0, 240⟩)]).lookup "stone" =
      some ⟨100, 0, 240⟩ := by
    simp [Palette.ofList, Palette.insertAll, Palette.insert, Palette.lookup]
  have h0 : Column.resolve ridgeChunk 0 0 .overworld = .block "stone" 250 := by decide
  have h1 : Column.resolve ridgeChunk 1 0 .overworld = .block "stone" 251 := by decide
  have hbefore : elevation? ridgeChunk (Palette.ofList [("stone", ⟨100, 0, 240⟩)]) .overworld
      0 0 = some 250 := by
    simp [elevation?, h0, Column.coloured?, hpalette]
  simp only [ColumnLaw, h1, hpalette] at h
  obtain ⟨nearest, hnearest, hr, hg, hb⟩ := h
  cases nearest with
  | none => simp [hnearest 0 (by decide)] at hbefore
  | some before =>
      obtain ⟨x, hx, hx0, -⟩ := hnearest
      obtain rfl : x = 0 := by omega
      obtain rfl : 250 = before := by simpa [hbefore] using hx0
      simp [relief] at hr hg hb
      have hr' : c.r = 130 := UInt8.toNat_inj.1 (show c.r.toNat = 130 by omega)
      have hg' : c.g = 30 := UInt8.toNat_inj.1 (show c.g.toNat = 30 by omega)
      have hb' : c.b = 255 := UInt8.toNat_inj.1 (show c.b.toNat = 255 by omega)
      rw [← hr', ← hg', ← hb']

/-- The second column of the ridge is lighter than its block, as far as its
channels can be, and the absent chunk beside it is blank. -/
theorem ridge_pixels :
    TileSpec.Fits ⟨0, 0, 2, 1⟩ ∧
    (∀ x < 2, ∀ z < 1, ∃ found, ridgeRegion.chunk (0 + x) (0 + z) = .ok found) ∧
    ∃ rendered,
      (render ridgeRegion (Palette.ofList [("stone", ⟨100, 0, 240⟩)]) ⟨0, 0, 2, 1⟩
        .overworld).outcome = .ok rendered ∧
      rendered.raster.pixel? 1 0 = some ⟨130, 30, 255⟩ ∧
      rendered.raster.pixel? 16 0 = some Color.blank := by
  have hloads : ∀ x < 2, ∀ z < 1, ∃ found, ridgeRegion.chunk (0 + x) (0 + z) = .ok found :=
    fun x _ z _ => ⟨_, rfl⟩
  have hfits : TileSpec.Fits ⟨0, 0, 2, 1⟩ := TileSpec.fits_of_le (by decide) (by decide)
  obtain ⟨rendered, hrendered, hwidth, hheight, hlaw, -⟩ :=
    rendered_pixels_obey_law ridgeRegion (Palette.ofList [("stone", ⟨100, 0, 240⟩)])
      ⟨0, 0, 2, 1⟩ .overworld hfits hloads
  refine ⟨hfits, hloads, rendered, hrendered, ?_, ?_⟩
  · obtain ⟨c, hc, hcolumn⟩ := hlaw 1 (by rw [hwidth]; decide) 0 (by rw [hheight]; decide) _ rfl
    rw [hc, ridge_second_column hcolumn]
  · obtain ⟨c, hc, hcolumn⟩ := hlaw 16 (by rw [hwidth]; decide) 0 (by rw [hheight]; decide) _ rfl
    rw [hc, show c = Color.blank from hcolumn]

end Tile

end TerrainMap
