import Mathlib.Algebra.GroupWithZero.Nat
import Mathlib.Data.List.Perm.Subperm
import TerrainMap.Proofs.Quadrant
import TerrainMap.Proofs.Raster.Blit
import TerrainMap.Proofs.Tile.PixelLaw
import TerrainMap.Proofs.Tile.Report

/-!
A region in one tile and in four. The tile of the whole region visits its
chunks row by row, the quadrants visit theirs one quadrant after the other;
every chunk is visited once either way, and meets the same events up to the
place at which it is shown.
-/

namespace TerrainMap

/-- An unknown block as a tile shows it that begins `dx`, `dz` pixels earlier. -/
def UnknownBlock.shift (dx dz : Nat) (u : UnknownBlock) : UnknownBlock :=
  { u with x := dx + u.x, z := dz + u.z }

namespace Tile

namespace Event

/-- An event as a tile meets it that begins `dx`, `dz` chunks earlier. -/
def move (dx dz : Nat) : Event → Event
  | absent place => absent (dx + place.1, dz + place.2)
  | column place x z pixel => column (dx + place.1, dz + place.2) x z pixel
  | finished => finished

variable (dx dz : Nat)

@[simp] theorem isAbsent_move (event : Event) : (event.move dx dz).isAbsent = event.isAbsent := by
  cases event <;> rfl

@[simp] theorem isEmpty_move (event : Event) : (event.move dx dz).isEmpty = event.isEmpty := by
  match event with
  | absent _ => rfl
  | column _ _ _ (.shaded _) => rfl
  | column _ _ _ .empty => rfl
  | column _ _ _ (.unknown _) => rfl
  | finished => rfl

@[simp] theorem isFinished_move (event : Event) :
    (event.move dx dz).isFinished = event.isFinished := by
  cases event <;> rfl

theorem unknown?_move (event : Event) :
    (event.move dx dz).unknown? =
      event.unknown?.map (UnknownBlock.shift (dx * chunkPixels) (dz * chunkPixels)) := by
  match event with
  | absent _ => rfl
  | column _ _ _ (.shaded _) => rfl
  | column _ _ _ .empty => rfl
  | column _ _ _ (.unknown _) =>
      simp [move, unknown?, UnknownBlock.shift, Nat.add_mul, Nat.add_assoc]
  | finished => rfl

end Event

theorem placeEvents_move (palette : Palette) (policy : ScanPolicy) (dx dz : Nat)
    (place : Nat × Nat) (found : Option ChunkView) :
    placeEvents palette policy (dx + place.1, dz + place.2) found =
      (placeEvents palette policy place found).map (Event.move dx dz) := by
  cases found with
  | none => rfl
  | some chunk =>
      simp [placeEvents, rowsEvents, rowEvents, Event.move, List.map_flatMap,
        Function.comp_def]

/-- The places of a quadrant, counted from the corner of its region. -/
def movedPlaces (q : Quadrant) : List (Nat × Nat) :=
  q.tile.places.map fun place => (q.tile.chunkX + place.1, q.tile.chunkZ + place.2)

theorem readEvents_wholeRegion (handle : RegionHandle) (palette : Palette) (policy : ScanPolicy)
    (tile : TileSpec) (place : Nat × Nat) :
    readEvents handle palette .wholeRegion policy
        (tile.chunkX + place.1, tile.chunkZ + place.2) =
      (readEvents handle palette tile policy place).map
        (Event.move tile.chunkX tile.chunkZ) := by
  simp only [readEvents, TileSpec.wholeRegion, Nat.zero_add]
  split
  · exact placeEvents_move _ _ _ _ _ _
  · rfl

theorem nodup_places (tile : TileSpec) : tile.places.Nodup := by
  refine (places_pairwise tile).imp fun {p q} h heq => ?_
  subst heq
  exact Before.irrefl p h

/-- The chunks of a region are those of its quadrants, each once. -/
theorem places_perm_quadrants (region : RegionCoord) :
    TileSpec.wholeRegion.places.Perm ((Quadrant.all region).flatMap movedPlaces) := by
  have hsubset : TileSpec.wholeRegion.places ⊆ (Quadrant.all region).flatMap movedPlaces := by
    intro place hplace
    obtain ⟨hx, hz⟩ := TileSpec.mem_places.1 hplace
    simp only [TileSpec.wholeRegion, regionChunks] at hx hz
    have hq : (⟨region, place.1 / 16, place.2 / 16⟩ : Quadrant) ∈ Quadrant.all region := by
      have h1 : place.1 / 16 < 2 := by omega
      have h2 : place.2 / 16 < 2 := by omega
      simp only [Quadrant.all, List.mem_cons, Quadrant.mk.injEq]
      simp only [true_and, List.not_mem_nil, or_false]
      omega
    refine List.mem_flatMap.2 ⟨_, hq, List.mem_map.2 ⟨(place.1 % 16, place.2 % 16), ?_, ?_⟩⟩
    · rw [Quadrant.tile_eq hq]
      refine TileSpec.mem_places.2 ⟨?_, ?_⟩
      · exact Nat.mod_lt _ (by decide)
      · exact Nat.mod_lt _ (by decide)
    · rw [Quadrant.tile_eq hq]
      exact Prod.ext (Nat.div_add_mod' _ _) (Nat.div_add_mod' _ _)
  -- places of the region do not repeat, so that it is enough to compare the numbers
  refine (List.subperm_of_subset (nodup_places _) hsubset).perm_of_length_le ?_
  simp [Quadrant.all, movedPlaces, TileSpec.places, List.length_flatMap, TileSpec.wholeRegion,
    Quadrant.tile, TileSpec.quadrant, TileSpec.quadrantChunks, regionChunks]

theorem mem_places_wholeRegion {region : RegionCoord} {q : Quadrant} {place : Nat × Nat}
    (hq : q ∈ Quadrant.all region) (hplace : place ∈ q.tile.places) :
    (q.tile.chunkX + place.1, q.tile.chunkZ + place.2) ∈ TileSpec.wholeRegion.places :=
  (places_perm_quadrants region).mem_iff.2
    (List.mem_flatMap.2 ⟨q, hq, List.mem_map_of_mem hplace⟩)

/-- A quadrant begins as many pixels from the corner of its region as its
raster is wide and high. -/
theorem tile_corner {q : Quadrant} {region : RegionCoord} (hq : q ∈ Quadrant.all region) :
    q.tile.chunkX * chunkPixels = 256 * q.offsetX ∧
      q.tile.chunkZ * chunkPixels = 256 * q.offsetZ := by
  simp only [Quadrant.tile_eq hq, chunkPixels]
  omega

/-- The events of a region are those of its quadrants, moved to their places. -/
theorem events_perm_quadrants (handle : RegionHandle) (palette : Palette) (policy : ScanPolicy)
    (region : RegionCoord) :
    (events handle palette .wholeRegion policy).Perm
      ((Quadrant.all region).flatMap fun q =>
        (events handle palette q.tile policy).map
          (Event.move q.tile.chunkX q.tile.chunkZ)) := by
  have hperm := (places_perm_quadrants region).flatMap_right
    (readEvents handle palette .wholeRegion policy)
  refine hperm.trans (.of_eq ?_)
  rw [List.flatMap_assoc]
  refine List.flatMap_congr fun q _ => ?_
  rw [movedPlaces, events, List.flatMap_map, List.map_flatMap]
  exact List.flatMap_congr fun place _ => readEvents_wholeRegion _ _ _ _ _

/-! The raster of the region is put together from those of its quadrants. -/

/-- The pixel of a region at `X`, `Z`, counted from the corner of the region. -/
def regionPixel? (handle : RegionHandle) (palette : Palette) (policy : ScanPolicy) (X Z : Nat) :
    Option Color :=
  match handle.chunk (X / chunkPixels) (Z / chunkPixels) with
  | .ok found => some (placeColor palette policy found (X % chunkPixels) (Z % chunkPixels))
  | .error _ => none

/-- A tile shows its part of the region. -/
theorem pixel?_eq_regionPixel? {handle : RegionHandle} {palette : Palette} {policy : ScanPolicy}
    {tile : TileSpec} (hfits : tile.Fits)
    (hloads : ∀ place ∈ tile.places, Loads handle tile place) {px pz : Nat}
    (hx : px < tile.chunksX * chunkPixels) (hz : pz < tile.chunksZ * chunkPixels) :
    (finalCanvas handle palette tile policy).surface.pixel? px pz =
      regionPixel? handle palette policy (tile.chunkX * chunkPixels + px)
        (tile.chunkZ * chunkPixels + pz) := by
  obtain ⟨found, hfound⟩ := hloads _ (div_mem_places hx hz)
  have hdiv : ∀ a b : Nat, (a * chunkPixels + b) / chunkPixels = a + b / chunkPixels := by
    intro a b
    rw [Nat.mul_comm a, Nat.mul_add_div (by decide)]
  have hmod : ∀ a b : Nat, (a * chunkPixels + b) % chunkPixels = b % chunkPixels := by
    intro a b
    rw [Nat.mul_comm a, Nat.mul_add_mod]
  rw [pixel?_finalCanvas hfits hx hz hfound, regionPixel?, hdiv, hdiv, hmod, hmod, hfound]

/-- Copies the rasters of quadrants to their places, one after the other, up to
one that does not fit. -/
def stitch (part : Quadrant → Raster) : List Quadrant → Raster → Raster × Bool
  | [], raster => (raster, true)
  | q :: rest, raster =>
    match raster.blit (part q) (256 * q.offsetX) (256 * q.offsetZ) with
    | (raster, true) => stitch part rest raster
    | (raster, false) => (raster, false)

structure IsRegionSized (raster : Raster) : Prop where
  full : raster.Full
  width : raster.width = 512
  height : raster.height = 512

/-- The part shows the quadrant: 256 × 256 pixels that `picture` gives for the
region. -/
structure ShowsQuadrant (picture : Nat → Nat → Option Color) (q : Quadrant) (part : Raster) :
    Prop where
  full : part.Full
  width : part.width = 256
  height : part.height = 256
  pixel : ∀ x < 256, ∀ z < 256,
    part.pixel? x z = picture (256 * q.offsetX + x) (256 * q.offsetZ + z)

theorem blit_quadrant {picture : Nat → Nat → Option Color} {q : Quadrant} {part raster : Raster}
    (hsize : IsRegionSized raster) (hpart : ShowsQuadrant picture q part) (hx : q.offsetX < 2)
    (hz : q.offsetZ < 2) :
    ∃ next, raster.blit part (256 * q.offsetX) (256 * q.offsetZ) = (next, true) ∧
      IsRegionSized next ∧
      ∀ X < 512, ∀ Z < 512, next.pixel? X Z =
        if X / 256 = q.offsetX ∧ Z / 256 = q.offsetZ then picture X Z else raster.pixel? X Z := by
  have hright : 256 * q.offsetX + part.width ≤ raster.width := by
    rw [hpart.width, hsize.width]
    omega
  have hbottom : 256 * q.offsetZ + part.height ≤ raster.height := by
    rw [hpart.height, hsize.height]
    omega
  have hcomplete : (raster.blit part (256 * q.offsetX) (256 * q.offsetZ)).2 = true :=
    Raster.blitRows_complete hsize.full hpart.full (Nat.le_of_eq (Nat.zero_add _)) hright hbottom
  refine ⟨_, Prod.ext rfl hcomplete, ?_, fun X hX Z hZ => ?_⟩
  · rw [Raster.blit_eq_paint hsize.full hpart.full hcomplete]
    have hsame := Raster.sameSize_paint raster
      ((part.copyStrokes (256 * q.offsetX) (256 * q.offsetZ)))
    exact ⟨hsize.full.of_sameSize hsame, hsame.width_eq.trans hsize.width,
      hsame.height_eq.trans hsize.height⟩
  · rw [Raster.pixel?_blit hsize.full hpart.full hright hbottom (by rw [hsize.width]; exact hX)
      (by rw [hsize.height]; exact hZ), hpart.width, hpart.height]
    by_cases hin : X / 256 = q.offsetX ∧ Z / 256 = q.offsetZ
    · rw [if_pos hin, if_pos (by omega), hpart.pixel _ (by omega) _ (by omega)]
      congr 1 <;> omega
    · rw [if_neg hin, if_neg (by omega)]

/-- Stitching puts the picture where a quadrant was copied, in whatever order. -/
theorem stitch_spec (picture : Nat → Nat → Option Color) (part : Quadrant → Raster)
    {order : List Quadrant}
    (hparts : ∀ q ∈ order, ShowsQuadrant picture q (part q) ∧ q.offsetX < 2 ∧ q.offsetZ < 2)
    {raster : Raster} (hsize : IsRegionSized raster) :
    ∃ final, stitch part order raster = (final, true) ∧ IsRegionSized final ∧
      ∀ X < 512, ∀ Z < 512, final.pixel? X Z =
        if ∃ q ∈ order, X / 256 = q.offsetX ∧ Z / 256 = q.offsetZ then picture X Z
        else raster.pixel? X Z := by
  induction order generalizing raster with
  | nil => exact ⟨raster, rfl, hsize, by simp⟩
  | cons q order ih =>
      obtain ⟨hq, hx, hz⟩ := hparts q List.mem_cons_self
      obtain ⟨next, hblit, hnext, hpixel⟩ := blit_quadrant hsize hq hx hz
      obtain ⟨final, hfinal, hsized, hrest⟩ :=
        ih (fun q hq => hparts q (List.mem_cons_of_mem _ hq)) hnext
      refine ⟨final, by rw [stitch, hblit]; exact hfinal, hsized, fun X hX Z hZ => ?_⟩
      -- a later copy decides where it has the pixel, and then shows the same picture
      rw [hrest X hX Z hZ, hpixel X hX Z hZ]
      by_cases hin : ∃ q ∈ order, X / 256 = q.offsetX ∧ Z / 256 = q.offsetZ
      · rw [if_pos hin, if_pos]
        obtain ⟨q', hmem, h⟩ := hin
        exact ⟨q', List.mem_cons_of_mem _ hmem, h⟩
      · rw [if_neg hin]
        refine if_congr ?_ rfl rfl
        simp only [List.mem_cons, exists_eq_or_imp, hin, or_false]

/-- Every position of a region belongs to one of its quadrants. -/
theorem exists_mem_all (region : RegionCoord) {x z : Nat} (hx : x < 2) (hz : z < 2) :
    ∃ q ∈ Quadrant.all region, x = q.offsetX ∧ z = q.offsetZ :=
  ⟨⟨region, x, z⟩, Quadrant.mem_all.mpr ⟨rfl, hx, hz⟩, rfl, rfl⟩

theorem loads_wholeRegion_iff {handle : RegionHandle} {tile : TileSpec} {place : Nat × Nat} :
    Loads handle .wholeRegion (tile.chunkX + place.1, tile.chunkZ + place.2) ↔
      Loads handle tile place := by
  simp [Loads, TileSpec.wholeRegion]

theorem all_load_iff_quadrants (handle : RegionHandle) (region : RegionCoord) :
    (∀ place ∈ TileSpec.wholeRegion.places, Loads handle .wholeRegion place) ↔
      ∀ q ∈ Quadrant.all region, ∀ place ∈ q.tile.places, Loads handle q.tile place := by
  constructor
  · intro h q hq place hplace
    exact loads_wholeRegion_iff.1 (h _ (mem_places_wholeRegion hq hplace))
  · intro h place hplace
    obtain ⟨q, hq, hmem⟩ := List.mem_flatMap.1 ((places_perm_quadrants region).mem_iff.1 hplace)
    obtain ⟨inner, hinner, rfl⟩ := List.mem_map.1 hmem
    exact loads_wholeRegion_iff.2 (h q hq inner hinner)

theorem before_move_iff (dx dz : Nat) (p q : Nat × Nat) :
    Before (dx + p.1, dz + p.2) (dx + q.1, dz + q.2) ↔ Before p q := by
  simp only [Before]
  omega

/-- The first failing chunk of a region is also the first one of the quadrant
that holds it. -/
theorem FirstFailure.quadrant {handle : RegionHandle} {region : RegionCoord} {q : Quadrant}
    {inner : Nat × Nat} {halt : Halt WorldError} (hq : q ∈ Quadrant.all region)
    (hinner : inner ∈ q.tile.places)
    (h : FirstFailure handle .wholeRegion (q.tile.chunkX + inner.1, q.tile.chunkZ + inner.2)
      halt) :
    FirstFailure handle q.tile inner halt where
  inside := TileSpec.mem_places.1 hinner
  fails := by simpa [TileSpec.wholeRegion] using h.fails
  earlier := by
    intro p hx hz hp
    obtain ⟨hwx, hwz⟩ :=
      TileSpec.mem_places.1 (mem_places_wholeRegion hq (TileSpec.mem_places.2 ⟨hx, hz⟩))
    exact loads_wholeRegion_iff.1 (h.earlier _ hwx hwz ((before_move_iff _ _ _ _).2 hp))

theorem showsQuadrant_finalCanvas {handle : RegionHandle} {palette : Palette}
    {policy : ScanPolicy} {q : Quadrant} {region : RegionCoord} (hq : q ∈ Quadrant.all region)
    (hloads : ∀ place ∈ q.tile.places, Loads handle q.tile place) :
    ShowsQuadrant (regionPixel? handle palette policy) q
      (finalCanvas handle palette q.tile policy).surface := by
  have hfits := Quadrant.fits_tile hq
  have hcanvas := fits_finalCanvas handle palette hfits policy
  refine ⟨hcanvas.full, hcanvas.width, hcanvas.height, fun x hx z hz => ?_⟩
  rw [pixel?_eq_regionPixel? hfits hloads hx hz, (tile_corner hq).1, (tile_corner hq).2]

theorem regionSized_finalCanvas (handle : RegionHandle) (palette : Palette)
    (policy : ScanPolicy) :
    IsRegionSized (finalCanvas handle palette .wholeRegion policy).surface := by
  have hfits := fits_finalCanvas handle palette TileSpec.fits_wholeRegion policy
  exact ⟨hfits.full, hfits.width, hfits.height⟩

/-- The quadrants of a rendered region, stitched in any order, give its raster. -/
theorem stitch_eq_wholeRegion {handle : RegionHandle} {palette : Palette} {policy : ScanPolicy}
    {region : RegionCoord} {part : Quadrant → Raster}
    (hloads : ∀ place ∈ TileSpec.wholeRegion.places, Loads handle .wholeRegion place)
    (hpart : ∀ q ∈ Quadrant.all region,
      part q = (finalCanvas handle palette q.tile policy).surface)
    {order : List Quadrant} (horder : order.Perm (Quadrant.all region)) :
    stitch part order (Raster.blank 512 512) =
      ((finalCanvas handle palette .wholeRegion policy).surface, true) := by
  have hquadrants := (all_load_iff_quadrants handle region).1 hloads
  have hblank : IsRegionSized (Raster.blank 512 512) :=
    ⟨Raster.full_blank (by decide) (by decide) (by decide), rfl, rfl⟩
  have hshows : ∀ q ∈ order, ShowsQuadrant (regionPixel? handle palette policy) q (part q) ∧
      q.offsetX < 2 ∧ q.offsetZ < 2 := by
    intro q hq
    have hmem := horder.mem_iff.1 hq
    rw [hpart q hmem]
    exact ⟨showsQuadrant_finalCanvas hmem (hquadrants q hmem), (Quadrant.mem_all.mp hmem).2⟩
  obtain ⟨final, hfinal, hsized, hpixel⟩ := stitch_spec _ part hshows hblank
  have hwhole := regionSized_finalCanvas handle palette policy
  have heq : final = (finalCanvas handle palette .wholeRegion policy).surface := by
    -- every pixel lies in a quadrant, and nothing of the blank raster is left
    refine Raster.ext_pixel? hsized.full hwhole.full (by rw [hsized.width, hwhole.width])
      (by rw [hsized.height, hwhole.height]) fun X hX Z hZ => ?_
    rw [hsized.width] at hX
    rw [hsized.height] at hZ
    have hin : ∃ q ∈ order, X / 256 = q.offsetX ∧ Z / 256 = q.offsetZ := by
      obtain ⟨q, hq, hoffsets⟩ := exists_mem_all region (x := X / 256) (z := Z / 256)
        (by omega) (by omega)
      exact ⟨q, horder.mem_iff.2 hq, hoffsets⟩
    rw [hpixel X hX Z hZ, if_pos hin,
      pixel?_eq_regionPixel? TileSpec.fits_wholeRegion hloads hX hZ]
    simp [TileSpec.wholeRegion]
  rw [hfinal, heq]

theorem countP_events_wholeRegion (handle : RegionHandle) (palette : Palette)
    (policy : ScanPolicy) (region : RegionCoord) {p : Event → Bool}
    (hp : ∀ dx dz event, p (event.move dx dz) = p event) :
    (events handle palette .wholeRegion policy).countP p =
      ((Quadrant.all region).map fun q =>
        (events handle palette q.tile policy).countP p).sum := by
  rw [(events_perm_quadrants handle palette policy region).countP_eq, List.countP_flatMap]
  simp [Function.comp_def, List.countP_map, hp]

theorem unknowns_wholeRegion_perm (handle : RegionHandle) (palette : Palette)
    (policy : ScanPolicy) (region : RegionCoord) :
    ((events handle palette .wholeRegion policy).filterMap Event.unknown?).Perm
      ((Quadrant.all region).flatMap fun q =>
        ((events handle palette q.tile policy).filterMap Event.unknown?).map
          (UnknownBlock.shift (256 * q.offsetX) (256 * q.offsetZ))) := by
  refine ((events_perm_quadrants handle palette policy region).filterMap _).trans (.of_eq ?_)
  rw [List.filterMap_flatMap]
  refine List.flatMap_congr fun q hq => ?_
  obtain ⟨hx, hz⟩ := tile_corner hq
  rw [List.filterMap_map, List.map_filterMap, ← hx, ← hz]
  exact List.filterMap_congr fun event _ => Event.unknown?_move _ _ event

/-- A region in one tile and the same region in four quadrants. Either all of
them are rendered or the region fails with the fault of the quadrant that holds
its first failing chunk. The rasters of the quadrants, stitched in any order,
are the raster of the region, and the reports add up to its report. -/
theorem wholeRegion_agrees_with_quadrants (handle : RegionHandle) (palette : Palette)
    (policy : ScanPolicy) (region : RegionCoord) :
    ((∃ whole, (render handle palette .wholeRegion policy).outcome = .ok whole) ↔
      ∀ q ∈ Quadrant.all region,
        ∃ part, (render handle palette q.tile policy).outcome = .ok part) ∧
    (∀ (whole : RenderedTile) (part : Quadrant → RenderedTile),
      (render handle palette .wholeRegion policy).outcome = .ok whole →
      (∀ q ∈ Quadrant.all region,
        (render handle palette q.tile policy).outcome = .ok (part q)) →
      (∀ order : List Quadrant, order.Perm (Quadrant.all region) →
        stitch (fun q => (part q).raster) order (Raster.blank 512 512) =
          (whole.raster, true)) ∧
      whole.report.renderedChunks =
        ((Quadrant.all region).map fun q => (part q).report.renderedChunks).sum ∧
      whole.report.absentChunks =
        ((Quadrant.all region).map fun q => (part q).report.absentChunks).sum ∧
      whole.report.emptyColumns =
        ((Quadrant.all region).map fun q => (part q).report.emptyColumns).sum ∧
      whole.report.unknownBlocks.toList.Perm
        ((Quadrant.all region).flatMap fun q =>
          (part q).report.unknownBlocks.toList.map
            (UnknownBlock.shift (256 * q.offsetX) (256 * q.offsetZ)))) ∧
    ∀ halt, (render handle palette .wholeRegion policy).outcome = .error halt →
      ∃ place, FirstFailure handle .wholeRegion place halt ∧
        ∃ q ∈ Quadrant.all region, place ∈ movedPlaces q ∧
          (render handle palette q.tile policy).outcome = .error halt := by
  have hfits := TileSpec.fits_wholeRegion
  have hok {tile : TileSpec} (h : tile.Fits) :
      (∃ rendered, (render handle palette tile policy).outcome = .ok rendered) ↔
        ∀ place ∈ tile.places, Loads handle tile place := by
    simp only [outcome_eq_ok_iff h, exists_and_left, exists_eq, and_true]
  refine ⟨?_, ?_, ?_⟩
  · rw [hok hfits, all_load_iff_quadrants handle region]
    exact forall₂_congr fun q hq => (hok (Quadrant.fits_tile hq)).symm
  · intro whole part hwhole hparts
    obtain ⟨hloads, rfl⟩ := (outcome_eq_ok_iff hfits).1 hwhole
    have hpart : ∀ q ∈ Quadrant.all region, part q =
        ⟨(finalCanvas handle palette q.tile policy).surface,
          (finalCanvas handle palette q.tile policy).report⟩ :=
      fun q hq => ((outcome_eq_ok_iff (Quadrant.fits_tile hq)).1 (hparts q hq)).2
    have hreport : ∀ q ∈ Quadrant.all region, (part q).report =
        Event.tally (events handle palette q.tile policy) := by
      intro q hq
      rw [hpart q hq, finalCanvas_report]
    refine ⟨fun order horder => ?_, ?_, ?_, ?_, ?_⟩
    · exact stitch_eq_wholeRegion hloads (fun q hq => by rw [hpart q hq]) horder
    · rw [finalCanvas_report, List.map_congr_left fun q hq => by rw [hreport q hq]]
      exact countP_events_wholeRegion _ _ _ _ Event.isFinished_move
    · rw [finalCanvas_report, List.map_congr_left fun q hq => by rw [hreport q hq]]
      exact countP_events_wholeRegion _ _ _ _ Event.isAbsent_move
    · rw [finalCanvas_report, List.map_congr_left fun q hq => by rw [hreport q hq]]
      exact countP_events_wholeRegion _ _ _ _ Event.isEmpty_move
    · rw [finalCanvas_report, List.flatMap_congr fun q hq => by rw [hreport q hq]]
      exact unknowns_wholeRegion_perm _ _ _ _
  · intro halt hhalt
    obtain ⟨place, hfirst⟩ := (outcome_eq_error_iff hfits).1 hhalt
    have hmem := (places_perm_quadrants region).mem_iff.1 (TileSpec.mem_places.2 hfirst.inside)
    obtain ⟨q, hq, hplace⟩ := List.mem_flatMap.1 hmem
    obtain ⟨inner, hinner, rfl⟩ := List.mem_map.1 hplace
    exact ⟨_, hfirst, q, hq, hplace,
      (outcome_eq_error_iff (Quadrant.fits_tile hq)).2 ⟨inner, hfirst.quadrant hq hinner⟩⟩

/-- A region of which the chunks from (18, 2) eastward do not decode. -/
def tornRegion : RegionHandle where
  coord := ⟨0, 0⟩
  chunk cx cz := if 18 ≤ cx ∧ cz = 2 then .fail (.decode cx cz .markedCorrupt) else .ok none

theorem tornRegion_firstFailure :
    FirstFailure tornRegion .wholeRegion (18, 2) (.failure (.decode 18 2 .markedCorrupt)) where
  inside := by decide
  fails := rfl
  earlier := by
    intro p _ _ hp
    have hintact : ¬ (18 ≤ p.1 ∧ p.2 = 2) := by
      simp only [Before] at hp
      omega
    exact ⟨none, by simp [tornRegion, TileSpec.wholeRegion, hintact]⟩

/-- The ridge is stitched from its quadrants last to first, and the torn region
fails as its north-eastern quadrant does. -/
theorem ridge_stitched_torn_fails :
    (∃ (whole : RenderedTile) (part : Quadrant → RenderedTile),
      (render ridgeRegion Palette.empty .wholeRegion .overworld).outcome = .ok whole ∧
      (∀ q ∈ Quadrant.all ⟨0, 0⟩,
        (render ridgeRegion Palette.empty q.tile .overworld).outcome = .ok (part q)) ∧
      stitch (fun q => (part q).raster) (Quadrant.all ⟨0, 0⟩).reverse (Raster.blank 512 512) =
        (whole.raster, true)) ∧
    (render tornRegion Palette.empty .wholeRegion .overworld).outcome =
      .error (.failure (.decode 18 2 .markedCorrupt)) ∧
    (render tornRegion Palette.empty (TileSpec.quadrant 1 0) .overworld).outcome =
      .error (.failure (.decode 18 2 .markedCorrupt)) := by
  constructor
  · have hloads : ∀ tile : TileSpec, ∀ place ∈ tile.places, Loads ridgeRegion tile place :=
      fun tile place _ => ⟨_, rfl⟩
    obtain ⟨-, hagree, -⟩ :=
      wholeRegion_agrees_with_quadrants ridgeRegion Palette.empty .overworld ⟨0, 0⟩
    have hwhole := congrArg Rendering.outcome
      (render_of_loads Palette.empty TileSpec.fits_wholeRegion .overworld (hloads .wholeRegion))
    have hpart (q : Quadrant) (hq : q ∈ Quadrant.all ⟨0, 0⟩) := congrArg Rendering.outcome
      (render_of_loads Palette.empty (Quadrant.fits_tile hq) .overworld (hloads q.tile))
    refine ⟨_, fun q => ⟨_, _⟩, hwhole, hpart, ?_⟩
    exact (hagree _ _ hwhole hpart).1 _ (List.reverse_perm _)
  · have hwhole : (render tornRegion Palette.empty .wholeRegion .overworld).outcome =
        .error (.failure (.decode 18 2 .markedCorrupt)) :=
      (outcome_eq_error_iff TileSpec.fits_wholeRegion).2 ⟨_, tornRegion_firstFailure⟩
    obtain ⟨-, -, hfails⟩ :=
      wholeRegion_agrees_with_quadrants tornRegion Palette.empty .overworld ⟨0, 0⟩
    obtain ⟨place, hfirst, q, hq, hplace, houtcome⟩ := hfails _ hwhole
    obtain rfl := (tornRegion_firstFailure.unique hfirst).1
    obtain rfl : q = ⟨⟨0, 0⟩, 1, 0⟩ := by
      obtain ⟨inner, hinner, heq⟩ := List.mem_map.1 hplace
      rw [Quadrant.tile_eq hq] at hinner heq
      obtain ⟨hx, hz⟩ := TileSpec.mem_places.1 hinner
      obtain ⟨region, offsetX, offsetZ⟩ := q
      obtain ⟨rfl, -, -⟩ := Quadrant.mem_all.1 hq
      simp only [Prod.mk.injEq, Quadrant.mk.injEq, true_and] at heq hx hz ⊢
      omega
    exact ⟨hwhole, houtcome⟩

end Tile

end TerrainMap
