import TerrainMap.Proofs.Row
import TerrainMap.Proofs.Tile.Size

/-!
The events of a tile. Rendering is a loop over chunks, rows and columns that
changes a canvas, a report and a log as it goes. Here the loop is turned into
the list of what it meets, in the order in which it is met; what a rendered
tile shows, counts and logs is then read off that list. The list does not
depend on what is painted on.
-/

namespace TerrainMap

namespace Tile

/-- What is met while a tile is rendered: an absent chunk, a column, or the end
of a chunk. Places are those of the chunks inside the tile, `x` and `z` those
of the column inside its chunk. -/
inductive Event where
  | absent (place : Nat × Nat)
  | column (place : Nat × Nat) (x z : Nat) (pixel : ColumnPixel)
  | finished
  deriving DecidableEq, Repr

namespace Event

/-- The pixels that an event colours. -/
def strokes : Event → List Stroke
  | absent place =>
    Stroke.grid (place.1 * chunkPixels) (place.2 * chunkPixels) chunkPixels chunkPixels
      fun _ _ => Color.blank
  | column place x z pixel =>
    [⟨place.1 * chunkPixels + x, place.2 * chunkPixels + z, pixel.color⟩]
  | finished => []

def unknown? : Event → Option UnknownBlock
  | column place x z (.unknown id) =>
    some ⟨id, place.1 * chunkPixels + x, place.2 * chunkPixels + z⟩
  | _ => none

def count (report : TileReport) : Event → TileReport
  | absent _ => { report with absentChunks := report.absentChunks + 1 }
  | column _ _ _ (.shaded _) => report
  | column _ _ _ .empty => { report with emptyColumns := report.emptyColumns + 1 }
  | column place x z (.unknown id) =>
    { report with
      unknownBlocks := report.unknownBlocks.push
        ⟨id, place.1 * chunkPixels + x, place.2 * chunkPixels + z⟩ }
  | finished => { report with renderedChunks := report.renderedChunks + 1 }

def line? (coord : RegionCoord) (tile : TileSpec) : Event → Option LogLine
  | absent place => some (absentLine coord (tile.chunkX + place.1) (tile.chunkZ + place.2))
  | column place _ _ (.unknown id) =>
    some (unknownLine id coord (tile.chunkX + place.1) (tile.chunkZ + place.2))
  | _ => none

def Inside (tile : TileSpec) : Event → Prop
  | absent place => place.1 < tile.chunksX ∧ place.2 < tile.chunksZ
  | column place x z _ =>
    place.1 < tile.chunksX ∧ place.2 < tile.chunksZ ∧ x < chunkEdge ∧ z < chunkEdge
  | finished => True

end Event

def rowColumns (chunk : ChunkView) (policy : ScanPolicy) (z count : Nat) : List Column :=
  (List.range count).map fun x => Column.resolve chunk x z policy

/-- The state of the row scan before the column at `x`, `z` of a chunk. -/
def rowBefore (chunk : ChunkView) (palette : Palette) (policy : ScanPolicy) (x z : Nat) : RowScan :=
  RowScan.start.after palette (rowColumns chunk policy z x)

def columnPixel (chunk : ChunkView) (palette : Palette) (policy : ScanPolicy) (x z : Nat) :
    ColumnPixel :=
  ((rowBefore chunk palette policy x z).step (Column.resolve chunk x z policy) palette).2

/-- A pixel shows nothing of a chunk but the columns of its row up to its own. -/
theorem columnPixel_congr {chunk chunk' : ChunkView} {palette : Palette} {policy : ScanPolicy}
    {x z : Nat} (h : ∀ x' ≤ x, Column.resolve chunk x' z policy =
      Column.resolve chunk' x' z policy) :
    columnPixel chunk palette policy x z = columnPixel chunk' palette policy x z := by
  have hcolumns : rowColumns chunk policy z x = rowColumns chunk' policy z x :=
    List.map_congr_left fun x' hx' => h x' (Nat.le_of_lt (List.mem_range.1 hx'))
  rw [columnPixel, columnPixel, rowBefore, rowBefore, hcolumns, h x (Nat.le_refl x)]

theorem rowBefore_zero (chunk : ChunkView) (palette : Palette) (policy : ScanPolicy) (z : Nat) :
    rowBefore chunk palette policy 0 z = RowScan.start := rfl

theorem step_rowBefore (chunk : ChunkView) (palette : Palette) (policy : ScanPolicy) (x z : Nat) :
    (rowBefore chunk palette policy x z).step (Column.resolve chunk x z policy) palette =
      (rowBefore chunk palette policy (x + 1) z, columnPixel chunk palette policy x z) := by
  refine Prod.ext ?_ rfl
  rw [rowBefore, rowBefore, rowColumns, rowColumns, List.range_succ, List.map_append,
    List.map_singleton, RowScan.after_append_singleton]

/-- The events of `count` columns of a row, whose next one is `x`. -/
def rowEvents (chunk : ChunkView) (palette : Palette) (policy : ScanPolicy) (place : Nat × Nat)
    (z x count : Nat) : List Event :=
  (List.range' x count).map fun x => .column place x z (columnPixel chunk palette policy x z)

/-- The events of `count` rows of a chunk, whose next one is `z`. -/
def rowsEvents (chunk : ChunkView) (palette : Palette) (policy : ScanPolicy) (place : Nat × Nat)
    (z count : Nat) : List Event :=
  (List.range' z count).flatMap fun z => rowEvents chunk palette policy place z 0 chunkEdge

/-- The events of a place of a tile for which `found` was read. -/
def placeEvents (palette : Palette) (policy : ScanPolicy) (place : Nat × Nat)
    (found : Option ChunkView) : List Event :=
  match found with
  | none => [.absent place]
  | some chunk => rowsEvents chunk palette policy place 0 chunkEdge ++ [.finished]

theorem rowEvents_succ (chunk : ChunkView) (palette : Palette) (policy : ScanPolicy)
    (place : Nat × Nat) (z x count : Nat) :
    rowEvents chunk palette policy place z x (count + 1) =
      .column place x z (columnPixel chunk palette policy x z) ::
        rowEvents chunk palette policy place z (x + 1) count := by
  rw [rowEvents, List.range'_succ, List.map_cons]
  rfl

theorem rowsEvents_succ (chunk : ChunkView) (palette : Palette) (policy : ScanPolicy)
    (place : Nat × Nat) (z count : Nat) :
    rowsEvents chunk palette policy place z (count + 1) =
      rowEvents chunk palette policy place z 0 chunkEdge ++
        rowsEvents chunk palette policy place (z + 1) count := by
  rw [rowsEvents, List.range'_succ, List.flatMap_cons]
  rfl

theorem inside_of_mem_rowEvents {chunk : ChunkView} {palette : Palette} {policy : ScanPolicy}
    {tile : TileSpec} {place : Nat × Nat} {z x count : Nat} {event : Event}
    (hplace : place.1 < tile.chunksX ∧ place.2 < tile.chunksZ) (hz : z < chunkEdge)
    (hx : x + count ≤ chunkEdge) (h : event ∈ rowEvents chunk palette policy place z x count) :
    event.Inside tile := by
  obtain ⟨x', hx', rfl⟩ := List.mem_map.1 h
  rw [List.mem_range'_1] at hx'
  exact ⟨hplace.1, hplace.2, by omega, hz⟩

theorem inside_of_mem_placeEvents {palette : Palette} {policy : ScanPolicy} {tile : TileSpec}
    {place : Nat × Nat} {found : Option ChunkView} {event : Event}
    (hplace : place.1 < tile.chunksX ∧ place.2 < tile.chunksZ)
    (h : event ∈ placeEvents palette policy place found) : event.Inside tile := by
  cases found with
  | none =>
      simp only [placeEvents, List.mem_singleton] at h
      subst h
      exact hplace
  | some chunk =>
      simp only [placeEvents, rowsEvents, List.mem_append, List.mem_flatMap,
        List.mem_singleton] at h
      rcases h with ⟨z, hz, h⟩ | rfl
      · rw [List.mem_range'_1] at hz
        exact inside_of_mem_rowEvents hplace (by omega) (by simp) h
      · trivial

/-- The strokes of events, in the order of the events. -/
def strokesOf (events : List Event) : List Stroke := events.flatMap Event.strokes

theorem strokesOf_append (front back : List Event) :
    strokesOf (front ++ back) = strokesOf front ++ strokesOf back := List.flatMap_append

end Tile

/-! ### Canvases and events -/

namespace Canvas

section Events

variable {σ : Type} (painter : Painter σ) (coord : RegionCoord) (tile : TileSpec)

/-- The canvas after events, all of whose strokes have a place on it. -/
def after (canvas : Canvas σ) (events : List Tile.Event) : Canvas σ where
  surface := (painter.paint canvas.surface (Tile.strokesOf events)).1
  report := events.foldl Tile.Event.count canvas.report
  log := canvas.log ++ (events.filterMap (Tile.Event.line? coord tile)).toArray

/-- All strokes of the events have a place on the canvas. -/
def Takes (canvas : Canvas σ) (events : List Tile.Event) : Prop :=
  (painter.paint canvas.surface (Tile.strokesOf events)).2 = true

variable {painter coord tile} {canvas : Canvas σ} {front back : List Tile.Event}

@[simp] theorem after_nil : canvas.after painter coord tile [] = canvas := by
  simp [after, Tile.strokesOf]

theorem takes_append (coord : RegionCoord) (tile : TileSpec) (front back : List Tile.Event) :
    canvas.Takes painter (front ++ back) ↔
      canvas.Takes painter front ∧ (canvas.after painter coord tile front).Takes painter back := by
  rw [Takes, Takes, Takes, Tile.strokesOf_append, Painter.paint_append]
  by_cases h : (painter.paint canvas.surface (Tile.strokesOf front)).2 = true
  · rw [if_pos h]
    exact (and_iff_right h).symm
  · rw [if_neg h]
    exact ⟨fun h' => absurd h' h, fun h' => absurd h'.1 h⟩

theorem after_append (h : canvas.Takes painter front) :
    canvas.after painter coord tile (front ++ back) =
      (canvas.after painter coord tile front).after painter coord tile back := by
  have hpaint := painter.paint_append canvas.surface (Tile.strokesOf front) (Tile.strokesOf back)
  rw [if_pos (show (painter.paint _ _).2 = true from h)] at hpaint
  simp only [after, Tile.strokesOf_append, hpaint, List.foldl_append, List.filterMap_append,
    Array.append_assoc, List.append_toArray]

end Events

variable {tile : TileSpec} {canvas : Canvas Raster}

/-- The raster of the canvas has the size of the tile. -/
structure Fits (canvas : Canvas Raster) (tile : TileSpec) : Prop where
  full : canvas.surface.Full
  width : canvas.surface.width = tile.chunksX * chunkPixels
  height : canvas.surface.height = tile.chunksZ * chunkPixels

theorem fits_blank (h : tile.Fits) :
    (fresh (Raster.blank tile.width tile.height)).Fits tile :=
  ⟨h.full_blank, h.width_eq, h.height_eq⟩

theorem sameSize_after (canvas : Canvas Raster) (coord : RegionCoord) (tile : TileSpec)
    (events : List Tile.Event) :
    canvas.surface.SameSize (canvas.after Raster.painter coord tile events).surface :=
  Raster.sameSize_paint canvas.surface _

theorem Fits.after (h : canvas.Fits tile) (coord : RegionCoord) (events : List Tile.Event) :
    (canvas.after Raster.painter coord tile events).Fits tile where
  full := h.full.of_sameSize (sameSize_after canvas coord tile events)
  width := (sameSize_after canvas coord tile events).width_eq.trans h.width
  height := (sameSize_after canvas coord tile events).height_eq.trans h.height

/-- The strokes of an event inside the tile have their pixels. -/
theorem Fits.holds (h : canvas.Fits tile) {event : Tile.Event} (hin : event.Inside tile) :
    canvas.surface.Holds event.strokes := by
  have hw : canvas.surface.width = tile.chunksX * 16 := h.width
  have hh : canvas.surface.height = tile.chunksZ * 16 := h.height
  cases event with
  | absent place =>
      obtain ⟨hx, hz⟩ := hin
      exact Raster.holds_grid _ (by rw [hw, chunkPixels]; omega) (by rw [hh, chunkPixels]; omega)
  | column place x z pixel =>
      obtain ⟨hpx, hpz, hx, hz⟩ := hin
      simp only [chunkEdge] at hx hz
      intro s hs
      simp only [Tile.Event.strokes, List.mem_singleton] at hs
      subst hs
      constructor
      · show place.1 * 16 + x < canvas.surface.width
        omega
      · show place.2 * 16 + z < canvas.surface.height
        omega
  | finished => simp [Tile.Event.strokes, Raster.Holds]

theorem Fits.holds_strokesOf (h : canvas.Fits tile) {events : List Tile.Event}
    (hin : ∀ event ∈ events, event.Inside tile) :
    canvas.surface.Holds (Tile.strokesOf events) := by
  intro s hs
  obtain ⟨event, hevent, hs⟩ := List.mem_flatMap.1 hs
  exact h.holds (hin event hevent) s hs

theorem Fits.takes (h : canvas.Fits tile) {events : List Tile.Event}
    (hin : ∀ event ∈ events, event.Inside tile) : canvas.Takes Raster.painter events :=
  Raster.paint_complete h.full (h.holds_strokesOf hin)

end Canvas

end TerrainMap
