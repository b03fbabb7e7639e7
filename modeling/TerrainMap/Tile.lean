import TerrainMap.Log
import TerrainMap.Raster
import TerrainMap.Row
import TerrainMap.World.Store

/-!
Tiles of the map. A tile shows a rectangle of chunks of one region, a pixel for
each column. Absent chunks, empty columns and blocks without a colour leave
blank pixels and are counted in the tile's report; a chunk that does not load
ends the tile.
-/

namespace TerrainMap

def chunkPixels : Nat := 16

/-- A rectangle of chunks, placed by chunk positions inside the region. -/
structure TileSpec where
  chunkX : Nat
  chunkZ : Nat
  chunksX : Nat
  chunksZ : Nat
  deriving DecidableEq, Repr

namespace TileSpec

def quadrantChunks : Nat := regionChunks / 2

/-- A quarter of a region. The offsets count quadrants. -/
def quadrant (offsetX offsetZ : Nat) : TileSpec :=
  ⟨Word.mul offsetX quadrantChunks, Word.mul offsetZ quadrantChunks, quadrantChunks,
    quadrantChunks⟩

def wholeRegion : TileSpec := ⟨0, 0, regionChunks, regionChunks⟩

def width (tile : TileSpec) : Nat := Word.mul tile.chunksX chunkPixels

def height (tile : TileSpec) : Nat := Word.mul tile.chunksZ chunkPixels

/-- The places of the tile's chunks inside the tile, row by row. -/
def places (tile : TileSpec) : List (Nat × Nat) :=
  (List.range tile.chunksZ).flatMap fun z => (List.range tile.chunksX).map fun x => (x, z)

end TileSpec

/-- A block without a colour, with the position of its pixel in the tile. -/
structure UnknownBlock where
  id : String
  x : Nat
  z : Nat
  deriving DecidableEq, Repr

/-- What was met while a tile was rendered. -/
structure TileReport where
  renderedChunks : Nat := 0
  absentChunks : Nat := 0
  emptyColumns : Nat := 0
  unknownBlocks : Array UnknownBlock := #[]
  deriving DecidableEq, Repr

structure RenderedTile where
  raster : Raster
  report : TileReport

/-- A tile under construction, with the lines that were logged for it. Its
pixels are painted on any kind of surface. -/
structure Canvas (σ : Type) where
  surface : σ
  report : TileReport
  log : Array LogLine

/-- The canvas before the first chunk. -/
def Canvas.fresh {σ : Type} (surface : σ) : Canvas σ := ⟨surface, {}, #[]⟩

namespace Tile

def chunkName (coord : RegionCoord) (cx cz : Nat) : String :=
  "region " ++ coord.display ++ " chunk (" ++ Nat.repr cx ++ ", " ++ Nat.repr cz ++ ")"

def absentLine (coord : RegionCoord) (cx cz : Nat) : LogLine :=
  ⟨.info, chunkName coord cx cz ++ " absent"⟩

def unknownLine (id : String) (coord : RegionCoord) (cx cz : Nat) : LogLine :=
  ⟨.warn, "unknown block '" ++ id ++ "' in " ++ chunkName coord cx cz⟩

section Painting

variable {σ : Type}

/-- Counts what a column contributed at the pixel `px`, `pz`. -/
def note (unknownLine : String → LogLine) (px pz : Nat) (pixel : ColumnPixel)
    (canvas : Canvas σ) : Canvas σ :=
  match pixel with
  | .shaded _ => canvas
  | .empty =>
    { canvas with report := { canvas.report with emptyColumns := canvas.report.emptyColumns + 1 } }
  | .unknown id =>
    { canvas with
      report := { canvas.report with
        unknownBlocks := canvas.report.unknownBlocks.push ⟨id, px, pz⟩ }
      log := canvas.log.push (unknownLine id) }

/-! Painting hands back the canvas, and whether the surface had a place for
every pixel that was painted. -/

variable (painter : Painter σ)

def setPixel (canvas : Canvas σ) (px pz : Nat) (c : Color) : Canvas σ × Bool :=
  match canvas with
  | ⟨surface, report, log⟩ =>
    match painter.put surface px pz c with
    | (surface, complete) => (⟨surface, report, log⟩, complete)

/-- Renders `count` columns of a row, whose next one is `x`. The chunk's pixels
begin at `px`, `pz`. -/
def paintRow (chunk : ChunkView) (palette : Palette) (policy : ScanPolicy)
    (unknownLine : String → LogLine) (px pz z : Nat) :
    (count : Nat) → (x : Nat) → RowScan → Canvas σ → Canvas σ × Bool
  | 0, _, _, canvas => (canvas, true)
  | count + 1, x, row, canvas =>
    match row.step (Column.resolve chunk x z policy) palette with
    | (row, pixel) =>
      match setPixel painter (note unknownLine (Word.add px x) (Word.add pz z) pixel canvas)
          (Word.add px x) (Word.add pz z) pixel.color with
      | (canvas, false) => (canvas, false)
      | (canvas, true) => paintRow chunk palette policy unknownLine px pz z count (x + 1) row canvas

/-- Renders `count` rows of a chunk, whose next one is `z`. Every row starts
anew. -/
def paintRows (chunk : ChunkView) (palette : Palette) (policy : ScanPolicy)
    (unknownLine : String → LogLine) (px pz : Nat) :
    (count : Nat) → (z : Nat) → Canvas σ → Canvas σ × Bool
  | 0, _, canvas => (canvas, true)
  | count + 1, z, canvas =>
    match paintRow painter chunk palette policy unknownLine px pz z chunkEdge 0 RowScan.start
        canvas with
    | (canvas, false) => (canvas, false)
    | (canvas, true) => paintRows chunk palette policy unknownLine px pz count (z + 1) canvas

def countRendered (canvas : Canvas σ) : Canvas σ :=
  { canvas with
    report := { canvas.report with renderedChunks := canvas.report.renderedChunks + 1 } }

def paintChunk (chunk : ChunkView) (palette : Palette) (policy : ScanPolicy)
    (unknownLine : String → LogLine) (px pz : Nat) (canvas : Canvas σ) : Canvas σ × Bool :=
  match paintRows painter chunk palette policy unknownLine px pz chunkEdge 0 canvas with
  | (canvas, false) => (canvas, false)
  | (canvas, true) => (countRendered canvas, true)

def countAbsent (canvas : Canvas σ) : Canvas σ :=
  { canvas with
    report := { canvas.report with absentChunks := canvas.report.absentChunks + 1 } }

def paintAbsent (line : LogLine) (px pz : Nat) (canvas : Canvas σ) : Canvas σ × Bool :=
  match canvas with
  | ⟨surface, report, log⟩ =>
    match painter.fillRect surface px pz chunkPixels chunkPixels Color.blank with
    | (surface, false) => (⟨surface, report, log.push line⟩, false)
    | (surface, true) => (countAbsent ⟨surface, report, log.push line⟩, true)

/-- Paints the place of a tile with the chunk that was found for it. -/
def paintPlace (coord : RegionCoord) (palette : Palette) (tile : TileSpec) (policy : ScanPolicy)
    (place : Nat × Nat) (found : Option ChunkView) (canvas : Canvas σ) : Canvas σ × Bool :=
  let cx := Word.add tile.chunkX place.1
  let cz := Word.add tile.chunkZ place.2
  let px := Word.mul place.1 chunkPixels
  let pz := Word.mul place.2 chunkPixels
  match found with
  | none => paintAbsent painter (absentLine coord cx cz) px pz canvas
  | some chunk =>
    paintChunk painter chunk palette policy (fun id => unknownLine id coord cx cz) px pz canvas

/-- Renders the chunks at the given places one after the other, until one does
not load or a pixel has no place. -/
def paintPlaces (region : RegionHandle) (palette : Palette) (tile : TileSpec)
    (policy : ScanPolicy) : List (Nat × Nat) → Canvas σ → Canvas σ × Attempt WorldError Unit
  | [], canvas => (canvas, .ok ())
  | place :: rest, canvas =>
    match region.chunk (Word.add tile.chunkX place.1) (Word.add tile.chunkZ place.2) with
    | .error halt => (canvas, .error halt)
    | .ok found =>
      match paintPlace painter region.coord palette tile policy place found canvas with
      | (canvas, true) => paintPlaces region palette tile policy rest canvas
      | (canvas, false) => (canvas, .error .crash)

end Painting

/-- A rendered tile or what ended it, and in either case what was logged up to
then. -/
structure Rendering where
  log : Array LogLine
  outcome : Attempt WorldError RenderedTile

/-- Renders a tile on a new raster. Where there is no buffer for the raster, the
rendering crashes before a chunk is read. -/
def render (region : RegionHandle) (palette : Palette) (tile : TileSpec) (policy : ScanPolicy) :
    Rendering :=
  match Raster.create? tile.width tile.height with
  | none => ⟨#[], .error .crash⟩
  | some raster =>
    match paintPlaces Raster.painter region palette tile policy tile.places
        (Canvas.fresh raster) with
    | (canvas, .error halt) => ⟨canvas.log, .error halt⟩
    | (⟨raster, report, log⟩, .ok ()) => ⟨log, .ok ⟨raster, report⟩⟩

end Tile

end TerrainMap
