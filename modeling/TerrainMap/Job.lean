import TerrainMap.Quadrant
import TerrainMap.Sink

/-!
Jobs: a job opens a region, renders one tile of it and hands the tile to a
sink. Nothing reaches the sink unless the whole tile was rendered.
-/

namespace TerrainMap

/-- The step at which a job failed, with the cause. A job that crashed inside
a run of many counts as failed without a cause. -/
inductive JobError where
  | opening (cause : WorldError)
  | rendering (cause : WorldError)
  | writing (cause : SinkError)
  | crashed
  deriving DecidableEq, Repr

def JobError.message : JobError → String
  | opening cause => cause.message
  | rendering cause => "render failed: " ++ cause.message
  | writing cause => cause.message
  | crashed => "render job panicked"

/-- How a job ended, what it logged, and the state it left the sink in. -/
structure JobRun (σ : Type) where
  result : Attempt JobError TileReport
  log : Array LogLine
  sinkState : σ

/-- What all jobs of a run have in common. -/
structure Workshop (σ : Type) where
  world : WorldStore
  palette : Palette
  sink : Sink σ
  policy : ScanPolicy

namespace Workshop

variable {σ : Type}

def renderTile (shop : Workshop σ) (region : RegionCoord) (tile : TileSpec) (output : Path)
    (state : σ) : JobRun σ :=
  match shop.world.openRegion region with
  | .error cause => ⟨.fail (.opening cause), #[], state⟩
  | .ok handle =>
    match Tile.render handle shop.palette tile shop.policy with
    | ⟨log, .error halt⟩ => ⟨.error (halt.mapCause .rendering), log, state⟩
    | ⟨log, .ok rendered⟩ =>
      match shop.sink.write rendered.raster output state with
      | (.error halt, state) => ⟨.error (halt.mapCause .writing), log, state⟩
      | (.ok (), state) => ⟨.ok rendered.report, log, state⟩

def renderQuadrant (shop : Workshop σ) (q : Quadrant) (output : Path) (state : σ) : JobRun σ :=
  shop.renderTile q.region q.tile output state

def renderWholeRegion (shop : Workshop σ) (region : RegionCoord) (output : Path) (state : σ) :
    JobRun σ :=
  shop.renderTile region TileSpec.wholeRegion output state

end Workshop

end TerrainMap
