import TerrainMap.Proofs.Scheduler.Floor

/-!
Jobs in front of a steady sink.

A sink is steady when its answer to a tile depends on the tile and its path
alone; what it does with its state is its own affair. To say what such a sink
accepted, its state is put beside a list of it. A job then ends as it would end
had it the sink to itself, and adds to the list what it would have handed over
alone.
-/

namespace TerrainMap

namespace Sink

variable {σ : Type}

/-- The same raster and path get the same answer in every state. -/
def Steady (sink : Sink σ) : Prop :=
  ∀ raster path state state', (sink.write raster path state).1 = (sink.write raster path state').1

/-- The sink beside a list of what it accepted. -/
def recorded (sink : Sink σ) : Sink (σ × List (Path × Raster)) where
  write raster path state :=
    match sink.write raster path state.1 with
    | (.ok (), inner) => (.ok (), inner, state.2 ++ [(path, raster)])
    | (.error halt, inner) => (.error halt, inner, state.2)

def taken (answer : Attempt SinkError Unit) (path : Path) (raster : Raster) :
    List (Path × Raster) :=
  match answer with
  | .ok () => [(path, raster)]
  | .error _ => []

theorem recorded_answer (sink : Sink σ) (raster : Raster) (path : Path) (state : σ)
    (kept : List (Path × Raster)) :
    (sink.recorded.write raster path (state, kept)).1 = (sink.write raster path state).1 := by
  simp only [recorded]
  rcases sink.write raster path state with ⟨halt | done, inner⟩
  · rfl
  · rfl

theorem recorded_kept (sink : Sink σ) (raster : Raster) (path : Path) (state : σ)
    (kept : List (Path × Raster)) :
    (sink.recorded.write raster path (state, kept)).2.2 =
      kept ++ taken (sink.write raster path state).1 path raster := by
  simp only [recorded]
  rcases sink.write raster path state with ⟨halt | done, inner⟩
  · exact (List.append_nil kept).symm
  · rfl

theorem reacting_answer (react : Raster → Path → Attempt SinkError Unit) (raster : Raster)
    (path : Path) (kept : Array (Path × Raster)) :
    ((reacting react).write raster path kept).1 = react raster path := by
  simp only [reacting]
  cases react raster path with
  | ok done => rfl
  | error halt => rfl

theorem steady_reacting (react : Raster → Path → Attempt SinkError Unit) :
    (reacting react).Steady := by
  intro raster path state state'
  rw [reacting_answer, reacting_answer]

end Sink

namespace Workshop

variable {σ : Type}

/-- The part of a job before its tile is handed to the sink. -/
def rendering (shop : Workshop σ) (region : RegionCoord) (tile : TileSpec) :
    Array LogLine × Attempt JobError RenderedTile :=
  match shop.world.openRegion region with
  | .error cause => (#[], .fail (.opening cause))
  | .ok handle =>
    let run := Tile.render handle shop.palette tile shop.policy
    (run.log, run.outcome.mapCause .rendering)

/-- A job renders, which touches no sink, and hands over what it rendered. -/
theorem renderTile_eq (shop : Workshop σ) (region : RegionCoord) (tile : TileSpec) (output : Path)
    (state : σ) :
    shop.renderTile region tile output state =
      match shop.rendering region tile with
      | (log, .error halt) => ⟨.error halt, log, state⟩
      | (log, .ok rendered) =>
        let written := shop.sink.write rendered.raster output state
        ⟨(written.1.mapCause .writing).map fun _ => rendered.report, log, written.2⟩ := by
  simp only [renderTile, rendering]
  cases shop.world.openRegion region with
  | error cause => rfl
  | ok handle =>
      simp only
      rcases Tile.render handle shop.palette tile shop.policy with ⟨log, halt | rendered⟩
      · rfl
      · rcases hwrite : shop.sink.write rendered.raster output state with ⟨halt | done, after⟩
        · simp [Attempt.mapCause, hwrite, Except.map]
        · simp [Attempt.mapCause, hwrite, Except.map]

/-- The shop with a list of what its sink accepted. -/
def recorded (shop : Workshop σ) : Workshop (σ × List (Path × Raster)) :=
  ⟨shop.world, shop.palette, shop.sink.recorded, shop.policy⟩

theorem rendering_recorded (shop : Workshop σ) : shop.recorded.rendering = shop.rendering := rfl

/-- The list beside the sink takes no part in what a job does, and neither does
the state of a steady sink. -/
theorem result_recorded {shop : Workshop σ} (hs : shop.sink.Steady) (region : RegionCoord)
    (tile : TileSpec) (output : Path) (state state' : σ) (kept : List (Path × Raster)) :
    (shop.recorded.renderTile region tile output (state, kept)).result =
      (shop.renderTile region tile output state').result := by
  rw [renderTile_eq, renderTile_eq, rendering_recorded]
  rcases shop.rendering region tile with ⟨log, halt | rendered⟩
  · rfl
  show Except.map _ (Attempt.mapCause _ (shop.sink.recorded.write _ _ _).1) = _
  rw [Sink.recorded_answer, hs rendered.raster output state state']

theorem result_steady {shop : Workshop σ} (hs : shop.sink.Steady) (region : RegionCoord)
    (tile : TileSpec) (output : Path) (state state' : σ) :
    (shop.renderTile region tile output state).result =
      (shop.renderTile region tile output state').result := by
  rw [← result_recorded hs region tile output state state []]
  exact result_recorded hs region tile output state state' []

/-- A job puts on the list what it would put there alone. -/
theorem kept_recorded {shop : Workshop σ} (hs : shop.sink.Steady) (region : RegionCoord)
    (tile : TileSpec) (output : Path) (state state' : σ) (kept : List (Path × Raster)) :
    (shop.recorded.renderTile region tile output (state, kept)).sinkState.2 =
      kept ++ (shop.recorded.renderTile region tile output (state', [])).sinkState.2 := by
  rw [renderTile_eq, renderTile_eq, rendering_recorded]
  rcases shop.rendering region tile with ⟨log, halt | rendered⟩
  · exact (List.append_nil kept).symm
  show (shop.sink.recorded.write rendered.raster output (state, kept)).2.2 =
    kept ++ (shop.sink.recorded.write rendered.raster output (state', [])).2.2
  rw [Sink.recorded_kept, Sink.recorded_kept, hs rendered.raster output state state',
    List.nil_append]

end Workshop

end TerrainMap
