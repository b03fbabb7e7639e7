import Mathlib.Algebra.Group.Int.Defs
import Mathlib.Data.Set.Function
import TerrainMap.Proofs.Scheduler.Drawing
import TerrainMap.Proofs.World.Tiles

/-!
Where the tiles of a run go. The quadrants of all regions that can be told by
signed words fill a grid of such words without gaps and without overlaps, and
the chunks of a quadrant lie in the square of the world that its place in the
grid stands for. A tile is named by its place, and a name is read in one way; so
the tiles of distinct regions lie side by side in their directory, each under a
path of its own.
-/

namespace TerrainMap

/-- The chunk at a position inside the region belongs to the tile. -/
def TileSpec.HasChunk (tile : TileSpec) (cx cz : Nat) : Prop :=
  (tile.chunkX ≤ cx ∧ cx < tile.chunkX + tile.chunksX) ∧
    tile.chunkZ ≤ cz ∧ cz < tile.chunkZ + tile.chunksZ

namespace Quadrant

/-- The quarters of the regions that fit the grid. -/
def inGrid : Set Quadrant := {q | q.region.FitsGrid ∧ q.offsetX < 2 ∧ q.offsetZ < 2}

/-- The places that are told by signed words of 32 bits. -/
def grid : Set (Int × Int) := {t | Decimal.inInt32 t.1 = true ∧ Decimal.inInt32 t.2 = true}

theorem mapsTo_tileCoord : Set.MapsTo tileCoord inGrid grid := by
  rintro q ⟨hgrid, hox, hoz⟩
  simp only [grid, tileCoord_eq hgrid hox hoz, Set.mem_ofPred_eq, Decimal.inInt32_iff]
  obtain ⟨⟨hx, hx'⟩, hz, hz'⟩ := hgrid
  omega

theorem injOn_tileCoord : Set.InjOn tileCoord inGrid := by
  intro q hq q' hq' h
  exact tileCoord_inj (mem_all.mpr ⟨rfl, hq.2⟩) (mem_all.mpr ⟨rfl, hq'.2⟩) hq.1 hq'.1 h

theorem surjOn_tileCoord : Set.SurjOn tileCoord inGrid grid := by
  rintro ⟨x, z⟩ ⟨hx, hz⟩
  rw [Decimal.inInt32_iff] at hx hz
  have hgrid : (ofTileCoord (x, z)).region.FitsGrid := by
    simp only [RegionCoord.FitsGrid, ofTileCoord]
    omega
  exact ⟨ofTileCoord (x, z), ⟨hgrid, (mem_all.mp (ofTileCoord_mem_all (x, z))).2⟩,
    tileCoord_ofTileCoord hgrid⟩

theorem injOn_outputName : Set.InjOn outputName inGrid := by
  intro q hq q' hq' h
  obtain ⟨hx, hz⟩ := tileName_inj h
  exact injOn_tileCoord hq hq' (Prod.ext hx hz)

/-- The chunks of a quadrant lie in the square that its tile stands for. -/
theorem tileCoord_of_hasChunk {q : Quadrant} (hq : q ∈ inGrid) {cx cz : Nat}
    (h : q.tile.HasChunk cx cz) :
    (cx + 32 * q.region.x) / 16 = q.tileCoord.1 ∧ (cz + 32 * q.region.z) / 16 = q.tileCoord.2 := by
  obtain ⟨⟨hx, hx'⟩, hz, hz'⟩ := h
  obtain ⟨hax, haz⟩ := Tile.place_eq hq.1 (mem_all.mpr ⟨rfl, hq.2⟩) (cx - q.tile.chunkX)
    (cz - q.tile.chunkZ)
  have hsize : q.tile.chunksX = 16 ∧ q.tile.chunksZ = 16 := ⟨rfl, rfl⟩
  simp only [regionChunks] at hax haz
  omega

end Quadrant

namespace Scheduler

/-- The outcomes of a run name a tile for each quarter of its regions, in the
directory and under paths that differ in their components. -/
structure KeepsApart (regions : List RegionCoord) (directory : Path)
    (outcomes : List JobOutcome) : Prop where
  length_eq : outcomes.length = 4 * regions.length
  counted : ∀ o ∈ outcomes, o.quadrant.tileCoord ∈ Quadrant.grid
  inside : ∀ o ∈ outcomes, Path.IsName o.quadrant.outputName ∧
    o.output.components = directory.components ++ [.name o.quadrant.outputName]
  apart : (outcomes.map fun o => o.output.components).Nodup

theorem IsSerial.keepsApart {σ : Type} {shop : Workshop σ} {directory : Path} {state after : σ}
    {regions : List RegionCoord} {outcomes : List JobOutcome}
    (h : IsSerial shop directory state regions outcomes after) (hregions : regions.Nodup)
    (hgrid : ∀ c ∈ regions, c.FitsGrid) : KeepsApart regions directory outcomes := by
  have hjob : ∀ o ∈ outcomes, o.quadrant ∈ jobs regions := fun o ho =>
    h.jobs_perm.subset (List.mem_map_of_mem ho)
  have hinGrid : ∀ o ∈ outcomes, o.quadrant ∈ Quadrant.inGrid := fun o ho =>
    ⟨hgrid _ (mem_jobs.mp (hjob o ho)).1, (mem_jobs.mp (hjob o ho)).2⟩
  have hinside : ∀ o ∈ outcomes, Path.IsName o.quadrant.outputName ∧
      o.output.components = directory.components ++ [.name o.quadrant.outputName] := by
    intro o ho
    have hname : Path.IsName o.quadrant.outputName := Quadrant.isName_tileName _ _
    obtain ⟨calls, hbooked⟩ := h.exists_booked ho
    have houtput : o.output = outputPath directory o.quadrant := hbooked.output_eq
    rw [houtput]
    exact ⟨hname, Path.components_join directory hname⟩
  refine ⟨?_, fun o ho => Quadrant.mapsTo_tileCoord (hinGrid o ho), hinside, ?_⟩
  · have hlength := h.jobs_perm.length_eq
    rwa [List.length_map, length_jobs] at hlength
  · -- two outcomes with one path have one name, so one quadrant
    have hnodup := h.jobs_perm.nodup_iff.mpr (nodup_jobs hregions)
    rw [List.Nodup, List.pairwise_map] at hnodup ⊢
    refine hnodup.imp_of_mem fun {o o'} ho ho' hne heq => hne ?_
    rw [(hinside o ho).2, (hinside o' ho').2] at heq
    have hname := List.append_cancel_left heq
    simp only [List.cons.injEq, Path.Component.name.injEq, and_true] at hname
    exact Quadrant.injOn_outputName (hinGrid o ho) (hinGrid o' ho') hname

open Quadrant in
/-- **No two tiles share a name.** The quarters of the regions that fit the grid
stand one to one for the places of the grid, and they have different names. The
chunks of a tile, counted from the origin of the world, all lie in the square of
its place. So the tiles of a run over distinct regions go to different paths, in
whatever order its jobs are done, and all of these paths are entries of the
directory. -/
theorem tile_names_never_collide :
    Set.BijOn tileCoord inGrid grid ∧ Set.InjOn outputName inGrid ∧
    (∀ q ∈ inGrid, ∀ cx cz, q.tile.HasChunk cx cz →
      (((cx : Int) + 32 * q.region.x) / 16, ((cz : Int) + 32 * q.region.z) / 16) = q.tileCoord) ∧
    ∀ (σ : Type) (world : WorldStore) (palette : Palette) (policy : ScanPolicy) (sink : Sink σ)
      (regions : List RegionCoord), regions.Nodup → (∀ c ∈ regions, c.FitsGrid) →
      ∀ (directory : Path) (state : σ) (workers : Nat),
        (∀ last, Completes ⟨world, palette, sink, policy⟩ directory (ofWorkers workers).workers
            regions state last →
          KeepsApart regions directory last.collected) ∧
        KeepsApart regions directory (((ofWorkers workers).withPolicy policy).run world palette
          sink regions directory state).outcomes := by
  refine ⟨⟨mapsTo_tileCoord, injOn_tileCoord, surjOn_tileCoord⟩, injOn_outputName, ?_, ?_⟩
  · intro q hq cx cz hchunk
    obtain ⟨hx, hz⟩ := tileCoord_of_hasChunk hq hchunk
    exact Prod.ext hx hz
  · intro σ world palette policy sink regions hregions hgrid directory state workers
    constructor
    · intro last hlast
      exact (hlast.isSerial (crew_pos workers)).keepsApart hregions hgrid
    · exact (isSerial_run ((ofWorkers workers).withPolicy policy) world palette sink regions
        directory state).keepsApart hregions hgrid

/-- The tile in the last corner of the grid, and a run over two regions on
either side of the origin. -/
theorem corner_tiles_apart :
    let corner : Quadrant := ⟨⟨-1073741824, 1073741823⟩, 0, 1⟩
    let regions : List RegionCoord := [⟨0, 0⟩, ⟨-1, 0⟩]
    let shop : Workshop (Array (Path × Raster)) :=
      ⟨(MemoryWorld.ofInsertions []).store, Palette.ofList [], Sink.reacting fun _ _ => .ok (),
        .overworld⟩
    (corner ∈ Quadrant.inGrid ∧ corner.tile.HasChunk 15 31 ∧
      corner.tileCoord = (-2147483648, 2147483647) ∧
      (((15 : Nat) + 32 * -1073741824 : Int) / 16, ((31 : Nat) + 32 * 1073741823 : Int) / 16) =
        corner.tileCoord) ∧
    (regions.Nodup ∧ ∀ c ∈ regions, c.FitsGrid) ∧
    ∃ last, Completes shop ⟨"out"⟩ (ofWorkers 3).workers regions #[] last ∧
      last.collected.length = 8 ∧ (last.collected.map fun o => o.output.components).Nodup := by
  intro corner regions shop
  obtain ⟨-, -, hchunks, hruns⟩ := tile_names_never_collide
  have hcorner : corner ∈ Quadrant.inGrid := by
    simp [corner, Quadrant.inGrid, RegionCoord.FitsGrid]
  have hchunk : corner.tile.HasChunk 15 31 := by
    have htile : corner.tile = ⟨0, 16, 16, 16⟩ :=
      Quadrant.tile_eq (Quadrant.mem_all.mpr ⟨rfl, hcorner.2⟩)
    simp [htile, TileSpec.HasChunk]
  have hplace : corner.tileCoord = (-2147483648, 2147483647) := by
    simp [Quadrant.tileCoord_eq hcorner.1 hcorner.2.1 hcorner.2.2, corner]
  have hregions : regions.Nodup := by decide
  have hgrid : ∀ c ∈ regions, c.FitsGrid := by simp [regions, RegionCoord.FitsGrid]
  obtain ⟨last, hlast⟩ := exists_completes shop ⟨"out"⟩ (crew_pos 3) regions #[]
  have hapart := (hruns _ shop.world shop.palette shop.policy shop.sink regions hregions hgrid
    ⟨"out"⟩ #[] 3).1 last hlast
  exact ⟨⟨hcorner, hchunk, hplace, hchunks corner hcorner 15 31 hchunk⟩, ⟨hregions, hgrid⟩, last,
    hlast, hapart.length_eq, hapart.apart⟩

end Scheduler

end TerrainMap
