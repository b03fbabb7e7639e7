import Mathlib.Data.List.Nodup
import TerrainMap.Proofs.Path
import TerrainMap.Proofs.Quadrant
import TerrainMap.Scheduler

/-!
The jobs of a run: four for every listed region, each with a tile of its own.
Tiles are told apart by their paths.
-/

namespace TerrainMap.Scheduler

variable {regions : List RegionCoord} {directory : Path} {q q' : Quadrant}

theorem length_jobs (regions : List RegionCoord) : (jobs regions).length = 4 * regions.length := by
  induction regions with
  | nil => rfl
  | cons region rest ih =>
      simp only [jobs, List.flatMap_cons, List.length_append, List.length_cons] at ih ⊢
      rw [ih]
      simp only [Quadrant.all, List.length_cons, List.length_nil]
      omega

theorem mem_jobs : q ∈ jobs regions ↔ q.region ∈ regions ∧ q.offsetX < 2 ∧ q.offsetZ < 2 := by
  simp only [jobs, List.mem_flatMap, Quadrant.mem_all]
  constructor
  · rintro ⟨region, hregion, rfl, hoffsets⟩
    exact ⟨hregion, hoffsets⟩
  · rintro ⟨hregion, hoffsets⟩
    exact ⟨q.region, hregion, rfl, hoffsets⟩

theorem mem_all_of_mem_jobs (h : q ∈ jobs regions) : q ∈ Quadrant.all q.region :=
  Quadrant.mem_all.mpr ⟨rfl, (mem_jobs.mp h).2⟩

/-- A list that repeats no region gives no job twice. -/
theorem nodup_jobs (hregions : regions.Nodup) : (jobs regions).Nodup := by
  rw [jobs, List.nodup_flatMap]
  constructor
  · intro region _
    simp [Quadrant.all]
  · apply hregions.imp
    intro region region' hne q hq hq'
    exact hne ((Quadrant.mem_all.mp hq).1.symm.trans (Quadrant.mem_all.mp hq').1)

section Grid

variable (hgrid : ∀ region ∈ regions, region.FitsGrid)
include hgrid

theorem tileCoord_inj_of_jobs (hq : q ∈ jobs regions) (hq' : q' ∈ jobs regions)
    (h : q.tileCoord = q'.tileCoord) : q = q' :=
  Quadrant.tileCoord_inj (mem_all_of_mem_jobs hq) (mem_all_of_mem_jobs hq')
    (hgrid _ (mem_jobs.mp hq).1) (hgrid _ (mem_jobs.mp hq').1) h

/-- The jobs draw the positions of the grid whose regions are listed. -/
theorem exists_job_iff {x z : Int} :
    (∃ q ∈ jobs regions, q.tileCoord = (x, z)) ↔ (⟨x / 2, z / 2⟩ : RegionCoord) ∈ regions := by
  constructor
  · rintro ⟨q, hq, hcoord⟩
    obtain ⟨hregion, hx, hz⟩ := mem_jobs.mp hq
    have hplace := Quadrant.ofTileCoord_tileCoord (hgrid _ hregion) hx hz
    rw [← hplace, hcoord] at hregion
    exact hregion
  · intro hregion
    refine ⟨Quadrant.ofTileCoord (x, z), mem_jobs.mpr ⟨hregion, ?_⟩,
      Quadrant.tileCoord_ofTileCoord (hgrid _ hregion)⟩
    exact (Quadrant.mem_all.mp (Quadrant.ofTileCoord_mem_all (x, z))).2

variable {quadrants : List Quadrant} (h : quadrants.Perm (jobs regions))
include h

theorem nodup_coords (hregions : regions.Nodup) : (quadrants.map Quadrant.tileCoord).Nodup := by
  apply (h.nodup_iff.mpr (nodup_jobs hregions)).map_on
  intro q hq q' hq' hcoord
  exact tileCoord_inj_of_jobs hgrid (h.subset hq) (h.subset hq') hcoord

theorem mem_coords_iff {x z : Int} :
    (x, z) ∈ quadrants.map Quadrant.tileCoord ↔ (⟨x / 2, z / 2⟩ : RegionCoord) ∈ regions := by
  rw [List.mem_map, ← exists_job_iff hgrid]
  simp only [h.mem_iff]

end Grid

/-- Where the tile at a position of the grid goes. -/
def tilePath (directory : Path) (x z : Int) : Path := directory.join ⟨Quadrant.tileName x z⟩

theorem outputPath_eq (directory : Path) (q : Quadrant) :
    outputPath directory q = tilePath directory q.tileCoord.1 q.tileCoord.2 := rfl

theorem tilePath_inj {x z x' z' : Int} (h : tilePath directory x z = tilePath directory x' z') :
    x = x' ∧ z = z' :=
  Quadrant.tileName_inj
    (Path.join_inj (Quadrant.slash_not_mem_tileName x z) (Quadrant.slash_not_mem_tileName x' z') h)

/-- No two jobs write to the same path. -/
theorem outputPath_inj (hgrid : ∀ region ∈ regions, region.FitsGrid) (hq : q ∈ jobs regions)
    (hq' : q' ∈ jobs regions) (h : outputPath directory q = outputPath directory q') : q = q' := by
  rw [outputPath_eq, outputPath_eq] at h
  obtain ⟨hx, hz⟩ := tilePath_inj h
  exact tileCoord_inj_of_jobs hgrid hq hq' (Prod.ext hx hz)

end TerrainMap.Scheduler
