import TerrainMap.MapRun
import TerrainMap.Proofs.Scheduler.Drawing
import TerrainMap.Proofs.Scheduler.Live
import TerrainMap.Proofs.World.Saved

/-!
Regions that are read while tiles are written. A run may write its tiles beside
the regions that it reads, or among them. A tile is never named as a region
file is, though, so a region file that was there at first stays as it was, and the
directory of the regions stays a directory: whenever a job opens its region, it
finds what it would have found before the run.
-/

namespace TerrainMap

namespace Scheduler

theorem not_isRegionName_tileName (x z : Int) :
    ¬ FileTree.IsRegionName (Quadrant.tileName x z) := by
  apply FileTree.not_isRegionName (c := 'g')
  · rw [Quadrant.toList_tileName, ← List.cons_append, ← List.append_assoc, List.getLast?_append]
    rfl
  · decide

/-- The places of all tiles that can be drawn into a directory. -/
def tilePlaces (directory : Path) (t : FileTree) : Set Location :=
  {location | ∃ q, location = t.destination (outputPath directory q)}

theorem not_isRegionName_of_mem_tilePlaces {directory : Path} {t : FileTree} {location : Location}
    {name : String} (h : location ++ [name] ∈ tilePlaces directory t) :
    ¬ FileTree.IsRegionName name := by
  obtain ⟨q, hplace⟩ := h
  rw [destination_outputPath] at hplace
  obtain ⟨-, hname⟩ := List.append_inj' hplace rfl
  rw [(List.cons.inj hname).1]
  exact not_isRegionName_tileName _ _

/-- A job changes nothing but the place of its tile. -/
theorem grows_stateAfter {host : Host} {shop : Workshop FileTree}
    (hsink : shop.sink = Sink.imageFiles host) (directory : Path) (s : FileTree) (q : Quadrant) :
    FileTree.Grows {s.destination (outputPath directory q)} s (stateAfter shop directory s q) := by
  obtain ⟨parent, hparent⟩ := Path.parent?_join directory
  simp only [stateAfter, Workshop.renderQuadrant, Workshop.renderTile_eq, hsink]
  rcases hrendering : shop.rendering q.region q.tile with ⟨log, halt | rendered⟩
  · exact .refl _ s
  · have htile : HasTile shop q rendered := by rw [HasTile, hrendering]
    simp only [Sink.imageFiles]
    exact Sink.grows_writeInto htile.size.1 htile.size.2 (parent?_outputPath hparent q)

/-- All trees that a run shows are grown from the one it found. -/
theorem LiveReaches.grows {host : Host} {shopAt : FileTree → Workshop FileTree}
    {directory : Path} {workers : Nat} {start f : Floor FileTree} {seen : List FileTree}
    (hsink : ∀ past, (shopAt past).sink = Sink.imageFiles host)
    (h : LiveReaches shopAt directory workers start seen f) :
    ∀ past ∈ seen,
      FileTree.Grows (tilePlaces directory start.sinkState) start.sinkState past := by
  apply h.holds (P := FileTree.Grows (tilePlaces directory start.sinkState) start.sinkState)
    (.refl _ _)
  intro past s q _ hgrown
  have hplace : s.destination (outputPath directory q) ∈
      tilePlaces directory start.sinkState := ⟨q, hgrown.destination _⟩
  exact hgrown.trans ((grows_stateAfter (hsink past) directory s q).mono
    (Set.singleton_subset_iff.mpr hplace))

end Scheduler

namespace MapRun

open Scheduler

/-- What the jobs of a run have in common when they find a tree. -/
def savedShop (host : Host) (settings : Settings) (palette : Palette) (directory : Path)
    (t : FileTree) : Workshop FileTree :=
  ⟨SavedWorld.store host t directory, palette, Sink.imageFiles host, settings.policy⟩

section Kept

variable {host : Host} {settings : Settings} {palette : Palette} {directory : Path}
  {t : FileTree} {regions : List RegionCoord} {workers : Nat} {floor last : Floor FileTree}
  {seen : List FileTree} (hdirectory : t.isDirectory directory = true)
include hdirectory

/-- In all trees that a run shows the region files are as they were, and so are
the regions that a job can open. -/
theorem kept_of_liveReaches
    (h : LiveReaches (savedShop host settings palette directory) settings.outDir workers
      (Floor.opening regions t) seen floor) :
    ∀ past ∈ seen, FileTree.KeepsRegionFiles t past ∧
      (savedShop host settings palette directory t).OpensAlike
        (savedShop host settings palette directory past) := by
  intro past hpast
  have hgrows : FileTree.Grows (tilePlaces settings.outDir t) t past :=
    h.grows (fun _ => rfl) past hpast
  have htiles : ∀ location name, location ++ [name] ∈ tilePlaces settings.outDir t →
      ¬ FileTree.IsRegionName name := fun _ _ => not_isRegionName_of_mem_tilePlaces
  exact ⟨hgrows.keepsRegionFiles htiles, rfl, rfl, rfl, fun coord handle =>
    SavedWorld.openRegion_grows hgrows htiles hdirectory⟩

/-- So a run goes as it would go if its regions were all read beforehand. -/
theorem alike_of_liveCompletes (hworkers : 0 < workers)
    (h : LiveCompletes (savedShop host settings palette directory) settings.outDir workers
      regions t last) :
    ∃ last₀, Completes (savedShop host settings palette directory t) settings.outDir workers
      regions t last₀ ∧ last₀.Alike last := by
  obtain ⟨seen, hreach⟩ := h.reached
  obtain ⟨last₀, hreach₀, halike⟩ := hreach.alike fun past hpast =>
    (kept_of_liveReaches hdirectory hreach past hpast).2
  exact ⟨last₀, ⟨hreach₀, (isDone_iff_stuck hworkers).mp (halike.isDone h.done)⟩, halike⟩

end Kept

/-- A run has its threads, or it does nothing. -/
theorem renderRegions_of_none {host : Host} {settings : Settings}
    (h : host.threadFault? (ofWorkers settings.workers).workers = none) (palette : Palette)
    (source : Path) (regions : List RegionCoord) (t : FileTree) :
    renderRegions host settings palette source regions t =
      .ok (((ofWorkers settings.workers).withPolicy settings.policy).runAt
        (SavedWorld.store host · source) palette (Sink.imageFiles host) regions settings.outDir
        t) := by
  rw [renderRegions, Scheduler.start]
  simp only [ofWorkers] at h ⊢
  rw [h]

theorem renderRegions_of_some {host : Host} {settings : Settings} {detail : String}
    (h : host.threadFault? (ofWorkers settings.workers).workers = some detail) (palette : Palette)
    (source : Path) (regions : List RegionCoord) (t : FileTree) :
    renderRegions host settings palette source regions t = .fail (.threads detail) := by
  rw [renderRegions, Scheduler.start]
  simp only [ofWorkers] at h ⊢
  rw [h]

/-- The run of the program is a complete execution. -/
theorem exists_liveCompletes {host : Host} {settings : Settings} {palette : Palette}
    {source : Path} {regions : List RegionCoord} {t : FileTree} {done : ScheduleRun FileTree}
    (h : renderRegions host settings palette source regions t = .ok done) :
    ∃ last, LiveCompletes (savedShop host settings palette source) settings.outDir
        (ofWorkers settings.workers).workers regions t last ∧
      last.collected = done.outcomes ∧ last.sinkState = done.sinkState := by
  cases hfault : host.threadFault? (ofWorkers settings.workers).workers with
  | some detail =>
      rw [renderRegions_of_some hfault] at h
      cases h
  | none =>
      rw [renderRegions_of_none hfault] at h
      cases h
      exact exists_liveCompletes_runAt settings.outDir (crew_pos settings.workers) t
        ((ofWorkers settings.workers).withPolicy settings.policy) _ _ _ _

end MapRun

end TerrainMap
