import TerrainMap.MapRun
import TerrainMap.Proofs.Discovery
import TerrainMap.Proofs.Tile.Render
import TerrainMap.Proofs.World.Reopening

/-!
Runs of a whole directory. What is discovered is opened by name, so a run finds
all its regions and writes no tile twice where every region file is named as
its region is.
-/

namespace TerrainMap

namespace SavedWorld

variable {host : Host} {t : FileTree} {source path : Path} {coord : RegionCoord}

theorem openRegion_ne_missing (hfile : t.isFile (regionPath t source coord) = true) :
    openRegion host t source coord ≠ .error (.missingRegion path) := by
  simp only [FileTree.isFile] at hfile
  simp only [openRegion, openFile, bind, Except.bind]
  split at hfile
  · rename_i content hlookup
    rw [hlookup]
    cases content with
    | image raster => simp
    | bytes data =>
        simp only
        cases host.openRegion? data with
        | none => simp
        | some read => simp [pure, Except.pure]
  · cases hfile

theorem chunk_ne_missing {handle : RegionHandle}
    (h : openRegion host t source coord = .ok handle) (cx cz : Nat) :
    handle.chunk cx cz ≠ .error (.failure (.missingRegion path)) := by
  obtain ⟨read, -, rfl⟩ := openRegion_eq_ok_iff.mp h
  simp only [loadChunk]
  cases read cx cz with
  | error fault => cases fault <;> simp [Attempt.fail, Except.map, WorldError.ofRegionFault]
  | ok found =>
      cases found with
      | none => simp [Except.map]
      | some data =>
          simp only
          rcases Chunk.StoredChunk.decode host.readChunk data.toList with (cause | _) | chunk
          · simp [Attempt.mapCause, Except.map]
          · simp [Attempt.mapCause, Except.map]
          · simp [Attempt.mapCause, Except.map]

end SavedWorld

namespace MapRun

open Scheduler

/-- No job missed its region, and no two jobs wrote to one path. -/
structure FindsAll (outcomes : List JobOutcome) : Prop where
  opened : ∀ o ∈ outcomes, ∀ path, o.result ≠ .error (.opening (.missingRegion path)) ∧
    o.result ≠ .error (.rendering (.missingRegion path))
  distinct : (outcomes.map (·.output)).Nodup

/-- Jobs that cannot open their regions leave everything as it is, and so the next
of them cannot do so either. -/
theorem runJobsAt_of_unopened {σ : Type} {shopAt : σ → Workshop σ} {state : σ}
    {order : List Quadrant} {cause : WorldError} (directory : Path)
    (h : ∀ q ∈ order, (shopAt state).world.openRegion q.region = .error cause) :
    let run := runJobsAt shopAt directory order state
    run.outcomes.length = order.length ∧ run.sinkState = state ∧
      ∀ o ∈ run.outcomes, o.result = .error (.opening cause) := by
  induction order using List.reverseRecOn with
  | nil => exact ⟨rfl, rfl, by simp [runJobsAt]⟩
  | append_singleton order q ih =>
      obtain ⟨hlength, hstate, hearlier⟩ := ih fun q' hq' => h q' (List.mem_append_left _ hq')
      obtain ⟨hlast, hafter⟩ := runJobsAt_append_singleton shopAt directory order q state
      have hopen := h q (List.mem_append_right _ (List.mem_singleton_self q))
      simp only [hlast, hafter, hstate, outcomeFrom, stateAfter, Workshop.renderQuadrant,
        Workshop.renderTile, hopen]
      refine ⟨?_, trivial, List.forall_mem_cons.mpr ⟨rfl, hearlier⟩⟩
      rw [List.length_cons, hlength, List.length_append, List.length_singleton]

section Run

variable {host : Host} {settings : Settings} {palette : Palette} {directory : Path}
  {t : FileTree} {regions : List RegionCoord}

/-- A job whose region has a file does not miss it. -/
theorem result_ne_missing {o : JobOutcome} {calls : List SinkCall} {path : Path}
    (h : Booked (savedShop host settings palette directory t) settings.outDir ⟨o, calls⟩)
    (hjob : o.quadrant ∈ jobs regions)
    (hfile : t.isFile (SavedWorld.regionPath t directory o.quadrant.region) = true) :
    o.result ≠ .error (.opening (.missingRegion path)) ∧
      o.result ≠ .error (.rendering (.missingRegion path)) := by
  have hfits := Quadrant.fits_tile (mem_all_of_mem_jobs hjob)
  cases h with
  | unopened hopen =>
      refine ⟨?_, by simp⟩
      rintro heq
      cases heq
      exact SavedWorld.openRegion_ne_missing hfile hopen
  | unloaded hopen hrender =>
      refine ⟨by simp, ?_⟩
      rintro heq
      cases heq
      obtain ⟨place, hplace⟩ := (Tile.outcome_eq_error_iff hfits).mp hrender
      exact SavedWorld.chunk_ne_missing hopen _ _ hplace.fails
  | brokenOff => simp
  | written => simp
  | refused => simp
  | sinkCrashed => simp

theorem findsAll_of_liveCompletes {workers : Nat} {last : Floor FileTree}
    (hworkers : 0 < workers) (hdirectory : t.isDirectory directory = true)
    (hnodup : regions.Nodup) (hgrid : ∀ coord ∈ regions, coord.FitsGrid)
    (hfiles : ∀ coord ∈ regions,
      t.isFile (SavedWorld.regionPath t directory coord) = true)
    (h : LiveCompletes (savedShop host settings palette directory) settings.outDir workers
      regions t last) : FindsAll last.collected := by
  obtain ⟨last₀, hlast₀, halike⟩ := alike_of_liveCompletes hdirectory hworkers h
  have hserial := hlast₀.isSerial hworkers
  have hquadrants : last.collected.map (·.quadrant) = last₀.collected.map (·.quadrant) :=
    JobOutcome.map_eq_of_forall₂ (fun o o' h => h.quadrant) halike.collected
  have houtputs : last.collected.map (·.output) = last₀.collected.map (·.output) :=
    JobOutcome.map_eq_of_forall₂ (fun o o' h => h.output) halike.collected
  refine ⟨?_, houtputs ▸ hserial.nodup_outputs hgrid hnodup⟩
  intro o ho path
  have hjob : o.quadrant ∈ jobs regions :=
    (hquadrants ▸ hserial.jobs_perm).subset (List.mem_map_of_mem ho)
  -- the job was done in a tree in which its file was still there
  obtain ⟨seen, hreach⟩ := h.reached
  have hended : o ∈ last.ended := List.mem_append_right _ (List.mem_mergeSort.mp ho)
  obtain ⟨past, hpast, state, q, rfl⟩ := hreach.exists_outcomeFrom rfl o hended
  have hgrows : FileTree.Grows (tilePlaces settings.outDir t) t past :=
    hreach.grows (fun _ => rfl) past hpast
  have hfile := SavedWorld.isFile_regionPath hgrows
    (fun _ _ => not_isRegionName_of_mem_tilePlaces) hdirectory
    (hfiles _ (mem_jobs.mp hjob).1)
  exact result_ne_missing
    (booked_entryFrom (savedShop host settings palette directory past) _ state q) hjob hfile

end Run

/-- **Opening finds what discovery lists, where region files have the names of
their regions.** The listed regions are those that the names of regular files
are read as. Each is listed once and opened by such a file just when every one
of these names is the name that its region is written with. If the regions then fit
the grid, a run finds all of them and writes no tile twice, in whatever order its
jobs are done and even if it writes among the region files. -/
theorem canonical_names_are_found (t : FileTree) (ht : t.WellFormed) (directory : Path)
    {regions : List RegionCoord} {skipped : List LogLine}
    (hdiscover : Discovery.discover t directory = .ok (regions, skipped)) :
    (∀ coord, coord ∈ regions ↔ ∃ name, Discovery.Accepts t directory name coord) ∧
    ((regions.Nodup ∧ ∀ coord ∈ regions, ∃ name coord',
        Discovery.Accepts t directory name coord' ∧
          SavedWorld.regionPath t directory coord = directory.join ⟨name⟩) ↔
      Discovery.NamedCanonically t directory) ∧
    (Discovery.NamedCanonically t directory → (∀ coord ∈ regions, coord.FitsGrid) →
      ∀ (host : Host) (settings : Settings) (palette : Palette),
      let shopAt := savedShop host settings palette directory
      let crew := (ofWorkers settings.workers).workers
      (host.threadFault? crew = none →
        ∃ done, renderRegions host settings palette directory regions t = .ok done ∧
          FindsAll done.outcomes) ∧
      ∀ last, LiveCompletes shopAt settings.outDir crew regions t last →
        FindsAll last.collected) := by
  refine ⟨fun coord => Discovery.mem_discover ht hdiscover,
    Discovery.namedCanonically_iff ht hdiscover, ?_⟩
  intro hcanonical hgrid host settings palette shopAt crew
  obtain ⟨hnodup, hopened⟩ := (Discovery.namedCanonically_iff ht hdiscover).mpr hcanonical
  obtain ⟨names, hlist, -⟩ := Discovery.discover_spec hdiscover
  have hdirectory := FileTree.isDirectory_of_list hlist
  have hfiles : ∀ coord ∈ regions,
      t.isFile (SavedWorld.regionPath t directory coord) = true := by
    intro coord hcoord
    obtain ⟨name, coord', haccepts, hpath⟩ := hopened coord hcoord
    rw [hpath]
    exact haccepts.isFile
  have hall (last : Floor FileTree)
      (hlast : LiveCompletes shopAt settings.outDir crew regions t last) :
      FindsAll last.collected :=
    findsAll_of_liveCompletes (crew_pos settings.workers) hdirectory hnodup hgrid hfiles hlast
  refine ⟨fun hthreads => ?_, hall⟩
  have hdone := renderRegions_of_none hthreads palette directory regions t
  obtain ⟨last, hlast, hcollected, -⟩ := exists_liveCompletes hdone
  exact ⟨_, hdone, hcollected ▸ hall last hlast⟩

def files (names : List String) : FileTree :=
  ⟨[], (["w"], .directory) :: names.map fun name => (["w", name], .file (.bytes ByteArray.empty))⟩

/-- A directory with a region file and a file of another kind. -/
theorem one_region_is_found :
    let t := files ["level.dat", "r.-1.7.mca"]
    Discovery.discover t ⟨"w"⟩ =
        .ok ([⟨-1, 7⟩], [Discovery.skippedLine ⟨"w"⟩ "level.dat"]) ∧
      ∀ settings palette, ∃ done,
        renderRegions Host.own settings palette ⟨"w"⟩ [⟨-1, 7⟩] t = .ok done ∧
          FindsAll done.outcomes := by
  intro t
  have hdiscover : Discovery.discover t ⟨"w"⟩ =
      .ok ([⟨-1, 7⟩], [Discovery.skippedLine ⟨"w"⟩ "level.dat"]) := by decide +kernel
  have ht : t.WellFormed := by decide +kernel
  obtain ⟨-, -, hruns⟩ := canonical_names_are_found t ht ⟨"w"⟩ hdiscover
  have hlist : t.list ⟨"w"⟩ = .ok ["level.dat", "r.-1.7.mca"] := by decide +kernel
  have hother : Discovery.regionOf? t ⟨"w"⟩ "level.dat" = none := by decide +kernel
  have hregion : Discovery.regionOf? t ⟨"w"⟩ "r.-1.7.mca" = some ⟨-1, 7⟩ := by decide +kernel
  have hcanonical : Discovery.NamedCanonically t ⟨"w"⟩ := by
    intro name coord haccepts
    obtain ⟨hname, hcoord⟩ := (Discovery.accepts_iff ht hlist).mp haccepts
    simp only [List.mem_cons, List.not_mem_nil, or_false] at hname
    rcases hname with rfl | rfl
    · cases hother.symm.trans hcoord
    · cases hregion.symm.trans hcoord
      decide +kernel
  have hgrid : ∀ coord ∈ [(⟨-1, 7⟩ : RegionCoord)], coord.FitsGrid := by decide
  refine ⟨hdiscover, ?_⟩
  intro settings palette
  exact (hruns hcanonical hgrid Host.own settings palette).1 rfl

/-- Names that are read but never written: a plus sign makes a run look for a
file that is not there, and a negative zero has a region listed twice. -/
theorem signed_names_are_misread :
    let plus := files ["r.+1.1.mca"]
    let twins := files ["r.0.0.mca", "r.-0.0.mca"]
    plus.WellFormed ∧ twins.WellFormed ∧
      Discovery.discover plus ⟨"w"⟩ = .ok ([⟨1, 1⟩], []) ∧
      (∀ settings palette, ∃ done,
        renderRegions Host.own settings palette ⟨"w"⟩ [⟨1, 1⟩] plus = .ok done ∧
          done.outcomes.length = 4 ∧ ∀ o ∈ done.outcomes,
            o.result = .error (.opening (.missingRegion ⟨"w/r.1.1.mca"⟩))) ∧
      Discovery.discover twins ⟨"w"⟩ = .ok ([⟨0, 0⟩, ⟨0, 0⟩], []) := by
  intro plus twins
  refine ⟨by decide +kernel, by decide +kernel, by decide +kernel, ?_, ?_⟩
  · intro settings palette
    have hpath : SavedWorld.regionPath plus ⟨"w"⟩ ⟨1, 1⟩ = ⟨"w/r.1.1.mca"⟩ := by decide +kernel
    have hlookup : plus.lookup ⟨"w/r.1.1.mca"⟩ = .error .notFound := by decide +kernel
    have hmissing : SavedWorld.openRegion Host.own plus ⟨"w"⟩ ⟨1, 1⟩ =
        .error (.missingRegion ⟨"w/r.1.1.mca"⟩) := by
      simp only [SavedWorld.openRegion, hpath, SavedWorld.openFile, hlookup]
      rfl
    have hjobs : ∀ q ∈ jobs [⟨1, 1⟩],
        (savedShop Host.own settings palette ⟨"w"⟩ plus).world.openRegion q.region =
          .error (.missingRegion ⟨"w/r.1.1.mca"⟩) := by
      intro q hq
      rw [List.mem_singleton.mp (mem_jobs.mp hq).1]
      exact hmissing
    obtain ⟨hlength, -, hall⟩ := runJobsAt_of_unopened settings.outDir hjobs
    refine ⟨_, renderRegions_of_none rfl palette ⟨"w"⟩ [⟨1, 1⟩] plus, ?_, fun o ho => hall o ?_⟩
    · rw [runAt, List.length_mergeSort, List.length_reverse]
      exact hlength
    · exact List.mem_reverse.mp (List.mem_mergeSort.mp ho)
  · have hlist : twins.list ⟨"w"⟩ = .ok ["r.0.0.mca", "r.-0.0.mca"] := by decide +kernel
    have hregions : ["r.0.0.mca", "r.-0.0.mca"].filterMap (Discovery.regionOf? twins ⟨"w"⟩) =
        [⟨0, 0⟩, ⟨0, 0⟩] := by decide +kernel
    have hskipped : Discovery.skippedLines twins ⟨"w"⟩ ["r.0.0.mca", "r.-0.0.mca"] = [] := by
      decide +kernel
    simp only [Discovery.discover, hlist, bind, Except.bind, Discovery.regionsAmong, hregions,
      hskipped]
    rw [List.mergeSort_of_pairwise (by decide)]
    rfl

end MapRun

end TerrainMap
