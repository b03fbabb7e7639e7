import TerrainMap.Proofs.Chunk.Written
import TerrainMap.Proofs.Discovery.Listing
import TerrainMap.Proofs.Region.File
import TerrainMap.Proofs.RegionRange
import TerrainMap.Proofs.Summary
import TerrainMap.Proofs.Tile.Quadrants
import TerrainMap.Proofs.World.Reopening

/-!
What a run of a whole directory does to the files. It writes the tiles of the
jobs that succeed and, if it was asked for and there is room, the range file;
it makes directories, and leaves everything else alone. None of this depends on
the order in which the directory is enumerated or the jobs are done.
-/

namespace TerrainMap

theorem RegionRange.not_isRegionName_fileName : ¬ FileTree.IsRegionName fileName :=
  FileTree.not_isRegionName (c := 'n') (by decide) (by decide)

theorem RegionRange.fileName_ne_tileName (x z : Int) : fileName ≠ Quadrant.tileName x z := by
  intro h
  have hcomma : ',' ∈ fileName.toList := by
    rw [h, Quadrant.toList_tileName]
    simp
  exact absurd hcomma (by decide)

namespace MapRun

open Scheduler

variable {host : Host} {settings : Settings} {palette : Palette} {directory : Path}
  {t t' after : FileTree} {regions : List RegionCoord} {outcomes outcomes' : List JobOutcome}

/-! ### The last step -/

/-- The range file is asked for, there is a range, and there is room for the
file in the tree that the jobs have left. -/
structure WritesRange (settings : Settings) (regions : List RegionCoord) (after : FileTree) :
    Prop where
  asked : settings.genRange = true
  inhabited : regions ≠ []
  fits : RegionRange.Fits settings.outDir after

/-- The range file is written, or it cannot be written, or it is not due. -/
theorem finishDirectory_cases (settings : Settings) (regions : List RegionCoord)
    (summary : RunSummary) (log : Array LogLine) (t : FileTree) :
    let run := finishDirectory settings regions summary log t
    (WritesRange settings regions t ∧ run.outcome = .ok summary ∧
      ∃ range, RegionRange.ofRegions? regions = some range ∧
        run.tree = (range.write settings.outDir t).1) ∨
    (settings.genRange = true ∧ regions ≠ [] ∧ ¬ RegionRange.Fits settings.outDir t ∧
      (∃ cause, run.outcome = .fail (.range cause)) ∧
      run.tree = (t.createDirectories settings.outDir).1) ∨
    (¬ (settings.genRange = true ∧ regions ≠ []) ∧ run.outcome = .ok summary ∧ run.tree = t) := by
  simp only [finishDirectory]
  by_cases hasked : settings.genRange = true
  · rw [if_pos hasked]
    cases hrange : RegionRange.ofRegions? regions with
    | none =>
        have hempty := RegionRange.ofRegions?_eq_none_iff.mp hrange
        exact .inr (.inr ⟨fun h => h.2 hempty, rfl, rfl⟩)
    | some range =>
        have hregions : regions ≠ [] := by
          rintro rfl
          cases hrange
        by_cases hfits : RegionRange.Fits settings.outDir t
        · refine .inl ⟨⟨hasked, hregions, hfits⟩, ?_⟩
          have hwrite := RegionRange.write_of_fits range hfits
          simp only [hwrite]
          exact ⟨trivial, range, rfl, by rw [hwrite]⟩
        · obtain ⟨cause, hwrite⟩ := RegionRange.write_of_not_fits range hfits
          simp only [hwrite]
          exact .inr (.inl ⟨hasked, hregions, hfits, ⟨cause, rfl⟩, trivial⟩)
  · rw [if_neg hasked]
    exact .inr (.inr ⟨fun h => hasked h.1, rfl, rfl⟩)

/-- The last step writes nothing but the range file, and only where it is due. -/
theorem grows_finishDirectory (settings : Settings) (regions : List RegionCoord)
    (summary : RunSummary) (log : Array LogLine) (t : FileTree) :
    FileTree.Grows {location | WritesRange settings regions t ∧
        location = t.destination (RegionRange.filePath settings.outDir)} t
      (finishDirectory settings regions summary log t).tree := by
  obtain ⟨hwrites, -, range, -, htree⟩ | ⟨-, -, -, -, htree⟩ | ⟨-, -, htree⟩ :=
    finishDirectory_cases settings regions summary log t
  · rw [htree]
    apply (RegionRange.grows_write range hwrites.fits).mono
    rintro location rfl
    exact ⟨hwrites, rfl⟩
  · rw [htree]
    exact (FileTree.grows_createDirectories t settings.outDir).mono (Set.empty_subset _)
  · rw [htree]
    exact .refl _ t

/-- The order of the nodes does not matter, and neither does the log. -/
theorem finishDirectory_alike (h : FileTree.Alike t t') (settings : Settings)
    (regions : List RegionCoord) (summary : RunSummary) (log log' : Array LogLine) :
    (finishDirectory settings regions summary log' t').outcome =
        (finishDirectory settings regions summary log t).outcome ∧
      FileTree.Alike (finishDirectory settings regions summary log t).tree
        (finishDirectory settings regions summary log' t').tree := by
  simp only [finishDirectory]
  split
  · cases RegionRange.ofRegions? regions with
    | none => exact ⟨rfl, h⟩
    | some range =>
        obtain ⟨hanswer, hwritten⟩ := RegionRange.alike_write range settings.outDir h
        simp only
        rcases hwrite : range.write settings.outDir t with ⟨made, answer⟩
        rcases hwrite' : range.write settings.outDir t' with ⟨made', answer'⟩
        rw [hwrite, hwrite'] at hanswer hwritten
        obtain rfl : answer' = answer := hanswer
        cases answer' with
        | error cause => exact ⟨rfl, hwritten⟩
        | ok path => exact ⟨rfl, hwritten⟩
  · exact ⟨rfl, h⟩

/-! ### The effects of a run -/

/-- Where a run writes: the tiles of the jobs that succeeded, and the range
file. -/
def writtenAt (settings : Settings) (t : FileTree) (regions : List RegionCoord)
    (outcomes : List JobOutcome) (after : FileTree) : Set Location :=
  {location |
    (∃ o ∈ outcomes, (∃ report, o.result = .ok report) ∧
      location = t.destination o.output) ∨
    WritesRange settings regions after ∧
      location = t.destination (settings.outDir.join ⟨RegionRange.fileName⟩)}

/-- What a run with these outcomes does to the tree it found. The jobs are the
quadrants of the regions. A job that succeeds has its tile under its name, the
range file holds the range of the regions, and nothing else is written, least of
all to a region file. -/
structure Effects (host : Host) (settings : Settings) (palette : Palette) (directory : Path)
    (t : FileTree) (regions : List RegionCoord) (outcomes : List JobOutcome) (after : FileTree)
    (run : MapRun) : Prop where
  jobs : (outcomes.map (·.quadrant)).Perm (regions.flatMap Quadrant.all)
  output : ∀ o ∈ outcomes, o.output = settings.outDir.join ⟨o.quadrant.outputName⟩
  tile : ∀ o ∈ outcomes, ∀ report, o.result = .ok report → ∃ handle raster,
    SavedWorld.openRegion host t directory o.quadrant.region = .ok handle ∧
      (Tile.render handle palette o.quadrant.tile settings.policy).outcome =
        .ok ⟨raster, report⟩ ∧
      run.tree.lookup o.output = .ok (.file (.image raster))
  range : WritesRange settings regions after → ∃ range,
    RegionRange.ofRegions? regions = some range ∧
      run.tree.lookup (settings.outDir.join ⟨RegionRange.fileName⟩) =
        .ok (.file (.bytes ("[" ++ Decimal.ofInt range.minX ++ "," ++ Decimal.ofInt range.minZ
          ++ "," ++ Decimal.ofInt range.maxX ++ "," ++ Decimal.ofInt range.maxZ
          ++ "]\n").toUTF8))
  summary : (settings.genRange = true → regions ≠ [] → RegionRange.Fits settings.outDir after) →
    run.outcome = .ok (RunSummary.ofResults (outcomes.map (·.result)))
  failure : settings.genRange = true → regions ≠ [] → ¬ RegionRange.Fits settings.outDir after →
    ∃ cause, run.outcome = .fail (.range cause)
  nothingElse : FileTree.Grows (writtenAt settings t regions outcomes after) t run.tree
  sources : FileTree.KeepsRegionFiles t run.tree

theorem mem_writtenAt_isJoined {location : Location}
    (houtput : ∀ o ∈ outcomes, o.output = outputPath settings.outDir o.quadrant)
    (h : location ∈ writtenAt settings t regions outcomes after) :
    ∃ name, location = t.destination settings.outDir ++ [name] ∧
      ¬ FileTree.IsRegionName name := by
  rcases h with ⟨o, ho, -, hplace⟩ | ⟨-, hplace⟩
  · rw [houtput o ho, destination_outputPath] at hplace
    exact ⟨_, hplace, not_isRegionName_tileName _ _⟩
  · rw [FileTree.destination_join t _ RegionRange.isName_fileName] at hplace
    exact ⟨_, hplace, RegionRange.not_isRegionName_fileName⟩

theorem not_isRegionName_of_mem {location : Location} {name : String}
    (houtput : ∀ o ∈ outcomes, o.output = outputPath settings.outDir o.quadrant)
    (h : location ++ [name] ∈ writtenAt settings t regions outcomes after) :
    ¬ FileTree.IsRegionName name := by
  obtain ⟨name', hplace, hname'⟩ := mem_writtenAt_isJoined houtput h
  obtain ⟨-, hname⟩ := List.append_inj' hplace rfl
  rwa [(List.cons.inj hname).1]

section Serial

variable {o : JobOutcome} (hgrid : ∀ region ∈ regions, region.FitsGrid)
  (h : IsSerial (savedShop host settings palette directory t) settings.outDir t regions
    outcomes after)
include hgrid h

theorem output_of_isSerial (ho : o ∈ outcomes) :
    o.output = outputPath settings.outDir o.quadrant := by
  obtain ⟨parent, hparent⟩ := Path.parent?_join settings.outDir
  rw [(h.drawn rfl hparent hgrid).1 o ho]
  rfl

theorem ok_iff_of_isSerial (ho : o ∈ outcomes) {report : TileReport} :
    o.result = .ok report ↔ ∃ rendered,
      Takes host (savedShop host settings palette directory t) settings.outDir t o.quadrant
          rendered ∧
        rendered.report = report := by
  obtain ⟨parent, hparent⟩ := Path.parent?_join settings.outDir
  rw [(h.drawn rfl hparent hgrid).1 o ho]
  exact outcomeFrom_ok_iff rfl

theorem grows_of_isSerial (summary : RunSummary) (log : Array LogLine) :
    FileTree.Grows (writtenAt settings t regions outcomes after) t
      (finishDirectory settings regions summary log after).tree := by
  obtain ⟨parent, hparent⟩ := Path.parent?_join settings.outDir
  have hjobs := (h.drawn rfl hparent hgrid).2.grows hparent
  have hlast := grows_finishDirectory settings regions summary log after
  refine (hjobs.mono ?_).trans (hlast.mono ?_)
  · rintro location ⟨q, hq, rendered, htakes, hplace⟩
    obtain ⟨o, ho, rfl⟩ := List.mem_map.mp (h.jobs_perm.symm.subset hq)
    refine .inl ⟨o, ho, ⟨_, (ok_iff_of_isSerial hgrid h ho).mpr ⟨rendered, htakes, rfl⟩⟩, ?_⟩
    rw [hplace, output_of_isSerial hgrid h ho]
  · rintro location ⟨hwrites, hplace⟩
    rw [hjobs.destination] at hplace
    exact .inr ⟨hwrites, hplace⟩

/-- The tile of a job that succeeded is there at the end. -/
theorem lookup_tile_of_isSerial (summary : RunSummary) (log : Array LogLine) (ho : o ∈ outcomes)
    {rendered : RenderedTile}
    (htakes : Takes host (savedShop host settings palette directory t) settings.outDir t
      o.quadrant rendered) :
    (finishDirectory settings regions summary log after).tree.lookup o.output =
      .ok (.file (.image rendered.raster)) := by
  obtain ⟨parent, hparent⟩ := Path.parent?_join settings.outDir
  have hthere := (h.drawn rfl hparent hgrid).2.lookup hparent
    (h.jobs_perm.subset (List.mem_map_of_mem ho)) htakes
  rw [output_of_isSerial hgrid h ho]
  refine (grows_finishDirectory settings regions summary log after).lookup_file hthere ?_
  -- the range file has a name of its own
  rintro ⟨-, hplace⟩
  rw [destination_outputPath, RegionRange.filePath,
    FileTree.destination_join after _ RegionRange.isName_fileName] at hplace
  have hname := List.append_cancel_left hplace
  exact RegionRange.fileName_ne_tileName _ _ (List.cons.inj hname).1.symm

/-- However the jobs were done, these are the effects of the run. -/
theorem effects_of_isSerial (log : Array LogLine) :
    Effects host settings palette directory t regions outcomes after
      (finishDirectory settings regions (RunSummary.ofResults (outcomes.map (·.result))) log
        after) := by
  have houtput := fun o ho => output_of_isSerial (o := o) hgrid h ho
  have hgrows := grows_of_isSerial hgrid h (RunSummary.ofResults (outcomes.map (·.result))) log
  have hcases := finishDirectory_cases settings regions
    (RunSummary.ofResults (outcomes.map (·.result))) log after
  refine ⟨h.jobs_perm, houtput, ?_, ?_, ?_, ?_, hgrows, ?_⟩
  · intro o ho report hok
    obtain ⟨rendered, htakes, rfl⟩ := (ok_iff_of_isSerial hgrid h ho).mp hok
    obtain ⟨handle, hopen, hrender⟩ := hasTile_iff.mp htakes.tile
    exact ⟨handle, rendered.raster, hopen, hrender,
      lookup_tile_of_isSerial hgrid h _ log ho htakes⟩
  · intro hwrites
    obtain ⟨-, -, range, hrange, htree⟩ | ⟨-, -, hfits, -⟩ | ⟨hnot, -⟩ := hcases
    · refine ⟨range, hrange, ?_⟩
      rw [htree]
      exact RegionRange.lookup_write range hwrites.fits
    · exact absurd hwrites.fits hfits
    · exact absurd ⟨hwrites.asked, hwrites.inhabited⟩ hnot
  · intro hfits
    obtain ⟨-, hok, -⟩ | ⟨hasked, hregions, hnot, -⟩ | ⟨-, hok, -⟩ := hcases
    · exact hok
    · exact absurd (hfits hasked hregions) hnot
    · exact hok
  · intro hasked hregions hfits
    obtain ⟨hwrites, -⟩ | ⟨-, -, -, hfailed, -⟩ | ⟨hnot, -⟩ := hcases
    · exact absurd hwrites.fits hfits
    · exact hfailed
    · exact absurd ⟨hasked, hregions⟩ hnot
  · exact hgrows.keepsRegionFiles fun _ _ hmem => not_isRegionName_of_mem houtput hmem

/-- In a directory that is written without idle slashes and dots, the jobs do not
decide whether there is room for the range file. -/
theorem fits_iff_of_isSerial
    (hplain : (RegionRange.filePath settings.outDir).parent? = some settings.outDir) :
    RegionRange.Fits settings.outDir after ↔ RegionRange.Fits settings.outDir t := by
  obtain ⟨parent, hparent⟩ := Path.parent?_join settings.outDir
  obtain rfl : parent = settings.outDir :=
    Option.some.inj ((hparent _ RegionRange.isName_fileName).symm.trans hplain)
  have hprepared := (h.drawn rfl hparent hgrid).2.prepared hparent
  have hroom (u : FileTree) (p : Path) :
      u.HasRoom p ↔ (u.write p (.bytes ByteArray.empty)).2 = .ok () :=
    FileTree.write_eq_ok_iff.symm
  have hsame : (after.createDirectories settings.outDir).1.HasRoom
        (RegionRange.filePath settings.outDir) ↔
      (t.createDirectories settings.outDir).1.HasRoom (RegionRange.filePath settings.outDir) := by
    rw [hroom, hroom, RegionRange.filePath,
      hprepared.write_answer hparent RegionRange.isName_fileName]
  constructor
  · rintro ⟨hmade, hfree⟩
    exact ⟨hprepared.answer.symm.trans hmade, hsame.mp hfree⟩
  · rintro ⟨hmade, hfree⟩
    exact ⟨hprepared.answer.trans hmade, hsame.mpr hfree⟩

end Serial

/-! ### Regions that are read while tiles are written -/

theorem ofResults_of_alike (h : outcomes.Forall₂ JobOutcome.Alike outcomes') :
    RunSummary.ofResults (outcomes'.map (·.result)) =
      RunSummary.ofResults (outcomes.map (·.result)) := by
  induction h with
  | nil => rfl
  | cons halike _ ih =>
      rw [List.map_cons, List.map_cons, RunSummary.ofResults_cons, RunSummary.ofResults_cons, ih]
      obtain hsame | ⟨⟨cause, hcause⟩, cause', hcause'⟩ := halike.result
      · rw [hsame]
      · rw [hcause, hcause']
        rfl

/-- The effects of a run do not tell why a region was not opened. -/
theorem Effects.of_alike {run : MapRun}
    (h : Effects host settings palette directory t regions outcomes after run)
    (halike : outcomes.Forall₂ JobOutcome.Alike outcomes') :
    Effects host settings palette directory t regions outcomes' after run := by
  have hquadrants : outcomes'.map (·.quadrant) = outcomes.map (·.quadrant) :=
    JobOutcome.map_eq_of_forall₂ (fun o o' h => h.quadrant) halike
  have hwritten : writtenAt settings t regions outcomes after ⊆
      writtenAt settings t regions outcomes' after := by
    rintro location (⟨o, ho, ⟨report, hok⟩, hplace⟩ | hrange)
    · obtain ⟨o', ho', hsame⟩ := JobOutcome.exists_alike (JobOutcome.forall₂_symm halike) ho
      exact .inl ⟨o', ho', ⟨report, hsame.ok_iff.mp hok⟩, hplace.trans (by rw [hsame.output])⟩
    · exact .inr hrange
  refine ⟨hquadrants ▸ h.jobs, ?_, ?_, h.range, ?_, h.failure, h.nothingElse.mono hwritten,
    h.sources⟩
  · intro o' ho'
    obtain ⟨o, ho, hsame⟩ := JobOutcome.exists_alike halike ho'
    rw [hsame.output, hsame.quadrant]
    exact h.output o ho
  · intro o' ho' report hok
    obtain ⟨o, ho, hsame⟩ := JobOutcome.exists_alike halike ho'
    rw [hsame.output, hsame.quadrant]
    exact h.tile o ho report (hsame.ok_iff.mp hok)
  · intro hfits
    rw [ofResults_of_alike halike]
    exact h.summary hfits

section Live

variable {last last' : Floor FileTree} (hdirectory : t.isDirectory directory = true)
  (hgrid : ∀ region ∈ regions, region.FitsGrid)
  (h : LiveCompletes (savedShop host settings palette directory) settings.outDir
    (ofWorkers settings.workers).workers regions t last)
include hdirectory hgrid h

/-- Every complete execution has the effects of a run. -/
theorem effects_of_liveCompletes (log : Array LogLine) :
    Effects host settings palette directory t regions last.collected last.sinkState
      (finishDirectory settings regions
        (RunSummary.ofResults (last.collected.map (·.result))) log last.sinkState) := by
  obtain ⟨last₀, hlast₀, halike⟩ := alike_of_liveCompletes hdirectory (crew_pos _) h
  have heffects := effects_of_isSerial hgrid (hlast₀.isSerial (crew_pos _)) log
  rw [ofResults_of_alike halike.collected, halike.sinkState]
  exact heffects.of_alike halike.collected

/-- A job succeeds just when the tree that the run found would take its tile. -/
theorem ok_iff_of_liveCompletes {o : JobOutcome} (ho : o ∈ last.collected)
    {report : TileReport} :
    o.result = .ok report ↔ ∃ rendered,
      Takes host (savedShop host settings palette directory t) settings.outDir t o.quadrant
          rendered ∧
        rendered.report = report := by
  obtain ⟨last₀, hlast₀, halike⟩ := alike_of_liveCompletes hdirectory (crew_pos _) h
  obtain ⟨o₀, ho₀, hsame⟩ := JobOutcome.exists_alike halike.collected ho
  rw [hsame.ok_iff, hsame.quadrant]
  exact ok_iff_of_isSerial hgrid (hlast₀.isSerial (crew_pos _)) ho₀

theorem fits_iff_of_liveCompletes
    (hplain : (RegionRange.filePath settings.outDir).parent? = some settings.outDir) :
    RegionRange.Fits settings.outDir last.sinkState ↔ RegionRange.Fits settings.outDir t := by
  obtain ⟨last₀, hlast₀, halike⟩ := alike_of_liveCompletes hdirectory (crew_pos _) h
  rw [halike.sinkState]
  exact fits_iff_of_isSerial hgrid (hlast₀.isSerial (crew_pos _)) hplain

/-- Two executions come to the same, in whatever orders their jobs are done. -/
theorem alike_of_both
    (h' : LiveCompletes (savedShop host settings palette directory) settings.outDir
      (ofWorkers settings.workers).workers regions t last') :
    last.collected.Forall₂ JobOutcome.Alike last'.collected ∧
      FileTree.Alike last.sinkState last'.sinkState := by
  obtain ⟨parent, hparent⟩ := Path.parent?_join settings.outDir
  obtain ⟨last₀, hlast₀, halike⟩ := alike_of_liveCompletes hdirectory (crew_pos _) h
  obtain ⟨last₁, hlast₁, halike'⟩ := alike_of_liveCompletes hdirectory (crew_pos _) h'
  constructor
  · have hsame : last₀.collected = last₁.collected := by
      rw [hlast₀.collected_alone rfl hparent hgrid (crew_pos _),
        hlast₁.collected_alone rfl hparent hgrid (crew_pos _)]
    exact JobOutcome.forall₂_between halike.collected (hsame ▸ halike'.collected)
  · have hdrawn := ((hlast₀.isSerial (crew_pos _)).drawn rfl hparent hgrid).2
    have hdrawn' := ((hlast₁.isSerial (crew_pos _)).drawn rfl hparent hgrid).2
    rw [halike.sinkState, halike'.sinkState]
    exact hdrawn.alike hdrawn'

end Live

/-! ### Orders that do not matter -/

section Nodes

variable (h : FileTree.Alike t t')
include h

/-- A job comes to the same in whatever order the nodes of the tree are kept. -/
theorem job_alike (host : Host) (settings : Settings) (palette : Palette) (directory : Path)
    (q : Quadrant) :
    let shopAt := savedShop host settings palette directory
    outcomeFrom (shopAt t') settings.outDir t' q = outcomeFrom (shopAt t) settings.outDir t q ∧
      FileTree.Alike (stateAfter (shopAt t) settings.outDir t q)
        (stateAfter (shopAt t') settings.outDir t' q) := by
  intro shopAt
  obtain ⟨parent, hparent⟩ := Path.parent?_join settings.outDir
  have hshop : shopAt t' = shopAt t := by
    simp only [shopAt, savedShop, SavedWorld.store_alike host h]
  have hsink : (shopAt t).sink = Sink.imageFiles host := rfl
  have hwrite (rendered : RenderedTile) (htile : HasTile (shopAt t) q rendered) :
      (Sink.writeInto host rendered.raster (outputPath settings.outDir q) t').1 =
          (Sink.writeInto host rendered.raster (outputPath settings.outDir q) t).1 ∧
        FileTree.Alike (Sink.writeInto host rendered.raster (outputPath settings.outDir q) t).2
          (Sink.writeInto host rendered.raster (outputPath settings.outDir q) t').2 :=
    Sink.alike_writeInto htile.size.1 htile.size.2 (parent?_outputPath hparent q) h
  rw [hshop]
  generalize shopAt t = shop at hsink hwrite
  refine ⟨outcomeFrom_congr hsink fun rendered htile => (hwrite rendered htile).1, ?_⟩
  simp only [stateAfter, Workshop.renderQuadrant, Workshop.renderTile_eq, hsink]
  rcases hrendering : shop.rendering q.region q.tile with ⟨log, halt | rendered⟩
  · exact h
  · simp only [Sink.imageFiles]
    exact (hwrite rendered (by rw [HasTile, hrendering])).2

theorem runJobsAt_alike (host : Host) (settings : Settings) (palette : Palette)
    (directory : Path) (order : List Quadrant) :
    let shopAt := savedShop host settings palette directory
    let run := runJobsAt shopAt settings.outDir order t
    let run' := runJobsAt shopAt settings.outDir order t'
    run'.outcomes = run.outcomes ∧ FileTree.Alike run.sinkState run'.sinkState := by
  intro shopAt run run'
  simp only [run, run']
  induction order using List.reverseRecOn with
  | nil => exact ⟨rfl, h⟩
  | append_singleton order q ih =>
      obtain ⟨houtcomes, hstate⟩ := ih
      obtain ⟨hlast, hafter⟩ := runJobsAt_append_singleton shopAt settings.outDir order q t
      obtain ⟨hlast', hafter'⟩ := runJobsAt_append_singleton shopAt settings.outDir order q t'
      obtain ⟨houtcome, hnext⟩ := job_alike hstate host settings palette directory q
      rw [hlast, hlast', hafter, hafter', houtcomes]
      exact ⟨congrArg (· :: _) houtcome, hnext⟩

/-- The jobs come to the same as well, or there are no threads for them. -/
theorem renderRegions_alike (host : Host) (settings : Settings) (palette : Palette)
    (directory : Path) (regions : List RegionCoord) :
    (∃ halt, renderRegions host settings palette directory regions t = .error halt ∧
        renderRegions host settings palette directory regions t' = .error halt) ∨
      ∃ done done', renderRegions host settings palette directory regions t = .ok done ∧
        renderRegions host settings palette directory regions t' = .ok done' ∧
        done'.outcomes = done.outcomes ∧ FileTree.Alike done.sinkState done'.sinkState := by
  cases hthreads : host.threadFault? (ofWorkers settings.workers).workers with
  | some detail =>
      exact .inl ⟨_, renderRegions_of_some hthreads palette directory regions t,
        renderRegions_of_some hthreads palette directory regions t'⟩
  | none =>
      obtain ⟨houtcomes, hstate⟩ :=
        runJobsAt_alike h host settings palette directory (jobs regions)
      refine .inr ⟨_, _, renderRegions_of_none hthreads palette directory regions t,
        renderRegions_of_none hthreads palette directory regions t', ?_, hstate⟩
      exact congrArg
        (fun outcomes => outcomes.reverse.mergeSort fun a b => a.quadrant.le b.quadrant) houtcomes

end Nodes

/-! ### Directory runs -/

theorem execute_of_done {skipped : List LogLine} {done : ScheduleRun FileTree}
    (h : Discovery.discover t directory = .ok (regions, skipped))
    (hdone : renderRegions host settings palette directory regions t = .ok done) :
    ∃ log, execute host (.directory directory) settings palette t =
      finishDirectory settings regions
        (RunSummary.ofResults (done.outcomes.map (·.result))) log done.sinkState :=
  ⟨(skipped ++ emptinessWarning directory regions).toArray ++ done.log,
    by simp only [execute, renderDirectory, h, hdone, summaryOf]⟩

/-- A run that cannot list its directory, or has no threads, does nothing. -/
theorem execute_of_unlisted {cause : FileError} (host : Host) (settings : Settings)
    (palette : Palette) (h : Discovery.discover t directory = .error cause) :
    let run := execute host (.directory directory) settings palette t
    run.outcome = .fail (.listing directory cause) ∧ run.tree = t := by
  simp only [execute, renderDirectory, h]
  exact ⟨trivial, trivial⟩

theorem execute_of_halted {skipped : List LogLine} {halt : Halt RunError}
    (h : Discovery.discover t directory = .ok (regions, skipped))
    (hhalt : renderRegions host settings palette directory regions t = .error halt) :
    let run := execute host (.directory directory) settings palette t
    run.outcome = .error halt ∧ run.tree = t := by
  simp only [execute, renderDirectory, h, hhalt]
  exact ⟨trivial, trivial⟩

/-- The order in which a directory is enumerated shows in nothing but the log. -/
theorem execute_of_perm (ht : t.WellFormed) (hnodes : t'.nodes.Perm t.nodes)
    (hstart : t'.workingDirectory = t.workingDirectory) (host : Host) (directory : Path)
    (settings : Settings) (palette : Palette) :
    let run := execute host (.directory directory) settings palette t
    let run' := execute host (.directory directory) settings palette t'
    run'.outcome = run.outcome ∧ FileTree.Alike run.tree run'.tree ∧
      ∀ regions skipped, Discovery.discover t directory = .ok (regions, skipped) →
        (∃ skipped', Discovery.discover t' directory = .ok (regions, skipped')) ∧
        ∀ done, renderRegions host settings palette directory regions t = .ok done →
          ∃ done', renderRegions host settings palette directory regions t' = .ok done' ∧
            done'.outcomes = done.outcomes := by
  intro run run'
  have halike := FileTree.alike_of_perm ht hnodes hstart
  obtain ⟨regions, skipped, skipped', hdiscover, hdiscover', -⟩ | ⟨cause, hfailed, hfailed'⟩ :=
    Discovery.discover_of_perm ht hnodes hstart directory
  · have hlisted (regions' : List RegionCoord) (skipped'' : List LogLine)
        (h : Discovery.discover t directory = .ok (regions', skipped'')) : regions' = regions := by
      cases hdiscover.symm.trans h
      rfl
    obtain ⟨halt, hhalt, hhalt'⟩ | ⟨done, done', hdone, hdone', houtcomes, hstate⟩ :=
      renderRegions_alike halike host settings palette directory regions
    · obtain ⟨hend, htree⟩ := execute_of_halted hdiscover hhalt
      obtain ⟨hend', htree'⟩ := execute_of_halted hdiscover' hhalt'
      refine ⟨hend'.trans hend.symm, htree ▸ htree' ▸ halike, ?_⟩
      intro regions' skipped'' h
      obtain rfl := hlisted regions' skipped'' h
      refine ⟨⟨skipped', hdiscover'⟩, fun done hdone => ?_⟩
      cases hhalt.symm.trans hdone
    · obtain ⟨log, hrun⟩ := execute_of_done hdiscover hdone
      obtain ⟨log', hrun'⟩ := execute_of_done hdiscover' hdone'
      rw [houtcomes] at hrun'
      obtain ⟨hend, hlast⟩ := finishDirectory_alike hstate settings regions
        (RunSummary.ofResults (done.outcomes.map (·.result))) log log'
      rw [← hrun, ← hrun'] at hend hlast
      refine ⟨hend, hlast, ?_⟩
      intro regions' skipped'' h
      obtain rfl := hlisted regions' skipped'' h
      refine ⟨⟨skipped', hdiscover'⟩, fun other hother => ⟨done', hdone', ?_⟩⟩
      cases hdone.symm.trans hother
      exact houtcomes
  · obtain ⟨hend, htree⟩ := execute_of_unlisted host settings palette hfailed
    obtain ⟨hend', htree'⟩ := execute_of_unlisted host settings palette hfailed'
    refine ⟨hend'.trans hend.symm, htree ▸ htree' ▸ halike, ?_⟩
    intro regions skipped hdiscover
    cases hfailed.symm.trans hdiscover

/-- **What a directory run does to the files.** If the directory cannot be
listed, nothing. Otherwise the listing has one region for each regular file that
is named as a region file. If there are no threads, the run ends with that. If
there are and the regions fit the grid, the tiles of the jobs that succeed are
written, and so is the range file where it is asked for, there is a region, and
there is room for it; over that room the jobs do not decide, if the directory is
written without idle slashes and dots. No other file is touched. At every moment
of the run, in whatever order its jobs are done, the region files are as they
were, and the same regions open. Every order comes to the same, but for the cause
for which a region is not opened, and so does every order in which the directory
is enumerated. -/
theorem directory_run_effects (host : Host) (t : FileTree) (ht : t.WellFormed)
    (directory : Path) (settings : Settings) (palette : Palette) :
    let run := execute host (.directory directory) settings palette t
    let shopAt := savedShop host settings palette directory
    let crew := (ofWorkers settings.workers).workers
    (∀ cause, Discovery.discover t directory = .error cause →
      run.outcome = .fail (.listing directory cause) ∧ run.tree = t) ∧
    (∀ regions skipped, Discovery.discover t directory = .ok (regions, skipped) →
      Discovery.IsListing t directory regions ∧
      (∀ detail, host.threadFault? crew = some detail →
        run.outcome = .fail (.threads detail) ∧ run.tree = t) ∧
      (host.threadFault? crew = none → (∀ coord ∈ regions, coord.FitsGrid) → ∃ done,
        renderRegions host settings palette directory regions t = .ok done ∧
        Effects host settings palette directory t regions done.outcomes done.sinkState run ∧
        ((settings.outDir.join ⟨RegionRange.fileName⟩).parent? = some settings.outDir →
          (RegionRange.Fits settings.outDir done.sinkState ↔
            RegionRange.Fits settings.outDir t)) ∧
        (∀ seen floor,
          LiveReaches shopAt settings.outDir crew (Floor.opening regions t) seen floor →
          FileTree.KeepsRegionFiles t floor.sinkState ∧ ∀ coord handle,
            SavedWorld.openRegion host floor.sinkState directory coord = .ok handle ↔
              SavedWorld.openRegion host t directory coord = .ok handle) ∧
        ∀ last log, LiveCompletes shopAt settings.outDir crew regions t last →
          let finished := finishDirectory settings regions
            (RunSummary.ofResults (last.collected.map (·.result))) log last.sinkState
          Effects host settings palette directory t regions last.collected last.sinkState
              finished ∧
            done.outcomes.Forall₂ JobOutcome.Alike last.collected ∧
            finished.outcome = run.outcome ∧ FileTree.Alike run.tree finished.tree)) ∧
    ∀ t' : FileTree, t'.nodes.Perm t.nodes → t'.workingDirectory = t.workingDirectory →
      let run' := execute host (.directory directory) settings palette t'
      run'.outcome = run.outcome ∧ FileTree.Alike run.tree run'.tree ∧
      ∀ regions skipped, Discovery.discover t directory = .ok (regions, skipped) →
        (∃ skipped', Discovery.discover t' directory = .ok (regions, skipped')) ∧
        ∀ done, renderRegions host settings palette directory regions t = .ok done →
          ∃ done', renderRegions host settings palette directory regions t' = .ok done' ∧
            done'.outcomes = done.outcomes := by
  intro run shopAt crew
  refine ⟨fun cause hdiscover => execute_of_unlisted host settings palette hdiscover, ?_, ?_⟩
  · intro regions skipped hdiscover
    obtain ⟨names, hlist, -⟩ := Discovery.discover_spec hdiscover
    have hdirectory := FileTree.isDirectory_of_list hlist
    refine ⟨Discovery.isListing_of_discover ht hdiscover, fun detail hthreads => ?_, ?_⟩
    · exact execute_of_halted hdiscover
        (renderRegions_of_some hthreads palette directory regions t)
    intro hthreads hgrid
    obtain ⟨done, hdone⟩ :
        ∃ done, renderRegions host settings palette directory regions t = .ok done :=
      ⟨_, renderRegions_of_none hthreads palette directory regions t⟩
    obtain ⟨first, hfirst, hcollected, hafter⟩ := exists_liveCompletes hdone
    obtain ⟨log, hrun⟩ := execute_of_done hdiscover hdone
    rw [← hcollected, ← hafter] at hrun
    refine ⟨done, hdone, ?_, ?_, ?_, ?_⟩
    · rw [show run = _ from hrun, ← hcollected, ← hafter]
      exact effects_of_liveCompletes hdirectory hgrid hfirst log
    · intro hplain
      rw [← hafter]
      exact fits_iff_of_liveCompletes hdirectory hgrid hfirst hplain
    · intro seen floor hfloor
      obtain ⟨hfiles, hopens⟩ := kept_of_liveReaches hdirectory hfloor _ hfloor.mem
      exact ⟨hfiles, hopens.openRegion⟩
    · intro last log' hlast finished
      obtain ⟨hsame, hstate⟩ := alike_of_both hdirectory hgrid hfirst hlast
      refine ⟨effects_of_liveCompletes hdirectory hgrid hlast log', hcollected ▸ hsame, ?_⟩
      rw [show run = _ from hrun]
      simp only [finished, ofResults_of_alike hsame]
      exact finishDirectory_alike hstate settings regions _ log log'
  · intro t' hnodes hstart
    exact execute_of_perm ht hnodes hstart host directory settings palette

end MapRun

namespace Chunk

/-- A chunk with stone in its lowest section. -/
def stonyRecord : Record := ⟨2230, some [⟨0, some ["stone"], none⟩], []⟩

def stonyChunk : StoredChunk := StoredChunk.empty.put 0 ⟨#["stone"], #[]⟩

theorem stonyRecord_fits : stonyRecord.Fits := by
  refine ⟨by decide, by decide, ?_, by decide, by simp [stonyRecord]⟩
  rintro sections ⟨⟩
  refine ⟨by decide, ?_⟩
  intro s hs
  rw [List.mem_singleton.mp hs]
  refine ⟨by decide, by decide, ?_, by simp⟩
  rintro palette ⟨⟩
  exact ⟨by decide, by decide⟩

theorem decode_stony :
    StoredChunk.decode Record.ofBytes stonyRecord.toBytes = .ok stonyChunk := by
  rw [StoredChunk.decode, ofBytes_toBytes stonyRecord_fits]
  rfl

end Chunk

/-- A region file with the stony chunk in its first place. -/
def RegionFile.stony : RegionFile := ofChunk Chunk.stonyRecord.toBytes

theorem SavedWorld.loadChunk_stony (path : Path) {cx cz : Nat} (hx : cx < 32) (hz : cz < 32) :
    loadChunk Host.own path RegionFile.stony.chunk? cx cz =
      .ok (if cx = 0 ∧ cz = 0 then some Chunk.stonyChunk else none) := by
  rw [loadChunk, RegionFile.stony]
  by_cases hfirst : cx = 0 ∧ cz = 0
  · obtain ⟨rfl, rfl⟩ := hfirst
    rw [RegionFile.chunk?_ofChunk (by decide)]
    simp only [Host.own, RegionFile.toList_eq, Chunk.decode_stony]
    rfl
  · rw [RegionFile.chunk?_ofChunk_other hx hz hfirst, if_neg hfirst]

namespace MapRun

open Scheduler

/-- A directory with a region file, one that is cut off, and a directory with the
name of one. -/
def outskirts : FileTree :=
  ⟨[], [(["w"], .directory),
    (["w", "r.1.0.mca"], .file (.bytes ByteArray.empty)),
    (["w", "r.5.5.mca"], .directory),
    (["w", "r.0.0.mca"], .file (.bytes RegionFile.stony.data))]⟩

theorem openRegion_outskirts_torn :
    SavedWorld.openRegion Host.own outskirts ⟨"w"⟩ ⟨1, 0⟩ =
      .error (.unreadable ⟨"w/r.1.0.mca"⟩) := by
  have hpath : SavedWorld.regionPath outskirts ⟨"w"⟩ ⟨1, 0⟩ = ⟨"w/r.1.0.mca"⟩ := by decide +kernel
  have hlookup : outskirts.lookup ⟨"w/r.1.0.mca"⟩ = .ok (.file (.bytes ByteArray.empty)) := by
    decide +kernel
  simp only [SavedWorld.openRegion, hpath, SavedWorld.openFile, hlookup]
  rfl

theorem openFile_stony {t : FileTree} {path : Path}
    (h : t.lookup path = .ok (.file (.bytes RegionFile.stony.data))) :
    SavedWorld.openFile Host.own t path = .ok RegionFile.stony.chunk? := by
  rw [SavedWorld.openFile_eq_ok_iff]
  refine ⟨_, h, ?_⟩
  have hfile : RegionFile.ofBytes? RegionFile.stony.data = some RegionFile.stony :=
    RegionFile.ofBytes?_ofChunk _
  simp only [Host.own, hfile, Option.map_some]

theorem openRegion_outskirts_stony :
    SavedWorld.openRegion Host.own outskirts ⟨"w"⟩ ⟨0, 0⟩ = .ok ⟨⟨0, 0⟩, fun cx cz =>
      (SavedWorld.loadChunk Host.own ⟨"w/r.0.0.mca"⟩ RegionFile.stony.chunk? cx cz).map
        (·.map Chunk.StoredChunk.view)⟩ := by
  have hpath : SavedWorld.regionPath outskirts ⟨"w"⟩ ⟨0, 0⟩ = ⟨"w/r.0.0.mca"⟩ := by decide +kernel
  rw [SavedWorld.openRegion_eq_ok_iff, hpath]
  exact ⟨_, openFile_stony rfl, rfl⟩

/-- Every tile of the region file can be rendered. -/
theorem exists_tile_of_stony {q : Quadrant} (hq : q ∈ Quadrant.all ⟨0, 0⟩) (settings : Settings)
    (palette : Palette) :
    ∃ rendered,
      HasTile (savedShop Host.own settings palette ⟨"w"⟩ outskirts) q rendered := by
  obtain ⟨hregion, -⟩ := Quadrant.mem_all.mp hq
  have hopen := openRegion_outskirts_stony
  rw [← hregion] at hopen
  simp only [hasTile_iff, savedShop, SavedWorld.store, hopen, Except.ok.injEq, exists_eq_left',
    Tile.outcome_eq_ok_iff (Quadrant.fits_tile hq)]
  refine ⟨_, ?_, rfl⟩
  intro place hplace
  obtain ⟨hx, hz⟩ := TileSpec.mem_places.mp (Tile.mem_places_wholeRegion hq hplace)
  simp only [Tile.Loads, SavedWorld.loadChunk_stony _ hx hz]
  exact ⟨_, rfl⟩

theorem discover_outskirts : Discovery.discover outskirts ⟨"w"⟩ =
    .ok ([⟨0, 0⟩, ⟨1, 0⟩], [Discovery.skippedLine ⟨"w"⟩ "r.5.5.mca"]) := by
  have hlist : outskirts.list ⟨"w"⟩ = .ok ["r.1.0.mca", "r.5.5.mca", "r.0.0.mca"] := by
    decide +kernel
  have hregions : ["r.1.0.mca", "r.5.5.mca", "r.0.0.mca"].filterMap
      (Discovery.regionOf? outskirts ⟨"w"⟩) = [⟨1, 0⟩, ⟨0, 0⟩] := by decide +kernel
  have hskipped : Discovery.skippedLines outskirts ⟨"w"⟩ ["r.1.0.mca", "r.5.5.mca", "r.0.0.mca"] =
      [Discovery.skippedLine ⟨"w"⟩ "r.5.5.mca"] := by decide +kernel
  simp only [Discovery.discover, hlist, bind, Except.bind, Discovery.regionsAmong, hregions,
    hskipped]
  rw [RegionCoord.mergeSort_eq_of_perm (List.Perm.swap ⟨0, 0⟩ ⟨1, 0⟩ []),
    List.mergeSort_of_pairwise (by decide)]
  rfl

def rangeSettings : Settings := ⟨2, ⟨"out"⟩, none, .overworld, true⟩

/-- There is room for every file in a directory that is still to be made. -/
theorem hasRoom_out {p : Path}
    (h : ((outskirts.createDirectories ⟨"out"⟩).1.write p (.bytes ByteArray.empty)).2 = .ok ()) :
    (outskirts.createDirectories ⟨"out"⟩).2 = .ok () ∧
      (outskirts.createDirectories ⟨"out"⟩).1.HasRoom p :=
  ⟨by decide +kernel, FileTree.write_eq_ok_iff.mp h⟩

/-- A job of the region file that is whole succeeds. -/
theorem ok_of_stony {palette : Palette} {done : ScheduleRun FileTree} {o : JobOutcome}
    (hdone : renderRegions Host.own rangeSettings palette ⟨"w"⟩ [⟨0, 0⟩, ⟨1, 0⟩] outskirts =
      .ok done)
    (ho : o ∈ done.outcomes) (hquadrant : o.quadrant = ⟨⟨0, 0⟩, 1, 0⟩) :
    ∃ report, o.result = .ok report := by
  obtain ⟨last, hlast, hcollected, -⟩ := exists_liveCompletes hdone
  obtain ⟨rendered, htile⟩ := exists_tile_of_stony (q := ⟨⟨0, 0⟩, 1, 0⟩) (by decide) rangeSettings
    palette
  obtain ⟨hmade, hroom⟩ :=
    hasRoom_out (p := outputPath ⟨"out"⟩ ⟨⟨0, 0⟩, 1, 0⟩) (by decide +kernel)
  have hpath : (outputPath ⟨"out"⟩ ⟨⟨0, 0⟩, 1, 0⟩).parent? = some ⟨"out"⟩ := by decide +kernel
  have htaken : Takes Host.own (savedShop Host.own rangeSettings palette ⟨"w"⟩ outskirts)
      rangeSettings.outDir outskirts o.quadrant rendered := by
    rw [hquadrant]
    exact ⟨htile, (Sink.writeInto_ok_iff htile.size.1 htile.size.2 hpath).mpr
      ⟨hmade, rfl, hroom⟩⟩
  exact ⟨_, (ok_iff_of_liveCompletes rfl (by decide) hlast (hcollected ▸ ho)).mpr
    ⟨rendered, htaken, rfl⟩⟩

theorem outskirts_drawn_with_range :
    outskirts.WellFormed ∧ ∀ palette,
      let run := execute Host.own (.directory ⟨"w"⟩) rangeSettings palette outskirts
      (∃ summary, run.outcome = .ok summary) ∧
      run.tree.lookup ⟨"out/chunk_range.json"⟩ =
        .ok (.file (.bytes "[0,0,2,1]\n".toUTF8)) ∧
      (∃ raster, run.tree.lookup ⟨"out/1,0.png"⟩ = .ok (.file (.image raster))) ∧
      ∀ content, run.tree.node? ["out", "2,0.png"] ≠ some (.file content) := by
  have hwellFormed : outskirts.WellFormed := by decide +kernel
  refine ⟨hwellFormed, ?_⟩
  intro palette run
  obtain ⟨-, hlisted, -⟩ :=
    directory_run_effects Host.own outskirts hwellFormed ⟨"w"⟩ rangeSettings palette
  obtain ⟨-, -, hruns⟩ := hlisted _ _ discover_outskirts
  obtain ⟨done, hdone, heffects, hfits, -⟩ := hruns rfl (by decide)
  obtain ⟨hmade, hroom⟩ := hasRoom_out (p := RegionRange.filePath ⟨"out"⟩) (by decide +kernel)
  have hafter := (hfits (by decide +kernel)).mpr ⟨hmade, hroom⟩
  refine ⟨⟨_, heffects.summary fun _ _ => hafter⟩, ?_, ?_, ?_⟩
  · obtain ⟨range, hrange, hfile⟩ := heffects.range ⟨rfl, List.cons_ne_nil _ _, hafter⟩
    have hbounds : RegionRange.ofRegions? [⟨0, 0⟩, ⟨1, 0⟩] = some ⟨0, 0, 2, 1⟩ := by decide
    have hpath : rangeSettings.outDir.join ⟨RegionRange.fileName⟩ = ⟨"out/chunk_range.json"⟩ := by
      decide +kernel
    have htext : RegionRange.text ⟨0, 0, 2, 1⟩ = "[0,0,2,1]\n" := by decide +kernel
    cases hbounds.symm.trans hrange
    rw [← htext, ← hpath]
    exact hfile
  · have hjob : (⟨⟨0, 0⟩, 1, 0⟩ : Quadrant) ∈ jobs [⟨0, 0⟩, ⟨1, 0⟩] := by decide
    obtain ⟨o, ho, hquadrant⟩ := List.mem_map.mp (heffects.jobs.symm.subset hjob)
    have hpath : o.output = ⟨"out/1,0.png"⟩ := by
      rw [heffects.output o ho, hquadrant]
      decide +kernel
    obtain ⟨report, hok⟩ := ok_of_stony hdone ho hquadrant
    obtain ⟨handle, raster, -, -, hlookup⟩ := heffects.tile o ho report hok
    exact ⟨raster, hpath ▸ hlookup⟩
  · intro content hnode
    have hnone : outskirts.node? ["out", "2,0.png"] = none := by decide +kernel
    rw [heffects.nothingElse.node_file_iff, hnone] at hnode
    · cases hnode
    · rintro (⟨o, ho, ⟨report, hok⟩, hplace⟩ | ⟨-, hplace⟩)
      · obtain ⟨handle, raster, hopen, -⟩ := heffects.tile o ho report hok
        have hjob := heffects.jobs.subset (List.mem_map_of_mem ho)
        rw [heffects.output o ho] at hplace
        have hothers : ∀ q ∈ Quadrant.all ⟨0, 0⟩,
            ["out", "2,0.png"] ≠ outskirts.destination (outputPath ⟨"out"⟩ q) := by
          decide +kernel
        obtain ⟨region, hregion, hquadrant⟩ := List.mem_flatMap.mp hjob
        rcases List.mem_cons.mp hregion with rfl | htorn
        · exact hothers _ hquadrant hplace
        · -- the other region cannot be opened
          rw [(Quadrant.mem_all.mp hquadrant).1, List.mem_singleton.mp htorn,
            openRegion_outskirts_torn] at hopen
          cases hopen
      · revert hplace
        decide +kernel

end MapRun

end TerrainMap
