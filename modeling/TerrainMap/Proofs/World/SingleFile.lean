import TerrainMap.MapRun
import TerrainMap.Proofs.DirectoryEffects
import TerrainMap.Proofs.Scheduler.Alone
import TerrainMap.Proofs.Tile.Coordinate

/-!
Single region files. A region file stands for whatever region is asked for, and
its chunks are found by their positions inside it. So neither the coordinate nor
the name of the file matters to what is drawn; the coordinate only appears in the
log. The same bytes in a directory of region files give the same tile there, for
the region that they are named for.
-/

namespace TerrainMap

/-- The same error about the region file at another path. -/
def WorldError.inFile (path : Path) : WorldError → WorldError
  | missingRegion _ => missingRegion path
  | unopened _ cause => unopened path cause
  | unreadable _ => unreadable path
  | badScheme _ scheme => badScheme path scheme
  | badPosition _ x z => badPosition path x z
  | decode cx cz cause => decode cx cz cause

/-- Of two ways to open a region, both fail with the same error, or the regions
are rendered alike: with the same picture and report or the same error, and with
logs that are the same but for the two coordinates. -/
inductive SameRendering (coord coord' : RegionCoord) :
    (opened opened' : Except WorldError RegionHandle) → Prop
  | refused (cause : WorldError) : SameRendering coord coord' (.error cause) (.error cause)
  | rendered (region region' : RegionHandle)
      (houtcome : ∀ palette tile policy, (Tile.render region' palette tile policy).outcome =
        (Tile.render region palette tile policy).outcome)
      (hlog : ∀ palette tile policy, SameLog coord coord'
        (Tile.render region palette tile policy).log
        (Tile.render region' palette tile policy).log) :
      SameRendering coord coord' (.ok region) (.ok region')

/-- Of two ways to open a region, both fail with the same error, or the regions
are rendered with the same picture, report and log, and where a chunk does not
load they fail at the same one and with the same error. Errors of the second
region are about the file at `path`. -/
inductive SameInFile (path : Path) : (opened opened' : Except WorldError RegionHandle) → Prop
  | refused (cause : WorldError) : SameInFile path (.error cause) (.error (cause.inFile path))
  | rendered (region region' : RegionHandle)
      (houtcome : ∀ palette tile policy, (Tile.render region' palette tile policy).outcome =
        (Tile.render region palette tile policy).outcome.mapCause (WorldError.inFile path))
      (hlog : ∀ palette tile policy, (Tile.render region' palette tile policy).log =
        (Tile.render region palette tile policy).log)
      (hfirst : ∀ tile place halt', Tile.FirstFailure region' tile place halt' ↔
        ∃ halt, Tile.FirstFailure region tile place halt ∧
          halt' = halt.mapCause (WorldError.inFile path)) :
      SameInFile path (.ok region) (.ok region')

theorem Attempt.mapCause_id {ε α : Type} (attempt : Attempt ε α) :
    attempt.mapCause id = attempt := by
  rcases attempt with (cause | _) | value
  · rfl
  · rfl
  · rfl

namespace SavedWorld

variable {host : Host} {t t' : FileTree} {source source' path path' : Path}
  {coord coord' : RegionCoord}

/-! ### Opening -/

/-- The region that is handed out once its file was opened. -/
def handle (host : Host) (path : Path) (coord : RegionCoord) (read : ChunkReader) :
    RegionHandle :=
  ⟨coord, fun cx cz => (loadChunk host path read cx cz).map (·.map Chunk.StoredChunk.view)⟩

theorem openRegion_eq (host : Host) (t : FileTree) (source : Path) (coord : RegionCoord) :
    openRegion host t source coord =
      (openFile host t (regionPath t source coord)).map
        (handle host (regionPath t source coord) coord) := by
  rw [openRegion]
  cases openFile host t (regionPath t source coord) with
  | error cause => rfl
  | ok read => rfl

theorem openRegion_of_file (h : t.isDirectory source = false) (coord : RegionCoord) :
    openRegion host t source coord = (openFile host t source).map (handle host source coord) := by
  have hpath : regionPath t source coord = source := by
    rw [regionPath, h]
    rfl
  rw [openRegion_eq, hpath]

theorem openRegion_of_directory (h : t.isDirectory source = true) (coord : RegionCoord) :
    openRegion host t source coord = (openFile host t (source.join ⟨coord.fileName⟩)).map
      (handle host (source.join ⟨coord.fileName⟩) coord) := by
  rw [openRegion_eq, regionPath, if_pos h]

/-- Files with the same bytes are opened alike. -/
theorem openFile_cases {content : FileContent} (h : t.lookup path = .ok (.file content))
    (h' : t'.lookup path' = .ok (.file content)) :
    (∃ read, openFile host t path = .ok read ∧ openFile host t' path' = .ok read) ∨
      ∃ cause, openFile host t path = .error cause ∧
        openFile host t' path' = .error (cause.inFile path') := by
  rw [openFile, openFile, h, h']
  cases content with
  | image raster => exact .inr ⟨.unreadable path, rfl, rfl⟩
  | bytes data =>
      cases hread : host.openRegion? data with
      | none => exact .inr ⟨.unreadable path, by simp only [hread], by simp only [hread]; rfl⟩
      | some read => exact .inl ⟨read, by simp only [hread], by simp only [hread]⟩

theorem inFile_ofRegionFault (path path' : Path) (fault : RegionFault) :
    (WorldError.ofRegionFault path fault).inFile path' =
      WorldError.ofRegionFault path' fault := by
  cases fault with
  | unknownScheme scheme => rfl
  | outside x z => rfl
  | unreadable => rfl

theorem loadChunk_inFile (host : Host) (path path' : Path) (read : ChunkReader) (cx cz : Nat) :
    loadChunk host path' read cx cz =
      (loadChunk host path read cx cz).mapCause (WorldError.inFile path') := by
  rw [loadChunk, loadChunk]
  rcases read cx cz with fault | _ | data
  · show Attempt.fail _ = Attempt.fail _
    rw [inFile_ofRegionFault]
  · rfl
  · show ((Chunk.StoredChunk.decode host.readChunk data.toList).mapCause _).map some =
      Attempt.mapCause _
        (((Chunk.StoredChunk.decode host.readChunk data.toList).mapCause _).map some)
    rcases Chunk.StoredChunk.decode host.readChunk data.toList with (cause | _) | chunk
    · rfl
    · rfl
    · rfl

theorem sameChunks_inFile (host : Host) (path path' : Path) (coord coord' : RegionCoord)
    (read : ChunkReader) :
    Tile.SameChunks (WorldError.inFile path') (handle host path coord read)
      (handle host path' coord' read) := by
  intro cx cz
  show (loadChunk host path' read cx cz).map _ =
    Attempt.mapCause _ ((loadChunk host path read cx cz).map _)
  rw [loadChunk_inFile host path path']
  rcases loadChunk host path read cx cz with (cause | _) | found
  · rfl
  · rfl
  · rfl

theorem sameChunks_self (host : Host) (path : Path) (coord coord' : RegionCoord)
    (read : ChunkReader) :
    Tile.SameChunks id (handle host path coord read) (handle host path coord' read) :=
  fun _ _ => (Attempt.mapCause_id _).symm

/-- A region file is rendered alike at any two coordinates. -/
theorem sameRendering_of_file (h : t.isDirectory source = false) (coord coord' : RegionCoord) :
    SameRendering coord coord' (openRegion host t source coord)
      (openRegion host t source coord') := by
  rw [openRegion_of_file h, openRegion_of_file h]
  cases openFile host t source with
  | error cause => exact .refused cause
  | ok read =>
      have hsame := sameChunks_self host source coord coord' read
      refine .rendered _ _ (fun palette tile policy => ?_) fun palette tile policy => ?_
      · rw [(hsame.render palette tile policy).1, Attempt.mapCause_id]
      · exact (hsame.render palette tile policy).2

/-- A directory with the bytes of a region file renders them alike. -/
theorem sameInFile_of_directory {directory : Path} {content : FileContent}
    (hdirectory : t'.isDirectory directory = true) (hsource : t.isDirectory source = false)
    (h : t.lookup source = .ok (.file content))
    (h' : t'.lookup (directory.join ⟨coord.fileName⟩) = .ok (.file content)) :
    SameInFile (directory.join ⟨coord.fileName⟩) (openRegion host t source coord)
      (openRegion host t' directory coord) := by
  rw [openRegion_of_file hsource, openRegion_of_directory hdirectory]
  rcases openFile_cases h h' with ⟨read, hread, hread'⟩ | ⟨cause, hcause, hcause'⟩
  · rw [hread, hread']
    have hsame := sameChunks_inFile host source (directory.join ⟨coord.fileName⟩) coord coord read
    refine .rendered _ _ (fun palette tile policy => ?_) (fun palette tile policy => ?_)
      fun tile place halt' => hsame.firstFailure_iff
    · exact (hsame.render palette tile policy).1
    · exact (hsame.render palette tile policy).2.eq
  · rw [hcause, hcause']
    exact .refused cause

end SavedWorld

/-! ### Jobs -/

section Jobs

variable {σ : Type} {shop : Workshop σ} {coord coord' : RegionCoord}

/-- The runs of a job end alike and leave the sink alike, and their logs are the
same but for the coordinates. -/
structure JobRun.SameButCoord (coord coord' : RegionCoord) (run run' : JobRun σ) : Prop where
  result : run'.result = run.result
  sinkState : run'.sinkState = run.sinkState
  log : SameLog coord coord' run.log run'.log

theorem SameRendering.rendering
    (h : SameRendering coord coord' (shop.world.openRegion coord) (shop.world.openRegion coord'))
    (tile : TileSpec) :
    (shop.rendering coord' tile).2 = (shop.rendering coord tile).2 ∧
      SameLog coord coord' (shop.rendering coord tile).1 (shop.rendering coord' tile).1 := by
  rw [Workshop.rendering, Workshop.rendering]
  generalize shop.world.openRegion coord = opened at h
  generalize shop.world.openRegion coord' = opened' at h
  cases h with
  | refused cause => exact ⟨rfl, .refl coord coord' #[]⟩
  | rendered region region' houtcome hlog =>
      have hattempt := houtcome shop.palette tile shop.policy
      exact ⟨congrArg (Attempt.mapCause JobError.rendering) hattempt,
        hlog shop.palette tile shop.policy⟩

theorem SameRendering.renderTile
    (h : SameRendering coord coord' (shop.world.openRegion coord) (shop.world.openRegion coord'))
    (tile : TileSpec) (output : Path) (state : σ) :
    (shop.renderTile coord tile output state).SameButCoord coord coord'
      (shop.renderTile coord' tile output state) := by
  obtain ⟨hattempt, hlog⟩ := h.rendering tile
  rw [Workshop.renderTile_eq, Workshop.renderTile_eq]
  generalize shop.rendering coord tile = rendering at hattempt hlog
  generalize shop.rendering coord' tile = rendering' at hattempt hlog
  obtain ⟨log, attempt⟩ := rendering
  obtain ⟨log', attempt'⟩ := rendering'
  obtain rfl : attempt' = attempt := hattempt
  cases attempt' with
  | error halt => exact ⟨rfl, rfl, hlog⟩
  | ok rendered => exact ⟨rfl, rfl, hlog⟩

end Jobs

/-! ### Runs over a single file -/

namespace MapRun

variable {host : Host} {t t' : FileTree} {source source' : Path}

/-- The runs end alike and leave the same tree, and their logs are the same but
for the coordinates. -/
structure SameButCoord (coord coord' : RegionCoord) (run run' : MapRun) : Prop where
  outcome : run'.outcome = run.outcome
  tree : run'.tree = run.tree
  log : SameLog coord coord' run.log run'.log

/-- What the run makes of its only job. -/
def concluding (coord : RegionCoord) (output : Path) : JobRun FileTree → MapRun
  | ⟨.ok report, log, t⟩ =>
    ⟨.ok (RunSummary.ofResults [.ok report]), log.push ⟨.info, "wrote " ++ output.text⟩, t⟩
  | ⟨.error (.failure cause), log, t⟩ =>
    ⟨.ok (RunSummary.ofResults [.error cause]),
      log.push ⟨.error, "region " ++ coord.display ++ " failed: " ++ cause.message⟩, t⟩
  | ⟨.error .crash, log, t⟩ => ⟨.error .crash, log, t⟩

theorem execute_single (host : Host) (settings : Settings) (palette : Palette) (source : Path)
    (coord : RegionCoord) (output : Path) (t : FileTree) :
    execute host (.single source coord output) settings palette t =
      let run := concluding coord output
        ((savedShop host settings palette source t).renderTile coord .wholeRegion output t)
      { run with log := rangeWarning settings (.single source coord output) ++ run.log } := by
  -- a rewrite with the equations of these would have the whole region evaluated
  unfold execute renderSingle Workshop.renderWholeRegion
  simp only [savedShop]
  rcases Workshop.renderTile _ coord _ output t with ⟨(cause | _) | report, log, state⟩
  · rfl
  · rfl
  · rfl

theorem sameButCoord_failedLine (coord coord' : RegionCoord) (cause : JobError) :
    LogLine.SameButCoord coord coord'
      ⟨.error, "region " ++ coord.display ++ " failed: " ++ cause.message⟩
      ⟨.error, "region " ++ coord'.display ++ " failed: " ++ cause.message⟩ := by
  have h := @LogLine.SameButCoord.printed coord coord' .error "region "
    (" failed: " ++ cause.message)
  simpa only [String.append_assoc] using h

theorem sameButCoord_concluding {coord coord' : RegionCoord} {job job' : JobRun FileTree}
    (h : job.SameButCoord coord coord' job') (output : Path) :
    (concluding coord output job).SameButCoord coord coord' (concluding coord' output job') := by
  obtain ⟨result, log, state⟩ := job
  obtain ⟨result', log', state'⟩ := job'
  obtain ⟨rfl, rfl, hlog⟩ := h
  rcases result' with (cause | _) | report
  · exact ⟨rfl, rfl, hlog.push (sameButCoord_failedLine coord coord' cause)⟩
  · exact ⟨rfl, rfl, hlog⟩
  · exact ⟨rfl, rfl, hlog.push (.same _)⟩

/-- A run over a single file is the same for whatever region the file stands. -/
theorem sameButCoord_execute (h : t.isDirectory source = false) (settings : Settings)
    (palette : Palette) (output : Path) (coord coord' : RegionCoord) :
    (execute host (.single source coord output) settings palette t).SameButCoord coord coord'
      (execute host (.single source coord' output) settings palette t) := by
  have hopen : SameRendering coord coord'
      ((savedShop host settings palette source t).world.openRegion coord)
      ((savedShop host settings palette source t).world.openRegion coord') :=
    SavedWorld.sameRendering_of_file h coord coord'
  have hrun := sameButCoord_concluding (hopen.renderTile .wholeRegion output t) output
  rw [execute_single, execute_single]
  exact ⟨hrun.outcome, hrun.tree, (SameLog.refl coord coord' _).append hrun.log⟩

/-- The whole region with its report, if it can be opened and rendered. -/
def drawn? (host : Host) (settings : Settings) (palette : Palette) (source : Path)
    (coord : RegionCoord) (t : FileTree) : Option RenderedTile :=
  ((savedShop host settings palette source t).rendering coord .wholeRegion).2.toOption

/-- The tree after the sink was given what was drawn, if anything was. -/
def afterDrawing (host : Host) (output : Path) (t : FileTree) : Option RenderedTile → FileTree
  | some rendered => ((Sink.imageFiles host).write rendered.raster output t).2
  | none => t

theorem tree_concluding (coord : RegionCoord) (output : Path) (job : JobRun FileTree) :
    (concluding coord output job).tree = job.sinkState := by
  rcases job with ⟨(cause | _) | report, log, state⟩
  · rfl
  · rfl
  · rfl

theorem tree_execute_single (host : Host) (settings : Settings) (palette : Palette) (source : Path)
    (coord : RegionCoord) (output : Path) (t : FileTree) :
    (execute host (.single source coord output) settings palette t).tree =
      afterDrawing host output t (drawn? host settings palette source coord t) := by
  rw [execute_single]
  simp only [tree_concluding, Workshop.renderTile_eq, drawn?]
  rcases (savedShop host settings palette source t).rendering coord .wholeRegion with
    ⟨log, halt | rendered⟩
  · rfl
  · rfl

/-- What is drawn depends on nothing but the bytes of the file. -/
theorem drawn?_eq (host : Host) {content : FileContent} (h : t.lookup source = .ok (.file content))
    (h' : t'.lookup source' = .ok (.file content)) (settings : Settings) (palette : Palette)
    (coord coord' : RegionCoord) :
    drawn? host settings palette source' coord' t' =
      drawn? host settings palette source coord t := by
  have hfile : t.isDirectory source = false := by
    rw [FileTree.isDirectory, h]
  have hfile' : t'.isDirectory source' = false := by
    rw [FileTree.isDirectory, h']
  simp only [drawn?, Workshop.rendering, savedShop, SavedWorld.store,
    SavedWorld.openRegion_of_file hfile, SavedWorld.openRegion_of_file hfile']
  rcases SavedWorld.openFile_cases h h' with ⟨read, hopen, hopen'⟩ | ⟨cause, hopen, hopen'⟩
  · have hsame := SavedWorld.sameChunks_inFile host source source' coord coord' read
    rw [hopen, hopen']
    simp only [Except.map, (hsame.render palette .wholeRegion settings.policy).1]
    rcases (Tile.render (SavedWorld.handle host source coord read) palette .wholeRegion
      settings.policy).outcome with (cause | _) | rendered
    · rfl
    · rfl
    · rfl
  · rw [hopen, hopen']
    rfl

/-- A region is drawn if all its chunks load, and shows them. -/
theorem exists_drawn {region : RegionHandle} {coord : RegionCoord}
    (hopen : SavedWorld.openRegion host t source coord = .ok region)
    (hloads : ∀ place ∈ TileSpec.wholeRegion.places, Tile.Loads region .wholeRegion place)
    (settings : Settings) (palette : Palette) :
    ∃ rendered, drawn? host settings palette source coord t = some rendered ∧
      rendered.raster.width = 512 ∧ rendered.raster.height = 512 ∧
      ∀ px < 512, ∀ pz < 512, ∀ found, region.chunk (px / 16) (pz / 16) = .ok found →
        rendered.raster.pixel? px pz =
          some (Tile.placeColor palette settings.policy found (px % 16) (pz % 16)) := by
  have hfits := TileSpec.fits_wholeRegion
  have hrender := Tile.render_of_loads palette hfits settings.policy hloads
  have hcanvas := Tile.fits_finalCanvas region palette hfits settings.policy
  have hpixel (px pz : Nat) (hx : px < 512) (hz : pz < 512) (found : Option ChunkView)
      (h : region.chunk (px / 16) (pz / 16) = .ok found) :
      (Tile.finalCanvas region palette .wholeRegion settings.policy).surface.pixel? px pz =
        some (Tile.placeColor palette settings.policy found (px % 16) (pz % 16)) := by
    apply Tile.pixel?_finalCanvas hfits hx hz
    simpa only [TileSpec.wholeRegion, Nat.zero_add, chunkPixels] using h
  rw [drawn?, Workshop.rendering]
  simp only [savedShop, SavedWorld.store, hopen]
  generalize Tile.finalCanvas region palette .wholeRegion settings.policy = canvas at *
  rw [hrender]
  exact ⟨_, rfl, hcanvas.width, hcanvas.height, fun px hx pz hz => hpixel px pz hx hz⟩

/-- A file that was written holds what was drawn. -/
theorem lookup_afterDrawing {output parent : Path} {rendered : RenderedTile}
    (hwidth : rendered.raster.width ≠ 0) (hheight : rendered.raster.height ≠ 0)
    (hparent : output.parent? = some parent) (hmade : (t.createDirectories parent).2 = .ok ())
    (hencode : host.encodingFault? rendered.raster output = none)
    (hroom : (t.createDirectories parent).1.HasRoom output) :
    (afterDrawing host output t (some rendered)).lookup output =
      .ok (.file (.image rendered.raster)) := by
  have hok := (Sink.writeInto_ok_iff hwidth hheight hparent).mpr ⟨hmade, hencode, hroom⟩
  have hgrows := FileTree.grows_createDirectories t parent
  show (Sink.writeInto host rendered.raster output t).2.lookup output = _
  rw [Sink.writeInto_of_ok hwidth hheight hparent hok, ← hgrows.destination]
  exact hroom.lookup_set _

end MapRun

theorem Request.ofArguments_single {t : FileTree} {args : Arguments} {output : String}
    (hfirst : args.first = some output) (hsecond : args.second = none)
    (hsource : t.isDirectory args.source = false) :
    ofArguments t args =
      .ok (.single args.source ((RegionCoord.ofPath? args.source).getD ⟨0, 0⟩) ⟨output⟩) := by
  rw [ofArguments, hfirst, hsecond, hsource]
  rfl

namespace MapRun

/-- **A single region file ignores the coordinate.** Opened for any two
coordinates, it gives the same picture and report or the same error for every
tile, and only the coordinate that the log prints differs. A directory with the
same bytes under the name of a region gives the same for that region, with errors
of the same kind at the same chunk, about its own file. So a run over the file
does not depend on the region that is read off its name, which is the one in the
middle if there is none, and its picture stays the same when the file is
renamed. -/
theorem single_file_ignores_coordinate (host : Host) (t : FileTree) (source : Path)
    (hsource : t.isDirectory source = false) :
    (∀ coord coord', SameRendering coord coord' (SavedWorld.openRegion host t source coord)
      (SavedWorld.openRegion host t source coord')) ∧
    (∀ (t' : FileTree) directory content coord, t'.isDirectory directory = true →
      t.lookup source = .ok (.file content) →
      t'.lookup (directory.join ⟨RegionCoord.fileName coord⟩) = .ok (.file content) →
      SameInFile (directory.join ⟨coord.fileName⟩) (SavedWorld.openRegion host t source coord)
        (SavedWorld.openRegion host t' directory coord)) ∧
    (∀ args output, args.source = source → args.first = some output → args.second = none →
      Request.ofArguments t args =
        .ok (.single source ((RegionCoord.ofPath? source).getD ⟨0, 0⟩) ⟨output⟩)) ∧
    (∀ settings palette output coord coord',
      SameButCoord coord coord' (execute host (.single source coord output) settings palette t)
        (execute host (.single source coord' output) settings palette t)) ∧
    ∀ (t' : FileTree) source' content, t.lookup source = .ok (.file content) →
      t'.lookup source' = .ok (.file content) →
      ∀ settings palette output output' coord coord',
        let drawn := drawn? host settings palette source coord t
        drawn? host settings palette source' coord' t' = drawn ∧
          (execute host (.single source coord output) settings palette t).tree =
            afterDrawing host output t drawn ∧
          (execute host (.single source' coord' output') settings palette t').tree =
            afterDrawing host output' t' drawn := by
  refine ⟨SavedWorld.sameRendering_of_file hsource, ?_, ?_, ?_, ?_⟩
  · intro t' directory content coord hdirectory hfile hfile'
    exact SavedWorld.sameInFile_of_directory hdirectory hsource hfile hfile'
  · rintro args output rfl hfirst hsecond
    exact Request.ofArguments_single hfirst hsecond hsource
  · intro settings palette output coord coord'
    exact sameButCoord_execute hsource settings palette output coord coord'
  · intro t' source' content hfile hfile' settings palette output output' coord coord' drawn
    have hdrawn := drawn?_eq host hfile hfile' settings palette coord coord'
    refine ⟨hdrawn, tree_execute_single .., ?_⟩
    rw [tree_execute_single, hdrawn]

/-- A region file under the name of a region, and a copy of it under a name that
gives none. -/
def copies : FileTree :=
  ⟨[], [(["w"], .directory), (["w", "r.3.-7.mca"], .file (.bytes RegionFile.stony.data)),
    (["backup"], .file (.bytes RegionFile.stony.data))]⟩

theorem lookup_copies : copies.lookup ⟨"backup"⟩ = .ok (.file (.bytes RegionFile.stony.data)) ∧
    copies.lookup ⟨"w/r.3.-7.mca"⟩ = .ok (.file (.bytes RegionFile.stony.data)) :=
  ⟨rfl, rfl⟩

/-- The region of the copy, when it stands for a given one. -/
def copiedRegion (coord : RegionCoord) : RegionHandle :=
  SavedWorld.handle Host.own ⟨"backup"⟩ coord RegionFile.stony.chunk?

theorem openRegion_copies (coord : RegionCoord) :
    SavedWorld.openRegion Host.own copies ⟨"backup"⟩ coord = .ok (copiedRegion coord) := by
  rw [SavedWorld.openRegion_of_file rfl, openFile_stony lookup_copies.1]
  rfl

theorem loads_copies (coord : RegionCoord) : ∀ place ∈ TileSpec.wholeRegion.places,
    Tile.Loads (copiedRegion coord) .wholeRegion place := by
  intro place hplace
  obtain ⟨hx, hz⟩ := TileSpec.mem_places.1 hplace
  simp only [Tile.Loads, copiedRegion, SavedWorld.handle, TileSpec.wholeRegion, Nat.zero_add,
    SavedWorld.loadChunk_stony _ hx hz]
  exact ⟨_, rfl⟩

def stonePalette : Palette := Palette.ofList [("stone", ⟨100, 0, 240⟩)]

/-- The first column of the stony chunk has nothing to be compared with. -/
theorem placeColor_stony :
    Tile.placeColor stonePalette .overworld (some Chunk.stonyChunk.view) 0 0 =
      ⟨100, 0, 240⟩ := by
  have hpalette : stonePalette.lookup "stone" = some ⟨100, 0, 240⟩ := by
    simp [stonePalette, Palette.ofList, Palette.insertAll, Palette.insert, Palette.lookup]
  have hcolumn : Column.resolve Chunk.stonyChunk.view 0 0 .overworld = .block "stone" 15 := by
    decide +kernel
  rw [Tile.placeColor, Tile.columnPixel, hcolumn, Tile.rowBefore_zero]
  simp only [RowScan.step, hpalette]
  decide

def copyArguments : Arguments :=
  ⟨⟨"backup"⟩, some "out.png", none, none, false, none, none, none, false, false⟩

/-- The copy stands for the region in the middle, and what is drawn of it is what
is drawn of the file that is named for another region. -/
theorem copies_drawn_alike :
    Request.ofArguments copies copyArguments = .ok (.single ⟨"backup"⟩ ⟨0, 0⟩ ⟨"out.png"⟩) ∧
    SameRendering ⟨0, 0⟩ ⟨3, -7⟩ (.ok (copiedRegion ⟨0, 0⟩)) (.ok (copiedRegion ⟨3, -7⟩)) ∧
    SameInFile ⟨"w/r.3.-7.mca"⟩ (.ok (copiedRegion ⟨3, -7⟩))
      (SavedWorld.openRegion Host.own copies ⟨"w"⟩ ⟨3, -7⟩) ∧
    let run (source : Path) (coord : RegionCoord) (output : Path) : MapRun :=
      execute Host.own (.single source coord output) rangeSettings stonePalette copies
    SameButCoord ⟨0, 0⟩ ⟨3, -7⟩ (run ⟨"backup"⟩ ⟨0, 0⟩ ⟨"out.png"⟩)
        (run ⟨"backup"⟩ ⟨3, -7⟩ ⟨"out.png"⟩) ∧
      ∃ raster : Raster, raster.width = 512 ∧ raster.pixel? 0 0 = some ⟨100, 0, 240⟩ ∧
        (run ⟨"backup"⟩ ⟨0, 0⟩ ⟨"out.png"⟩).tree.lookup ⟨"out.png"⟩ =
          .ok (.file (.image raster)) ∧
        (run ⟨"w/r.3.-7.mca"⟩ ⟨3, -7⟩ ⟨"new.png"⟩).tree.lookup ⟨"new.png"⟩ =
          .ok (.file (.image raster)) := by
  obtain ⟨hcopy, hnamed⟩ := lookup_copies
  obtain ⟨hopens, hdirectory, hrequest, hruns, hrenamed⟩ :=
    single_file_ignores_coordinate Host.own copies ⟨"backup"⟩ rfl
  have hjoin : (⟨"w"⟩ : Path).join ⟨RegionCoord.fileName ⟨3, -7⟩⟩ = ⟨"w/r.3.-7.mca"⟩ := by
    decide +kernel
  have hname : RegionCoord.ofPath? ⟨"backup"⟩ = none := by decide +kernel
  refine ⟨?_, ?_, ?_, hruns .., ?_⟩
  · rw [hrequest copyArguments "out.png" rfl rfl rfl, hname]
    rfl
  · simpa only [openRegion_copies] using hopens ⟨0, 0⟩ ⟨3, -7⟩
  · have hsame := hdirectory copies ⟨"w"⟩ _ ⟨3, -7⟩ rfl hcopy (by rw [hjoin]; exact hnamed)
    rwa [hjoin, openRegion_copies] at hsame
  · obtain ⟨rendered, hdrawn, hwidth, hheight, hpixels⟩ := exists_drawn (openRegion_copies ⟨0, 0⟩)
      (loads_copies ⟨0, 0⟩) rangeSettings stonePalette
    have hchunk : (copiedRegion ⟨0, 0⟩).chunk (0 / 16) (0 / 16) =
        .ok (some Chunk.stonyChunk.view) := by
      simp only [copiedRegion, SavedWorld.handle]
      rw [SavedWorld.loadChunk_stony _ (by decide) (by decide)]
      rfl
    have hpixel := hpixels 0 (by decide) 0 (by decide) _ hchunk
    have hwritten : ∀ output : Path, output.parent? = some ⟨""⟩ → copies.HasRoom output →
        (afterDrawing Host.own output copies (some rendered)).lookup output =
          .ok (.file (.image rendered.raster)) := by
      intro output hparent hroom
      have hmade := FileTree.createDirectories_empty copies
      refine lookup_afterDrawing (by omega) (by omega) hparent (by rw [hmade]) rfl ?_
      rw [hmade]
      exact hroom
    obtain ⟨-, htree, htree'⟩ := hrenamed copies ⟨"w/r.3.-7.mca"⟩ _ hcopy hnamed rangeSettings
      stonePalette ⟨"out.png"⟩ ⟨"new.png"⟩ ⟨0, 0⟩ ⟨3, -7⟩
    have hroom : ∀ output, (copies.write output (.bytes ByteArray.empty)).2 = .ok () →
        copies.HasRoom output := fun output => FileTree.write_eq_ok_iff.mp
    refine ⟨rendered.raster, hwidth, hpixel.trans (congrArg some placeColor_stony), ?_, ?_⟩
    · rw [htree, hdrawn]
      exact hwritten _ (by decide +kernel) (hroom _ (by decide +kernel))
    · rw [htree', hdrawn]
      exact hwritten _ (by decide +kernel) (hroom _ (by decide +kernel))

end MapRun

end TerrainMap
