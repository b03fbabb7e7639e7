import TerrainMap.Discovery
import TerrainMap.RegionRange
import TerrainMap.Request
import TerrainMap.Scheduler
import TerrainMap.Settings
import TerrainMap.World.Saved

/-!
Runs: what a request makes of a tree of files. A run ends with a summary even
when jobs failed; it ends with an error only when its directory cannot be
listed, its threads cannot be started or its range file cannot be written.
-/

namespace TerrainMap

inductive RunError where
  | listing (directory : Path) (cause : FileError)
  | threads (detail : String)
  | range (cause : RangeFileError)
  deriving DecidableEq, Repr

def RunError.message : RunError → String
  | listing directory cause => "cannot list " ++ directory.text ++ ": " ++ cause.message
  | threads detail => detail
  | range cause => cause.message

/-- How a run ended, what it logged, and the tree it left behind. -/
structure MapRun where
  outcome : Attempt RunError RunSummary
  log : Array LogLine
  tree : FileTree

namespace MapRun

/-- Renders the quadrants of regions. Every job opens its region in the tree
that it finds. -/
def renderRegions (host : Host) (settings : Settings) (palette : Palette) (source : Path)
    (regions : List RegionCoord) (t : FileTree) : Attempt RunError (ScheduleRun FileTree) :=
  match Scheduler.start host settings.workers with
  | .error detail => .fail (.threads detail)
  | .ok scheduler =>
    .ok ((scheduler.withPolicy settings.policy).runAt (SavedWorld.store host · source) palette
      (Sink.imageFiles host) regions settings.outDir t)

def summaryOf (run : ScheduleRun FileTree) : RunSummary :=
  RunSummary.ofResults (run.outcomes.map (·.result))

def renderSingle (host : Host) (settings : Settings) (palette : Palette) (source : Path)
    (region : RegionCoord) (output : Path) (t : FileTree) : MapRun :=
  let shop : Workshop FileTree :=
    ⟨SavedWorld.store host t source, palette, Sink.imageFiles host, settings.policy⟩
  match shop.renderWholeRegion region output t with
  | ⟨.ok report, log, t⟩ =>
    ⟨.ok (RunSummary.ofResults [.ok report]), log.push ⟨.info, "wrote " ++ output.text⟩, t⟩
  | ⟨.error (.failure cause), log, t⟩ =>
    ⟨.ok (RunSummary.ofResults [.error cause]),
      log.push ⟨.error, "region " ++ region.display ++ " failed: " ++ cause.message⟩, t⟩
  | ⟨.error .crash, log, t⟩ => ⟨.error .crash, log, t⟩

/-- The last step of a directory run: the range file, if it was asked for. -/
def finishDirectory (settings : Settings) (regions : List RegionCoord) (summary : RunSummary)
    (log : Array LogLine) (t : FileTree) : MapRun :=
  if settings.genRange then
    match RegionRange.ofRegions? regions with
    | none =>
      ⟨.ok summary,
        log.push ⟨.warn, "no regions rendered; " ++ RegionRange.fileName ++ " not written"⟩, t⟩
    | some range =>
      match range.write settings.outDir t with
      | (t, .error cause) => ⟨.fail (.range cause), log, t⟩
      | (t, .ok path) =>
        ⟨.ok summary, log.push ⟨.info, "wrote region range to " ++ path.text⟩, t⟩
  else ⟨.ok summary, log, t⟩

/-- A directory without region files gives a run without tiles. -/
def emptinessWarning (directory : Path) (regions : List RegionCoord) : List LogLine :=
  if regions = [] then [⟨.warn, "no region files found in " ++ directory.text⟩] else []

def renderDirectory (host : Host) (settings : Settings) (palette : Palette) (directory : Path)
    (t : FileTree) : MapRun :=
  match Discovery.discover t directory with
  | .error cause => ⟨.fail (.listing directory cause), #[], t⟩
  | .ok (regions, skipped) =>
    let log := (skipped ++ emptinessWarning directory regions).toArray
    match renderRegions host settings palette directory regions t with
    | .error halt => ⟨.error halt, log, t⟩
    | .ok run =>
      finishDirectory settings regions (summaryOf run) (log ++ run.log) run.sinkState

/-- A range is only written for a whole directory. -/
def rangeWarning (settings : Settings) : Request → Array LogLine
  | .directory _ => #[]
  | _ =>
    if settings.genRange then
      #[⟨.warn, "--gen-range only applies when rendering a whole directory"⟩]
    else #[]

def execute (host : Host) (request : Request) (settings : Settings) (palette : Palette)
    (t : FileTree) : MapRun :=
  let warning := rangeWarning settings request
  match request with
  | .quadrants source region =>
    match renderRegions host settings palette source [region] t with
    | .error halt => ⟨.error halt, warning, t⟩
    | .ok run => ⟨.ok (summaryOf run), warning ++ run.log, run.sinkState⟩
  | .single source region output =>
    let run := renderSingle host settings palette source region output t
    { run with log := warning ++ run.log }
  | .directory path => renderDirectory host settings palette path t

end MapRun

end TerrainMap
