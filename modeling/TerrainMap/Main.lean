import TerrainMap.Png
import TerrainMap.Program

/-!
The outermost layer. What the program does is a function of its command line
and of a tree of files. Here that tree is taken from the disk, as far as the
run looks at it, and what the run changed in it is carried out there.
-/

namespace TerrainMap.Disk

def pathOf (location : Location) : String := "/" ++ String.intercalate "/" location

/-- What stands at a location of the disk. The bytes of files are not read. -/
def nodeAt (location : Location) : IO (Option FileNode) := do
  let place := (← IO.currentDir) / pathOf location
  if ← place.isDir then return some .directory
  if ← place.pathExists then return some (.file (.bytes ByteArray.empty))
  return none

/-- Takes up what stands at a location, unless it is known already. -/
def takeUp (t : FileTree) (location : Location) : IO FileTree := do
  if (t.node? location).isSome then return t
  match ← nodeAt location with
  | some node => return t.set location node
  | none => return t

/-- The tree of the working directory and the directories it lies in. -/
def start : IO FileTree := do
  let location := ((← IO.currentDir).toString.splitOn "/").filter (· != "")
  (List.range location.length).foldlM (fun t n => takeUp t (location.take (n + 1))) ⟨location, []⟩

def follow (location : Location) : Path.Component → Location
  | .root => []
  | .here => location
  | .up => location.dropLast
  | .name name => location ++ [name]

def namesAt (location : Location) : IO (List String) := do
  let place := (← IO.currentDir) / pathOf location
  return ((← place.readDir).map (·.fileName)).toList

/-- Takes up what lies on a path, and the nodes of the directory it ends at. -/
def survey (t : FileTree) (p : Path) : IO FileTree := do
  let (t, location) ← p.components.foldlM (fun (t, location) component => do
    let location := follow location component
    return (← takeUp t location, location)) (t, t.workingDirectory)
  if t.isDirectory p then
    (← namesAt location).foldlM (fun t name => takeUp t (location ++ [name])) t
  else return t

def readBytes (t : FileTree) (p : Path) : IO FileTree := do
  match t.locate p with
  | .ok location =>
    if t.isFile p then
      return t.set location (.file (.bytes (← IO.FS.readBinFile (pathOf location))))
    else return t
  | .error _ => return t

def fetch (t : FileTree) (p : Path) : IO FileTree := do readBytes (← survey t p) p

/-- The files that a request reads, and the place it writes one image to. -/
def pathsOf (t : FileTree) : Request → List Path × List Path
  | .quadrants source region => ([SavedWorld.regionPath t source region], [])
  | .single source _ output => ([source], [output])
  | .directory path =>
    match Discovery.discover t path with
    | .ok (regions, _) => (regions.map (SavedWorld.regionPath t path), [])
    | .error _ => ([], [])

/-- Takes up all that a run looks at. -/
def gather (args : Arguments) : IO FileTree := do
  let t ← survey (← start) args.source
  let t ← args.config.toList.foldlM fetch t
  let config := (Program.loadConfig t args).toOption.getD {}
  let settings := Settings.resolve args config
  let t ← settings.palette.toList.foldlM fetch (← survey t settings.outDir)
  match Request.ofArguments t args with
  | .ok request =>
    let (read, written) := pathsOf t request
    read.foldlM fetch (← written.foldlM survey t)
  | .error _ => return t

/-- Makes one node of the disk what the run made it. -/
def carryOut (entry : Location × FileNode) : IO Unit :=
  match entry.2 with
  | .directory => IO.FS.createDirAll (pathOf entry.1)
  | .file (.image raster) => IO.FS.writeBinFile (pathOf entry.1) (Png.encode raster)
  | .file (.bytes data) => IO.FS.writeBinFile (pathOf entry.1) data

/-- Prints the log. Lines that only inform are printed when they were asked for. -/
def printLog (verbose : Bool) (log : Array LogLine) : IO Unit :=
  log.forM fun line => do
    if verbose || line.level != .info then IO.eprintln line.display

end TerrainMap.Disk

open TerrainMap in
/-- Runs the program on the disk. -/
def main (args : List String) : IO UInt32 := do
  let parsed := (CommandLine.parse args).toOption
  let before ← match parsed with
    | some a => Disk.gather a
    | none => Disk.start
  let ended := Program.run Host.own before args
  (before.changes (ended.treeFrom before)).reverse.forM Disk.carryOut
  Disk.printLog (parsed.any (·.verbose)) ended.log
  IO.print ended.output
  IO.eprint ended.errorOutput
  return ended.exitCode.toUInt32
