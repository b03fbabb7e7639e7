import TerrainMap.MapRun
import TerrainMap.Palette.File

/-!
The program from its command line to its exit code. Every step may end the
program; what comes to pass is a value, and the outermost layer carries it out.
-/

namespace TerrainMap

inductive ProgramEnd where
  | usage (cause : UsageError)
  | request (cause : RequestError)
  | config (cause : ConfigError)
  | palette (cause : PaletteError)
  | ran (run : MapRun)

namespace Program

/-- The configuration of the command line's file, if it names one. -/
def loadConfig (t : FileTree) (args : Arguments) : Except ConfigError Config :=
  match args.config with
  | none => .ok {}
  | some path => Config.load t path

/-- What follows once the command line was read. -/
def runArguments (host : Host) (t : FileTree) (args : Arguments) : ProgramEnd :=
  match Request.ofArguments t args with
  | .error cause => .request cause
  | .ok request =>
    match loadConfig t args with
    | .error cause => .config cause
    | .ok config =>
      let settings := Settings.resolve args config
      match Palette.load t settings.palette with
      | .error cause => .palette cause
      | .ok palette => .ran (MapRun.execute host request settings palette t)

def run (host : Host) (t : FileTree) (args : List String) : ProgramEnd :=
  match CommandLine.parse args with
  | .error cause => .usage cause
  | .ok args => runArguments host t args

end Program

namespace ProgramEnd

/-- What the user is told when the program is called in the wrong way. -/
def usageLines : List String :=
  ["Usage: topview [OPTIONS] <SOURCE> [FIRST] [SECOND]",
   "",
   "Options:",
   "  -j, --procs <PROCS>      Number of render worker threads [default: 2]",
   "  -v, --verbose            Log per-quadrant progress",
   "  -o, --out-dir <OUT_DIR>  Directory quadrant tiles are written to [default: .]",
   "      --palette <PALETTE>  TOML palette merged over the builtin block colors",
   "      --config <CONFIG>    TOML config file with a `[render]` table",
   "  -n, --nether             Scan from y=127 and look through the bedrock roof",
   "  -r, --gen-range          Write `chunk_range.json` with the rendered region bounds",
   "  -h, --help               Print help"]

def usageText : String := String.join (usageLines.map (· ++ "\n"))

/-- A program that cannot do its work exits with 2, one that failed in part of
it with 1, and one that crashed with 101. -/
def exitCode : ProgramEnd → Nat
  | usage .helpWanted => 0
  | ran run =>
    match run.outcome with
    | .ok summary => if summary.allSucceeded then 0 else 1
    | .error (.failure _) => 2
    | .error .crash => 101
  | _ => 2

def output : ProgramEnd → String
  | usage .helpWanted => usageText
  | ran run =>
    match run.outcome with
    | .ok summary => summary.display ++ "\n"
    | .error _ => ""
  | _ => ""

/-- A complaint about the way the program was called. -/
def complaint (text : String) : String := "error: " ++ text ++ "\n\n" ++ usageText

def fatal (text : String) : String := "topview: " ++ text ++ "\n"

/-- What the program prints beside its log when it does not succeed. -/
def errorOutput : ProgramEnd → String
  | usage .helpWanted => ""
  | usage cause => complaint cause.message
  | request cause => complaint cause.message
  | config cause => fatal cause.message
  | palette cause => fatal cause.message
  | ran run =>
    match run.outcome with
    | .ok _ => ""
    | .error (.failure cause) => fatal cause.message
    | .error .crash => "the run crashed\n"

def log : ProgramEnd → Array LogLine
  | ran run => run.log
  | _ => #[]

/-- The tree that the program leaves behind. -/
def treeFrom (t : FileTree) : ProgramEnd → FileTree
  | ran run => run.tree
  | _ => t

end ProgramEnd

end TerrainMap
