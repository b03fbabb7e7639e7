import TerrainMap.Column
import TerrainMap.CommandLine
import TerrainMap.Config

/-!
The settings of a run: the command line decides over the configuration file,
and the file over the defaults.
-/

namespace TerrainMap

structure Settings where
  workers : Nat
  outDir : Path
  palette : Option Path
  policy : ScanPolicy
  genRange : Bool
  deriving DecidableEq, Repr

namespace Settings

def defaultWorkers : Nat := 2

def defaultOutDir : Path := ⟨"."⟩

def resolve (args : Arguments) (config : Config) : Settings where
  workers := (args.workers.or config.workers).getD defaultWorkers
  outDir := (args.outDir.or config.outDir).getD defaultOutDir
  palette := args.palette.or config.palette
  policy := if args.nether then .nether else .overworld
  genRange := args.genRange

end Settings

end TerrainMap
