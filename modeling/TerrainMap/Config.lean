import TerrainMap.FileTree
import TerrainMap.Toml.Parser

/-!
The configuration file. It holds one table, `render`, whose entries are all
optional; any other entry is an error.
-/

namespace TerrainMap

structure Config where
  workers : Option Nat := none
  outDir : Option Path := none
  palette : Option Path := none
  deriving DecidableEq, Repr

inductive ConfigError where
  | unreadable (path : Path) (cause : FileError)
  | malformed (path : Option Path)
  | noWorkers (path : Option Path)
  deriving DecidableEq, Repr

namespace ConfigError

/-- Names the file in front of what is wrong with its text. -/
def located (path : Option Path) (text : String) : String :=
  match path with
  | none => text
  | some path => "invalid config " ++ path.text ++ ": " ++ text

def message : ConfigError → String
  | unreadable path cause => "cannot read config " ++ path.text ++ ": " ++ cause.message
  | malformed path => located path "not a render table"
  | noWorkers path => located path "[render] workers must be at least 1"

end ConfigError

namespace Config

open Toml

def workers? : Value → Option Nat
  | .integer (.ofNat n) => some n
  | _ => none

def path? : Value → Option Path
  | .string text => some ⟨text⟩
  | _ => none

def addEntry (c : Config) (entry : String × Value) : Option Config :=
  if entry.1 = "workers" then (workers? entry.2).map fun n => { c with workers := some n }
  else if entry.1 = "out_dir" then (path? entry.2).map fun p => { c with outDir := some p }
  else if entry.1 = "palette" then (path? entry.2).map fun p => { c with palette := some p }
  else none

/-- The table `render`. It may also be written as the list of its three values. -/
def ofRender? : Value → Option Config
  | .table _ entries => entries.foldlM addEntry {}
  | .array (workers :: outDir :: palette :: _) => do
    return ⟨some (← workers? workers), some (← path? outDir), some (← path? palette)⟩
  | _ => none

def ofDocument? : List (String × Value) → Option Config
  | [] => some {}
  | [("render", value)] => ofRender? value
  | _ => none

/-- The configuration that a text describes; `path` is where the text is from. -/
def ofText (path : Option Path) (text : String) : Except ConfigError Config :=
  match (Toml.parse? text).bind ofDocument? with
  | none => .error (.malformed path)
  | some config => if config.workers = some 0 then .error (.noWorkers path) else .ok config

/-- Loads a configuration file. Paths in it start from the file's directory. -/
def load (t : FileTree) (path : Path) : Except ConfigError Config :=
  match t.readText path with
  | .error cause => .error (.unreadable path cause)
  | .ok text => do
    let config ← ofText (some path) text
    let base := path.parent?.getD ⟨""⟩
    return { config with
      outDir := config.outDir.map base.join, palette := config.palette.map base.join }

end Config

end TerrainMap
