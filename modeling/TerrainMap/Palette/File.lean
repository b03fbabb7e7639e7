import TerrainMap.FileTree
import TerrainMap.Palette.Builtin
import TerrainMap.Toml.Parser

/-!
Palettes from files. A palette file gives colours in its table `colors`, each
as a list of three channels or as a table with the channels `r`, `g` and `b`.
Other tables do not matter.
-/

namespace TerrainMap

inductive PaletteError where
  | unreadable (path : Path) (cause : FileError)
  | malformed
  deriving DecidableEq, Repr

def PaletteError.message : PaletteError → String
  | unreadable path cause => "cannot read palette " ++ path.text ++ ": " ++ cause.message
  | malformed => "invalid palette: not a table of colors"

namespace Palette

open Toml

/-- A channel, if the value is a whole number in its range. -/
def channel? : Value → Option UInt8
  | .integer n => if 0 ≤ n ∧ n ≤ 255 then some (UInt8.ofNat n.toNat) else none
  | _ => none

/-- A colour in either of its forms. A table may hold other entries too. -/
def color? : Value → Option Color
  | .array [r, g, b] => do return ⟨← channel? r, ← channel? g, ← channel? b⟩
  | .table _ entries => do
    return ⟨← channel? (← entries.lookup "r"), ← channel? (← entries.lookup "g"),
      ← channel? (← entries.lookup "b")⟩
  | _ => none

/-- The entries of the table `colors`, which may be missing. -/
def colorEntries? (document : List (String × Value)) : Option (List (String × Color)) :=
  match document.lookup "colors" with
  | none => some []
  | some (.table _ entries) =>
    entries.mapM fun entry => (color? entry.2).map fun color => (entry.1, color)
  | some _ => none

/-- Takes up entries in the order of their keys, so that of two spellings of a
block the greater one decides, wherever they stand in the file. -/
def ofEntries (entries : List (String × Color)) : Palette :=
  ofList (entries.mergeSort fun a b => decide (a.1 ≤ b.1))

def ofText (text : String) : Except PaletteError Palette :=
  match (Toml.parse? text).bind colorEntries? with
  | some entries => .ok (ofEntries entries)
  | none => .error .malformed

def ofFile (t : FileTree) (path : Path) : Except PaletteError Palette :=
  match t.readText path with
  | .error cause => .error (.unreadable path cause)
  | .ok text => ofText text

/-- The built-in palette, with the user's palette laid over it if there is one. -/
def load (t : FileTree) : Option Path → Except PaletteError Palette
  | none => .ok builtin
  | some path => (ofFile t path).map builtin.merge

end Palette

end TerrainMap
