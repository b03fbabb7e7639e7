import Std.Data.HashMap
import TerrainMap.Block
import TerrainMap.Color

/-!
Palettes give blocks their base colours. Keys are stored under their short
names, so that a colour given for either spelling of a block serves both.
-/

namespace TerrainMap

structure Palette where
  colors : Std.HashMap String Color

namespace Palette

def empty : Palette := ⟨∅⟩

/-- Gives a block a colour, replacing the one it had. -/
def insert (p : Palette) (name : String) (color : Color) : Palette :=
  ⟨p.colors.insert (Block.normalize name) color⟩

def lookup (p : Palette) (name : String) : Option Color :=
  p.colors[Block.normalize name]?

def size (p : Palette) : Nat := p.colors.size

def isEmpty (p : Palette) : Bool := p.colors.isEmpty

/-- Inserts the entries in order, so that the last one for a block wins. -/
def insertAll (p : Palette) (entries : List (String × Color)) : Palette :=
  entries.foldl (fun q entry => q.insert entry.1 entry.2) p

def ofList (entries : List (String × Color)) : Palette :=
  empty.insertAll entries

/-- Lays `other` over `p`: where both colour a block, `other` decides. -/
def merge (p other : Palette) : Palette :=
  ⟨p.colors.insertMany other.colors.toList⟩

end Palette

end TerrainMap
