import TerrainMap.CommandLine
import TerrainMap.FileTree
import TerrainMap.Region.FileName

/-!
What a command line asks to be rendered. This depends on its positional
arguments and on whether its source is a directory.
-/

namespace TerrainMap

/-- The four quadrants of one region, one region in a single image, or the
quadrants of every region file in a directory. -/
inductive Request where
  | quadrants (source : Path) (region : RegionCoord)
  | single (source : Path) (region : RegionCoord) (output : Path)
  | directory (path : Path)
  deriving DecidableEq, Repr

/-- Why positional arguments ask for nothing that can be rendered. -/
inductive RequestError where
  | notInteger (name value : String)
  | isDirectory (source : Path)
  | notDirectory (source : Path)
  deriving DecidableEq, Repr

def RequestError.message : RequestError → String
  | notInteger name value => "<" ++ name ++ "> must be an integer, got '" ++ value ++ "'"
  | isDirectory source =>
    source.text ++ " is a directory; pass <region-x> <region-z> or a single region file"
  | notDirectory source =>
    source.text ++ " is not a directory; pass <region-x> <region-z> or an output path"

namespace Request

def coordinate (name value : String) : Except RequestError Int :=
  match Decimal.readInt32? value.toList with
  | some n => .ok n
  | none => .error (.notInteger name value)

/-- What the arguments ask for. A single region file stands for the region its
name gives, or for the one in the middle if its name gives none. -/
def ofArguments (t : FileTree) (args : Arguments) : Except RequestError Request :=
  match args.first, args.second with
  | some x, some z => do
    return quadrants args.source ⟨← coordinate "region-x" x, ← coordinate "region-z" z⟩
  | some output, none =>
    if t.isDirectory args.source then .error (.isDirectory args.source)
    else .ok (single args.source ((RegionCoord.ofPath? args.source).getD ⟨0, 0⟩) ⟨output⟩)
  | none, _ =>
    if t.isDirectory args.source then .ok (directory args.source)
    else .error (.notDirectory args.source)

end Request

end TerrainMap
