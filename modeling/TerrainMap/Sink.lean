import TerrainMap.FileTree
import TerrainMap.Halt
import TerrainMap.Host

/-!
Where finished rasters go. A sink takes a raster with the path it is meant for,
and may refuse it or crash. The image sink writes files into a tree.
-/

namespace TerrainMap

/-- Why a sink refuses a raster: no directory for it, or no image. The path is
the one that could not be made. -/
inductive SinkError where
  | create (path : Path) (cause : FileError)
  | encode (path : Path) (detail : String)
  deriving DecidableEq, Repr

def SinkError.message : SinkError → String
  | create path cause => "cannot create " ++ path.text ++ ": " ++ cause.message
  | encode path detail => "cannot write " ++ path.text ++ ": " ++ detail

structure Sink (σ : Type) where
  write : Raster → Path → σ → Attempt SinkError Unit × σ

namespace Sink

/-- What is left of an image that has no pixels: an end chunk and nothing
before it. -/
def emptyImage : ByteArray :=
  ⟨#[0, 0, 0, 0, 0x49, 0x45, 0x4E, 0x44, 0xAE, 0x42, 0x60, 0x82]⟩

/-- Saves an image that was made. One without pixels is refused, but only after
its file was begun. -/
def saveImage (raster : Raster) (path : Path) (t : FileTree) :
    Attempt SinkError Unit × FileTree :=
  let hasPixels := raster.width ≠ 0 ∧ raster.height ≠ 0
  let content := if hasPixels then FileContent.image raster else .bytes emptyImage
  match t.write path content with
  | (t, .error cause) => (.fail (.encode path cause.message), t)
  | (t, .ok ()) =>
    if hasPixels then (.ok (), t) else (.fail (.encode path "an image needs pixels"), t)

/-- Makes an image and saves it. Where no image can be made, nothing is written. -/
def writeImage (host : Host) (raster : Raster) (path : Path) (t : FileTree) :
    Attempt SinkError Unit × FileTree :=
  match host.encodingFault? raster path with
  | some detail => (.fail (.encode path detail), t)
  | none => saveImage raster path t

def writeInto (host : Host) (raster : Raster) (path : Path) (t : FileTree) :
    Attempt SinkError Unit × FileTree :=
  match path.parent? with
  | none => writeImage host raster path t
  | some parent =>
    if parent.text = "" then writeImage host raster path t
    else match t.createDirectories parent with
      | (t, .error cause) => (.fail (.create parent cause), t)
      | (t, .ok ()) => writeImage host raster path t

def imageFiles (host : Host) : Sink FileTree := ⟨writeInto host⟩

/-- The sink that reacts to a raster and its path in a fixed way, and keeps in
order what it accepted. -/
def reacting (react : Raster → Path → Attempt SinkError Unit) : Sink (Array (Path × Raster)) where
  write raster path kept :=
    match react raster path with
    | .ok () => (.ok (), kept.push (path, raster))
    | .error halt => (.error halt, kept)

end Sink

end TerrainMap
