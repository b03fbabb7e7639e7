import TerrainMap.Color
import TerrainMap.Word

/-!
Rasters: rows of pixels in one flat buffer, three bytes to a pixel. A pixel is
found by counting rows of the raster's width, and only the end of the buffer
is guarded: a position past the right edge lies in the next row, one past the
end of the buffer does not exist.

Painting goes on until a position does not exist. What was painted before
stays, and the caller is told whether the painting was completed. What a
painting asks of the thing that is painted on is kept apart from the rasters.
-/

namespace TerrainMap

/-- A way to paint on something, pixel by pixel. A pixel that has no place ends
the painting. -/
structure Painter (σ : Type) where
  put : σ → (x y : Nat) → Color → σ × Bool

namespace Painter

variable {σ : Type}

/-- Paints `count` pixels of a row from `x` on. -/
def fillRow (painter : Painter σ) (s : σ) (x y : Nat) (c : Color) : Nat → σ × Bool
  | 0 => (s, true)
  | count + 1 =>
    match painter.put s x y c with
    | (s, false) => (s, false)
    | (s, true) => painter.fillRow s (x + 1) y c count

/-- Paints `height` rows of `width` pixels, the first of them at `x`, `y`. -/
def fillRows (painter : Painter σ) (s : σ) (x y width : Nat) (c : Color) :
    (height : Nat) → σ × Bool
  | 0 => (s, true)
  | height + 1 =>
    match painter.fillRow s x y c width with
    | (s, false) => (s, false)
    | (s, true) => painter.fillRows s x (y + 1) width c height

/-- Paints a rectangle with its top left corner at `x`, `y`. Where the word for
its right or bottom edge wraps around, nothing is left between the edges. -/
def fillRect (painter : Painter σ) (s : σ) (x y width height : Nat) (c : Color) : σ × Bool :=
  painter.fillRows s x y (Word.add x width - x) c (Word.add y height - y)

end Painter

structure Raster where
  width : Nat
  height : Nat
  data : Array UInt8
  deriving DecidableEq

namespace Raster

/-- The bytes of a raster. -/
def byteCount (width height : Nat) : Nat := Word.mul (Word.mul width height) 3

/-- The greatest number of bytes that a buffer may have. -/
def maxBytes : Nat := 9223372036854775807

/-- A raster of blank pixels. -/
def blank (width height : Nat) : Raster :=
  ⟨width, height, Array.replicate (byteCount width height) 0⟩

/-- A new raster of blank pixels, if there is a buffer for it. -/
def create? (width height : Nat) : Option Raster :=
  if byteCount width height ≤ maxBytes then some (blank width height) else none

/-- Where the bytes of a pixel begin. -/
def index (r : Raster) (x y : Nat) : Nat := Word.mul (Word.add (Word.mul y r.width) x) 3

def pixel? (r : Raster) (x y : Nat) : Option Color := do
  return ⟨← r.data[r.index x y]?, ← r.data[r.index x y + 1]?, ← r.data[r.index x y + 2]?⟩

def contains (r : Raster) (x y : Nat) : Bool := decide (r.index x y + 3 ≤ r.data.size)

/-- Colours a pixel. A position without a pixel is left alone. -/
def put (r : Raster) (x y : Nat) (c : Color) : Raster :=
  let i := r.index x y
  { r with
    data := ((r.data.setIfInBounds i c.r).setIfInBounds (i + 1) c.g).setIfInBounds (i + 2) c.b }

/-- Painting on a raster. -/
def painter : Painter Raster where
  put r x y c := if r.contains x y then (r.put x y c, true) else (r, false)

/-- Copies `count` bytes of `source` from `start` on to the bytes from `target`
on. -/
def copyBytes (source : Array UInt8) (start target : Nat) (data : Array UInt8) :
    Nat → Array UInt8
  | 0 => data
  | count + 1 =>
    copyBytes source (start + 1) (target + 1)
      (data.setIfInBounds target (source.getD start 0)) count

/-- Copies rows of `source`, from the row `row` on, to the rows from `y + row`
on. A row is copied as a whole or not at all. -/
def blitRows (r source : Raster) (row x y : Nat) : Nat → Raster × Bool
  | 0 => (r, true)
  | count + 1 =>
    let target := r.index x (Word.add y row)
    let length := Word.mul source.width 3
    let start := Word.mul row length
    if target + length ≤ r.data.size ∧ start + length ≤ source.data.size then
      blitRows { r with data := copyBytes source.data start target r.data length }
        source (row + 1) x y count
    else (r, false)

/-- Copies `source` with its top left corner to `x`, `y`. -/
def blit (r source : Raster) (x y : Nat) : Raster × Bool :=
  r.blitRows source 0 x y source.height

end Raster

end TerrainMap
