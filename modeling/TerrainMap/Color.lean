/-!
Colours of pixels: three channels of eight bits.
-/

namespace TerrainMap

structure Color where
  r : UInt8
  g : UInt8
  b : UInt8
  deriving DecidableEq, Repr, Inhabited

namespace Color

/-- The colour of a pixel about which nothing is known: its chunk is absent,
its column is empty, or its block has no colour. -/
def blank : Color := ⟨0, 0, 0⟩

/-- Moves one channel by `delta`, stopping at either end of its range. -/
def shiftChannel (channel : UInt8) (delta : Int) : UInt8 :=
  UInt8.ofNat (max 0 (min 255 ((channel.toNat : Int) + delta))).toNat

def shift (c : Color) (delta : Int) : Color :=
  ⟨shiftChannel c.r delta, shiftChannel c.g delta, shiftChannel c.b delta⟩

def slopeStep : Int := 30

/-- Shades a colour by the slope that leads to it: lighter when the ground
rises from the `previous` elevation, darker when it falls, and unchanged on
level ground or where there is nothing to compare with. -/
def shade (base : Color) (previous : Option Int) (elevation : Int) : Color :=
  match previous with
  | none => base
  | some before =>
    if before < elevation then base.shift slopeStep
    else if elevation < before then base.shift (-slopeStep)
    else base

end Color

end TerrainMap
