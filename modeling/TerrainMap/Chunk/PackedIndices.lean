import TerrainMap.Halt

/-!
The blocks of a section are stored as indices into its palette, packed into
words of 64 bits. Every index takes the same number of bits. In the spanning
layout indices lie back to back and may straddle two words; in the padded
layout every word holds as many whole indices as fit, and its highest bits
stay unused.

Unpacking is written over a machine that it asks for words, shifts and
quotients, so that it can be said what it asks for.
-/

namespace TerrainMap.PackedIndices

/-- Blocks of one section: 16 × 16 × 16. -/
def sectionVolume : Nat := 4096

inductive Layout where
  | spanning
  | padded
  deriving DecidableEq, Repr

/-- Why words cannot hold the indices of a section: there are too few. -/
structure Shortage where
  longs : Nat
  needed : Nat
  bits : Nat
  deriving DecidableEq, Repr

/-- Bits of one index: enough for every name of the palette, and never fewer
than four. -/
def bitsPerIndex (names : Nat) : Nat :=
  max 4 (if names ≤ 1 then 0 else Nat.log2 (names - 1) + 1)

/-- What unpacking asks for: a word by its number, a shifted word, and a
quotient with its rest. -/
structure Machine (m : Type → Type) where
  read : Nat → m UInt64
  shiftRight : UInt64 → Nat → m UInt64
  shiftLeft : UInt64 → Nat → m UInt64
  divide : Nat → Nat → m (Nat × Nat)

namespace Machine

section Program

variable {m : Type → Type} [Monad m] (machine : Machine m)

/-- Reads the index number `i`. -/
def field (layout : Layout) (bits : Nat) (mask : UInt64) (i : Nat) : m UInt64 :=
  match layout with
  | .spanning => do
    let (word, shift) ← machine.divide (i * bits) 64
    let low ← machine.shiftRight (← machine.read word) shift
    if shift + bits > 64 then
      let high ← machine.shiftLeft (← machine.read (word + 1)) (64 - shift)
      return (low ||| high) &&& mask
    else
      return low &&& mask
  | .padded => do
    let (perWord, _) ← machine.divide 64 bits
    let (word, place) ← machine.divide i perWord
    return (← machine.shiftRight (← machine.read word) (place * bits)) &&& mask

def wordsNeeded (layout : Layout) (bits : Nat) : m Nat :=
  match layout with
  | .spanning => do
    let (count, _) ← machine.divide (sectionVolume * bits + 63) 64
    return count
  | .padded => do
    let (perWord, _) ← machine.divide 64 bits
    let (count, _) ← machine.divide (sectionVolume + perWord - 1) perWord
    return count

/-- Unpacks the indices of one section, whose palette has `names` names, from
`size` words. Of each index only the low 16 bits are kept. -/
def unpack (layout : Layout) (names size : Nat) : m (Attempt Shortage (Array UInt16)) := do
  let bits := bitsPerIndex names
  let mask := (← machine.shiftLeft 1 bits) - 1
  let needed ← machine.wordsNeeded layout bits
  if size < needed then
    return .fail ⟨size, needed, bits⟩
  else
    let fields ← (List.range sectionVolume).mapM (machine.field layout bits mask)
    return .ok (fields.map UInt64.toUInt16).toArray

end Program

/-- Shifts by their amount modulo the width of a word, divides by anything, and
has nothing in place of a missing word. -/
def lenient (words : Array UInt64) : Machine Option where
  read k := words[k]?
  shiftRight w s := some (w >>> UInt64.ofNat s)
  shiftLeft w s := some (w <<< UInt64.ofNat s)
  divide a b := some (a / b, a % b)

end Machine

/-- Unpacks the indices of one section whose palette has `names` names. Where a
word is missing in spite of the check, unpacking breaks off. -/
def unpack (layout : Layout) (names : Nat) (words : Array UInt64) :
    Attempt Shortage (Array UInt16) :=
  ((Machine.lenient words).unpack layout names words.size).getD (.error .crash)

end TerrainMap.PackedIndices
