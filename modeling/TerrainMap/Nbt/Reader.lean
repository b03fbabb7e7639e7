import TerrainMap.Halt
import TerrainMap.Nbt.Text

/-!
Named binary tags, read from the front of a list of bytes. A reader takes the
bytes of one value and hands back the rest. Numbers are written with their
most significant byte first.

Values that nobody asked for are skipped by a looser rule than values that are
read: their texts are not looked at, and a list of negative length is empty.
-/

namespace TerrainMap.Nbt

/-- Bytes that are no tag of the expected kind. -/
inductive Fault where
  | malformed
  deriving DecidableEq, Repr

/-- The kind of a value. `terminator` stands where a compound ends. -/
inductive Tag where
  | terminator
  | byte
  | short
  | int
  | long
  | float
  | double
  | byteArray
  | string
  | list
  | compound
  | intArray
  | longArray
  deriving DecidableEq, Repr

/-- All kinds, in the order of their numbers. -/
def Tag.all : List Tag :=
  [.terminator, .byte, .short, .int, .long, .float, .double, .byteArray, .string, .list,
   .compound, .intArray, .longArray]

def Tag.ofByte? (b : UInt8) : Option Tag := Tag.all[b.toNat]?

/-- Takes a value from the front of the bytes and hands back the rest. -/
abbrev Reader (α : Type) := StateT (List UInt8) (Except (Halt Fault)) α

def malformed {α : Type} : Except (Halt Fault) α := .error (.failure .malformed)

def byte : Reader UInt8
  | [] => malformed
  | b :: rest => .ok (b, rest)

/-- Continues a number of which the leading bytes are worth `value`. -/
def natFrom (value : Nat) : Nat → Reader Nat
  | 0, bytes => .ok (value, bytes)
  | _ + 1, [] => malformed
  | width + 1, b :: rest => natFrom (value * 256 + b.toNat) width rest

/-- An unsigned number of `width` bytes. -/
def nat (width : Nat) : Reader Nat := natFrom 0 width

/-- A signed number of `width` bytes, in two's complement. -/
def int (width : Nat) : Reader Int := do
  return Int.bmod (← nat width) (1 <<< (8 * width))

/-- Exactly the next `count` bytes, put in front of `taken`, which is kept in
reverse. -/
def takeOnto (taken : List UInt8) : Nat → Reader (List UInt8)
  | 0, bytes => .ok (taken.reverse, bytes)
  | _ + 1, [] => malformed
  | count + 1, b :: rest => takeOnto (b :: taken) count rest

def take (count : Nat) : Reader (List UInt8) := takeOnto [] count

def drop : Nat → Reader Unit
  | 0, bytes => .ok ((), bytes)
  | _ + 1, [] => malformed
  | count + 1, _ :: rest => drop count rest

def tag : Reader Tag := do
  match Tag.ofByte? (← byte) with
  | some kind => return kind
  | none => malformed

/-- A text behind its length of two bytes. -/
def text : Reader String := do
  match readText (← take (← nat 2)) with
  | some value => return value
  | none => malformed

def arrayLength : Reader Nat := do
  match ← int 4 with
  | .ofNat count => return count
  | .negSucc _ => malformed

/-- Passes over a value whose bytes hold no other values. -/
def skipLeaf : Tag → Reader Unit
  | .byte => drop 1
  | .short => drop 2
  | .int => drop 4
  | .long => drop 8
  | .float => drop 4
  | .double => drop 8
  | .string => do drop (← nat 2)
  | .byteArray => do drop (← arrayLength)
  | .intArray => do drop (4 * (← arrayLength))
  | .longArray => do drop (8 * (← arrayLength))
  | _ => malformed

mutual

/-- Passes over a value. `fuel` bounds the number of values on the way down to
the innermost one. A list that claims elements of the kind `terminator` breaks
the reading off. -/
def skipValue : Nat → Tag → List UInt8 → Except (Halt Fault) (List UInt8)
  | 0, _, _ => malformed
  | _ + 1, .terminator, _ => .error .crash
  | fuel + 1, .compound, bytes => skipEntries fuel bytes
  | fuel + 1, .list, bytes => do
    let (kind, bytes) ← tag bytes
    let (count, bytes) ← int 4 bytes
    skipElements fuel kind count.toNat bytes
  | _ + 1, kind, bytes => do
    let ((), rest) ← skipLeaf kind bytes
    return rest

/-- Passes over the entries of a compound up to and including its end. -/
def skipEntries : Nat → List UInt8 → Except (Halt Fault) (List UInt8)
  | 0, _ => malformed
  | fuel + 1, bytes =>
    match tag bytes with
    | .error halt => .error halt
    | .ok (.terminator, rest) => .ok rest
    | .ok (kind, rest) =>
      match (do drop (← nat 2) : Reader Unit) rest with
      | .error halt => .error halt
      | .ok ((), rest) =>
        match skipValue fuel kind rest with
        | .error halt => .error halt
        | .ok rest => skipEntries fuel rest

/-- Passes over elements of one kind. -/
def skipElements : Nat → Tag → Nat → List UInt8 → Except (Halt Fault) (List UInt8)
  | _, _, 0, bytes => .ok bytes
  | 0, _, _ + 1, _ => malformed
  | fuel + 1, kind, count + 1, bytes =>
    match skipValue fuel kind bytes with
    | .error halt => .error halt
    | .ok rest => skipElements fuel kind count rest

end

def skip (fuel : Nat) (kind : Tag) : Reader Unit := fun bytes => do
  return ((), ← skipValue fuel kind bytes)

/-- Fuel for all that the bytes can hold: between two bytes of a value there
are at most three steps. -/
def fuelFor (bytes : List UInt8) : Nat := 3 * bytes.length + 3

end TerrainMap.Nbt
