import TerrainMap.Nbt.Reader

/-!
Records inside binary tags. A record is written as a compound, whose entries
may come in any order and mixed with unknown ones, or as a list of its fields
in their declared order. An array counts as a compound without known entries.
-/

namespace TerrainMap.Nbt

/-- An integer of any width, if it lies between `lo` and `hi`. -/
def readInteger (lo hi : Int) (kind : Tag) : Reader Int := do
  let value ← match kind with
    | .byte => int 1
    | .short => int 2
    | .int => int 4
    | .long => int 8
    | _ => fun _ => malformed
  if lo ≤ value ∧ value ≤ hi then return value else malformed

def readString (kind : Tag) : Reader String :=
  if kind = .string then text else fun _ => malformed

/-- Reads `count` words of 64 bits, appended to `words`. -/
def longsOnto (words : Array UInt64) : Nat → Reader (Array UInt64)
  | 0, bytes => .ok (words, bytes)
  | count + 1, bytes =>
    match nat 8 bytes with
    | .error halt => .error halt
    | .ok (word, rest) => longsOnto (words.push (UInt64.ofNat word)) count rest

/-- An array of words of 64 bits; no list stands in for it. -/
def readLongs (kind : Tag) : Reader (Array UInt64) :=
  if kind = .longArray then do longsOnto #[] (← arrayLength) else fun _ => malformed

/-- The most elements a list may claim when it is read. -/
def maxListLength : Int := 100000000

/-- The kind and the number of the elements of a list. Elements of the kind
`terminator` cannot be read, so such a list must be empty. -/
def listHeader : Reader (Tag × Nat) := do
  let kind ← tag
  let count ← int 4
  if count < 0 ∨ maxListLength < count ∨ (kind = .terminator ∧ count ≠ 0) then malformed
  else return (kind, count.toNat)

/-- Reads `count` elements, put in front of `read`, which is kept in reverse. -/
def elementsOnto {α : Type} (element : Reader α) (done : List α) : Nat → Reader (List α)
  | 0, bytes => .ok (done.reverse, bytes)
  | count + 1, bytes =>
    match element bytes with
    | .error halt => .error halt
    | .ok (value, rest) => elementsOnto element (value :: done) count rest

def readList {α : Type} (element : Tag → Reader α) (kind : Tag) : Reader (List α) :=
  if kind = .list then do
    let (elementKind, count) ← listHeader
    elementsOnto (element elementKind) [] count
  else fun _ => malformed

/-- How the fields of a record are read: each takes what was read so far and
adds its value. The fields stand in their declared order. -/
structure Shape (π : Type) where
  start : π
  fields : List (String × (π → Tag → Reader π))

def field {π α : Type} (name : String) (get : π → Option α) (set : π → α → π)
    (read : Tag → Reader α) : String × (π → Tag → Reader π) :=
  (name, fun soFar kind => do
    if (get soFar).isSome then malformed else return set soFar (← read kind))

/-- Names that no compound may use for an entry while it is read: arrays are
presented under them. -/
def reservedNames : List String :=
  ["__fastnbt_byte_array", "__fastnbt_int_array", "__fastnbt_long_array"]

/-- Reads the entries of a compound up to and including its end, `steps` of
them at most. Unknown entries are skipped with `fuel`. -/
def readEntries {π : Type} (fuel : Nat) (shape : Shape π) : Nat → π → Reader π
  | 0, _, _ => malformed
  | steps + 1, soFar, bytes =>
    match tag bytes with
    | .error halt => .error halt
    | .ok (.terminator, rest) => .ok (soFar, rest)
    | .ok (kind, rest) =>
      match text rest with
      | .error halt => .error halt
      | .ok (name, rest) =>
        if name ∈ reservedNames then malformed
        else match shape.fields.lookup name with
          | some read =>
            match read soFar kind rest with
            | .error halt => .error halt
            | .ok (soFar, rest) => readEntries fuel shape steps soFar rest
          | none =>
            match skip fuel kind rest with
            | .error halt => .error halt
            | .ok ((), rest) => readEntries fuel shape steps soFar rest

/-- Reads the body of a compound. Every entry of it takes a byte at least, so
that fuel for the bytes also bounds the number of entries. -/
def readCompound {π : Type} (fuel : Nat) (shape : Shape π) : Reader π :=
  readEntries fuel shape fuel shape.start

/-- Reads leading fields in their declared order. Elements beyond the declared
fields are left in the bytes. -/
def readLeading {π : Type} (kind : Tag) :
    List (String × (π → Tag → Reader π)) → Nat → π → Reader π
  | (_, read) :: fields, count + 1, soFar => do
    readLeading kind fields count (← read soFar kind)
  | _, _, soFar => fun bytes => .ok (soFar, bytes)

/-- Reads a record in whichever form it has. -/
def readRecord {π : Type} (fuel : Nat) (shape : Shape π) (kind : Tag) : Reader π :=
  match kind with
  | .compound => readCompound fuel shape
  | .list => do
    let (elementKind, count) ← listHeader
    readLeading elementKind shape.fields count shape.start
  | .byteArray | .intArray | .longArray => do
    skipLeaf kind
    return shape.start
  | _ => fun _ => malformed

def required {α : Type} : Option α → Reader α
  | some value => fun bytes => .ok (value, bytes)
  | none => fun _ => malformed

/-- Reads the compound that a document consists of. Its name is passed over
unread, and so are bytes behind it. -/
def readDocument {π : Type} (fuel : Nat) (shape : Shape π) : Reader π := do
  match ← tag with
  | .compound => drop (← nat 2)
  | _ => fun _ => malformed
  readCompound fuel shape

end TerrainMap.Nbt
