import TerrainMap.Compression.Bits

/-!
Canonical prefix codes. A code is given by the length of each symbol's code
word; words of one length are numbered in the order of their symbols, and all
words of a length come before those that are longer.
-/

namespace TerrainMap.Compression

def maxCodeLength : Nat := 15

/-- A canonical code: how many words there are of each length from one bit on,
up to the longest, and the symbols in the order of their words. -/
structure HuffmanCode where
  counts : List Nat
  symbols : Array Nat
  deriving DecidableEq, Repr

namespace HuffmanCode

/-- How much of the space of all words of length `maxCodeLength` the words of
the given lengths take, each word with its extensions. -/
def spaceTaken (lengths : List Nat) : Nat :=
  lengths.foldl (fun taken n => if n = 0 then taken else taken + (1 <<< (maxCodeLength - n))) 0

/-- Whether the words take all space exactly, so that every sequence of bits
begins with one of them or is the beginning of one. -/
def isComplete (lengths : List Nat) : Bool := spaceTaken lengths == 1 <<< maxCodeLength

/-- Whether there is no word at all, or a single one of one bit. -/
def isTrivial (lengths : List Nat) : Bool :=
  let used := lengths.filter (· != 0)
  used == [] || used == [1]

/-- Builds a code from the lengths of the words; a symbol of length zero has
no word. The longest length counts as one bit at least, because even a code
without words is read one bit at a time. -/
def ofLengths? (lengths : List Nat) : Option HuffmanCode :=
  if isComplete lengths || isTrivial lengths then
    let longest := max 1 (lengths.foldl max 0)
    some
      { counts := (List.range longest).map fun n => lengths.count (n + 1)
        symbols := ((List.range longest).flatMap fun n =>
          (lengths.zipIdx.filter fun entry => entry.1 == n + 1).map (·.2)).toArray }
  else none

/-- Walks down the code words bit by bit, given how many words there are of
each length that is still to come. `word` holds the bits so far, and of the
words of the present length `first` is the first, whose symbol stands at
`index`. Bits that no word begins with are a fault. -/
def walk (symbols : Array Nat) (data : ByteArray) (position word first index : Nat) :
    List Nat → Except StreamFault (Nat × Nat)
  | [] => .error .corrupt
  | count :: counts =>
    match bit? data position with
    | none => .error .truncated
    | some b =>
      let word := 2 * word + b
      if word < first + count then
        .ok (symbols.getD (index + (word - first)) 0, position + 1)
      else
        walk symbols data (position + 1) word (2 * (first + count)) (index + count) counts

def next (code : HuffmanCode) (data : ByteArray) (position : Nat) :
    Except StreamFault (Nat × Nat) :=
  walk code.symbols data position 0 0 0 code.counts

end HuffmanCode

end TerrainMap.Compression
