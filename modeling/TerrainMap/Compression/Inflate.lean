import TerrainMap.Compression.Huffman

/-!
Decompression of deflate streams. What was decompressed before a fault is kept
beside the fault, because some callers make do with it.
-/

namespace TerrainMap.Compression

/-- The output so far, and the position behind what was read or the fault that
ended the reading. -/
structure Inflated where
  output : ByteArray
  ending : Except StreamFault Nat

namespace Inflate

/-- The least length that each length symbol stands for, and the number of bits
that are added to it. -/
def lengthTable : Array (Nat × Nat) :=
  #[(3, 0), (4, 0), (5, 0), (6, 0), (7, 0), (8, 0), (9, 0), (10, 0), (11, 1), (13, 1),
    (15, 1), (17, 1), (19, 2), (23, 2), (27, 2), (31, 2), (35, 3), (43, 3), (51, 3), (59, 3),
    (67, 4), (83, 4), (99, 4), (115, 4), (131, 5), (163, 5), (195, 5), (227, 5), (258, 0)]

/-- The least distance that each distance symbol stands for, and the number of
bits that are added to it. -/
def distanceTable : Array (Nat × Nat) :=
  #[(1, 0), (2, 0), (3, 0), (4, 0), (5, 1), (7, 1), (9, 2), (13, 2), (17, 3), (25, 3),
    (33, 4), (49, 4), (65, 5), (97, 5), (129, 6), (193, 6), (257, 7), (385, 7), (513, 8),
    (769, 8), (1025, 9), (1537, 9), (2049, 10), (3073, 10), (4097, 11), (6145, 11),
    (8193, 12), (12289, 12), (16385, 13), (24577, 13)]

/-- The order in which the lengths of the length code are written. -/
def lengthOrder : List Nat :=
  [16, 17, 18, 0, 8, 7, 9, 6, 10, 5, 11, 4, 12, 3, 13, 2, 14, 1, 15]

/-- Repeats the last `distance` bytes of the output until `count` bytes are
added. Bytes before the beginning read as zero. -/
def copyBack (distance : Nat) : Nat → ByteArray → ByteArray
  | 0, output => output
  | count + 1, output =>
    let b := if distance ≤ output.size then output.get! (output.size - distance) else 0
    copyBack distance count (output.push b)

/-- A number whose least value and whose added bits stand at `index` of a
table, with the position behind it. -/
def extended (table : Array (Nat × Nat)) (data : ByteArray) (index position : Nat) :
    Except StreamFault (Nat × Nat) :=
  match table[index]? with
  | none => .error .corrupt
  | some (base, width) => do return (base + (← bits data position width), position + width)

/-- Decompresses symbols up to the end of their block. Every symbol takes a bit
at least, which bounds the number of steps. -/
def symbols (literals distances : HuffmanCode) (data : ByteArray) :
    Nat → Nat → ByteArray → Inflated
  | 0, _, output => ⟨output, .error .truncated⟩
  | steps + 1, position, output =>
    match literals.next data position with
    | .error fault => ⟨output, .error fault⟩
    | .ok (symbol, position) =>
      if symbol < 256 then
        symbols literals distances data steps position (output.push (UInt8.ofNat symbol))
      else if symbol = 256 then ⟨output, .ok position⟩
      else
        let reference := do
          let (length, position) ← extended lengthTable data (symbol - 257) position
          let (code, position) ← distances.next data position
          let (distance, position) ← extended distanceTable data code position
          return (length, distance, position)
        match reference with
        | .error fault => ⟨output, .error fault⟩
        | .ok (length, distance, position) =>
          symbols literals distances data steps position (copyBack distance length output)

/-- The code for literals and lengths that needs no description. -/
def fixedLiterals : Option HuffmanCode :=
  HuffmanCode.ofLengths? (List.replicate 144 8 ++ List.replicate 112 9
    ++ List.replicate 24 7 ++ List.replicate 8 8)

def fixedDistances : Option HuffmanCode :=
  HuffmanCode.ofLengths? (List.replicate 32 5)

/-- Reads `count` code lengths, which follow those in `done`, kept in reverse. -/
def codeLengths (code : HuffmanCode) (data : ByteArray) (count : Nat) :
    Nat → List Nat → Nat → Except StreamFault (List Nat × Nat)
  | 0, _, _ => .error .corrupt
  | steps + 1, done, position =>
    if done.length = count then .ok (done.reverse, position)
    else if count < done.length then .error .corrupt
    else do
      let (symbol, position) ← code.next data position
      if symbol < 16 then codeLengths code data count steps (symbol :: done) position
      else if symbol = 16 then
        match done with
        | [] => throw .corrupt
        | last :: _ =>
          let times := 3 + (← bits data position 2)
          codeLengths code data count steps (List.replicate times last ++ done) (position + 2)
      else
        let (base, width) := if symbol = 17 then (3, 3) else (11, 7)
        let times := base + (← bits data position width)
        codeLengths code data count steps (List.replicate times 0 ++ done) (position + width)

/-- Places the lengths that were written in `lengthOrder` by their symbols. -/
def placeLengths (written : List Nat) : List Nat :=
  (List.range 19).map fun symbol => ((lengthOrder.zip written).lookup symbol).getD 0

def triples (data : ByteArray) (position count : Nat) : Except StreamFault (List Nat) :=
  (List.range count).mapM fun i => bits data (position + 3 * i) 3

def codeOf (lengths : List Nat) : Except StreamFault HuffmanCode :=
  match HuffmanCode.ofLengths? lengths with
  | some code => .ok code
  | none => .error .corrupt

/-- Reads the description of the two codes of a block. The code in which the
lengths of their words are written must leave no sequence of bits over. -/
def dynamicCodes (data : ByteArray) (position : Nat) :
    Except StreamFault (HuffmanCode × HuffmanCode × Nat) := do
  let literalCount := 257 + (← bits data position 5)
  let distanceCount := 1 + (← bits data (position + 5) 5)
  let lengthCount := 4 + (← bits data (position + 10) 4)
  if 286 < literalCount ∨ 30 < distanceCount then throw .corrupt
  let written := placeLengths (← triples data (position + 14) lengthCount)
  if !HuffmanCode.isComplete written then throw .corrupt
  let lengthCode ← codeOf written
  let count := literalCount + distanceCount
  let (lengths, position) ←
    codeLengths lengthCode data count (count + 1) [] (position + 14 + 3 * lengthCount)
  return (← codeOf (lengths.take literalCount), ← codeOf (lengths.drop literalCount), position)

/-- Copies a block that is not compressed. Its length is written twice, the
second time with every bit turned. -/
def storedBlock (data : ByteArray) (position : Nat) (output : ByteArray) : Inflated :=
  let start := nextByte position
  let lengths := do return (← bits data (8 * start) 16, ← bits data (8 * start + 16) 16)
  match lengths with
  | .error fault => ⟨output, .error fault⟩
  | .ok (length, turned) =>
    if length + turned ≠ 65535 then ⟨output, .error .corrupt⟩
    else
      let output := output ++ data.extract (start + 4) (start + 4 + length)
      if data.size < start + 4 + length then ⟨output, .error .truncated⟩
      else ⟨output, .ok (8 * (start + 4 + length))⟩

def codedBlock (codes : Except StreamFault (HuffmanCode × HuffmanCode × Nat))
    (data : ByteArray) (output : ByteArray) : Inflated :=
  match codes with
  | .error fault => ⟨output, .error fault⟩
  | .ok (literals, distances, position) =>
    symbols literals distances data (8 * data.size + 1) position output

/-- One block behind its header of three bits, the last two of which tell its
kind. -/
def block (data : ByteArray) (kind position : Nat) (output : ByteArray) : Inflated :=
  match kind with
  | 0 => storedBlock data position output
  | 1 =>
    match fixedLiterals, fixedDistances with
    | some literals, some distances => codedBlock (.ok (literals, distances, position)) data output
    | _, _ => ⟨output, .error .corrupt⟩
  | 2 => codedBlock (dynamicCodes data position) data output
  | _ => ⟨output, .error .corrupt⟩

/-- Decompresses blocks up to the one that is marked as the last. -/
def blocks (data : ByteArray) : Nat → Nat → ByteArray → Inflated
  | 0, _, output => ⟨output, .error .truncated⟩
  | steps + 1, position, output =>
    match bits data position 3 with
    | .error fault => ⟨output, .error fault⟩
    | .ok header =>
      let inflated := block data (header / 2) (position + 3) output
      match inflated.ending with
      | .error _ => inflated
      | .ok position =>
        if header % 2 = 1 then inflated else blocks data steps position inflated.output

end Inflate

/-- Decompresses the stream that begins at a byte of the data. -/
def inflate (data : ByteArray) (start : Nat) : Inflated :=
  Inflate.blocks data (8 * data.size + 1) (8 * start) ByteArray.empty

end TerrainMap.Compression
