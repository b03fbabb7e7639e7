import TerrainMap.Chunk.PackedIndices
import TerrainMap.Chunk.Record
import TerrainMap.Chunk.View

/-!
Chunks as they are kept in region files, decoded into sections of 16 × 16 × 16
blocks. Only the sixteen sections between the heights 0 and 256 are kept.
-/

namespace TerrainMap.Chunk

/-- Why the bytes of a chunk give no blocks. -/
inductive DecodeError where
  | malformed
  | shortStates (shortage : PackedIndices.Shortage)
  | markedCorrupt
  deriving DecidableEq, Repr

def DecodeError.message : DecodeError → String
  | .malformed => "bad chunk nbt: malformed data"
  | .shortStates s =>
    "block states too short: " ++ Nat.repr s.longs ++ " longs, need " ++ Nat.repr s.needed
      ++ " for " ++ Nat.repr s.bits ++ " bits"
  | .markedCorrupt => "marked corrupt"

/-- The blocks of one section. Without indices, the first name of the palette
fills the section. -/
structure StoredSection where
  palette : Array String
  indices : Array UInt16
  deriving DecidableEq, Repr

def sectionCount : Nat := 16

/-- The place of a position inside a section: heights vary slowest and `x`
varies fastest. -/
def indexInSection (x y z : Nat) : Nat := (y * 16 + z) * 16 + x

namespace StoredSection

/-- The block at a position inside the section, or nothing where the section
has no index for it. A slot without a name reads as air. -/
def block? (s : StoredSection) (x y z : Nat) : Option String :=
  if s.indices.isEmpty then some (s.palette.getD 0 Block.air)
  else match s.indices[indexInSection x y z]? with
    | some slot => some (s.palette.getD slot.toNat Block.air)
    | none => none

end StoredSection

/-- The sections of a chunk from the bottom up; missing ones are air. -/
structure StoredChunk where
  sections : Array (Option StoredSection)
  deriving DecidableEq, Repr

namespace StoredChunk

def empty : StoredChunk := ⟨Array.replicate sectionCount none⟩

/-- The block at a position. Positions outside the chunk are air. -/
def block? (c : StoredChunk) (x y z : Nat) : Option String :=
  if chunkEdge ≤ x ∨ chunkEdge ≤ z ∨ worldHeight ≤ y then some Block.air
  else match c.sections[y / 16]? with
    | some (some s) => s.block? x (y % 16) z
    | some none => some Block.air
    | none => none

def blockId (c : StoredChunk) (x y z : Nat) : String := (c.block? x y z).getD Block.air

def view (c : StoredChunk) : ChunkView := ⟨c.blockId⟩

/-- Puts a section in its place, which it takes over from an earlier one. -/
def put (c : StoredChunk) (y : Nat) (s : StoredSection) : StoredChunk :=
  ⟨c.sections.setIfInBounds y (some s)⟩

/-- Adds a section of the record. Sections outside the kept heights, without a
palette, or with several names but no indices leave the chunk as it is. -/
def addSection (layout : PackedIndices.Layout) (c : StoredChunk) (s : Section) :
    Attempt PackedIndices.Shortage StoredChunk :=
  if s.y < 0 ∨ sectionCount ≤ s.y then .ok c
  else match s.palette with
    | none => .ok c
    | some palette =>
      let names := (palette.map Block.normalize).toArray
      if names.size = 1 then .ok (c.put s.y.toNat ⟨names, #[]⟩)
      else if names.size = 0 then .ok c
      else match s.states with
        | none => .ok c
        | some words =>
          match PackedIndices.unpack layout names.size words with
          | .ok indices => .ok (c.put s.y.toNat ⟨names, indices⟩)
          | .error halt => .error halt

/-- Worlds of this version and later use the padded layout. -/
def paddedSince : Int := 2529

def layoutOf (dataVersion : Int) : PackedIndices.Layout :=
  if dataVersion < paddedSince then .spanning else .padded

/-- Decodes the sections of a record in the order they stand in. -/
def ofRecord (r : Record) : Attempt PackedIndices.Shortage StoredChunk :=
  r.activeSections.foldlM (addSection (layoutOf r.dataVersion)) empty

/-- Decodes a chunk from its uncompressed tags with a reader for them. -/
def decode (read : List UInt8 → Attempt Nbt.Fault Record) (bytes : List UInt8) :
    Attempt DecodeError StoredChunk := do
  let record ← (read bytes).mapCause fun _ => .malformed
  (ofRecord record).mapCause .shortStates

def ofBytes (bytes : List UInt8) : Attempt DecodeError StoredChunk := decode Record.ofBytes bytes

end StoredChunk

end TerrainMap.Chunk
