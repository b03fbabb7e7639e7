import TerrainMap.Chunk.View

/-!
Chunks that are written block by block. Each column keeps the slots of its
blocks from the bottom up to the highest one written; everything above is air.
-/

namespace TerrainMap.Chunk

/-- A chunk under construction. Slots count into `names`, whose first entry is
air; they have 16 bits. -/
structure PaintedChunk where
  names : Array String
  columns : Array (Array UInt16)
  deriving DecidableEq, Repr

namespace PaintedChunk

def empty : PaintedChunk where
  names := #[Block.air]
  columns := Array.replicate (chunkEdge * chunkEdge) #[]

def columnIndex (x z : Nat) : Nat := z * chunkEdge + x

/-- The slot of a name, which is added at the end if it is new. -/
def slotFor (names : Array String) (name : String) : Array String × UInt16 :=
  match names.findIdx? (· == name) with
  | some i => (names, UInt16.ofNat i)
  | none => (names.push name, UInt16.ofNat names.size)

/-- Writes a slot into a column, which is filled up with air below it. -/
def writeSlot (column : Array UInt16) (y : Nat) (slot : UInt16) : Array UInt16 :=
  (column ++ Array.replicate (y + 1 - column.size) 0).setIfInBounds y slot

/-- Writes one block. Positions outside the chunk are ignored. -/
def setBlock (c : PaintedChunk) (x y z : Nat) (id : String) : PaintedChunk :=
  if chunkEdge ≤ x ∨ chunkEdge ≤ z ∨ worldHeight ≤ y then c
  else
    let (names, slot) := slotFor c.names (Block.normalize id)
    ⟨names, c.columns.modify (columnIndex x z) (writeSlot · y slot)⟩

/-- Writes one block at every height below `count`, from the bottom up. -/
def stackBlocks (c : PaintedChunk) (x z : Nat) (id : String) (count : Nat) : PaintedChunk :=
  count.fold (fun y _ c => c.setBlock x y z id) c

def fillColumn (c : PaintedChunk) (x z top : Nat) (id : String) : PaintedChunk :=
  c.stackBlocks x z id (min top (worldHeight - 1) + 1)

def columnPositions : List (Nat × Nat) :=
  (List.range chunkEdge).flatMap fun z => (List.range chunkEdge).map fun x => (x, z)

/-- Fills every column up to the height that `surface` gives for it with the
block that `surface` gives for it. -/
def ofSurface (surface : Nat → Nat → Nat × String) : PaintedChunk :=
  columnPositions.foldl
    (fun c (x, z) => c.fillColumn x z (surface x z).1 (surface x z).2) empty

/-- The block at a position, or nothing where a slot has no name. -/
def block? (c : PaintedChunk) (x y z : Nat) : Option String :=
  if chunkEdge ≤ x ∨ chunkEdge ≤ z then some Block.air
  else match c.columns[columnIndex x z]? with
    | none => none
    | some column =>
      match column[y]? with
      | none => some Block.air
      | some slot => c.names[slot.toNat]?

def blockId (c : PaintedChunk) (x y z : Nat) : String := (c.block? x y z).getD Block.air

def view (c : PaintedChunk) : ChunkView := ⟨c.blockId⟩

end PaintedChunk

end TerrainMap.Chunk
