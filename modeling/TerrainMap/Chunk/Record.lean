import TerrainMap.Nbt.Record

/-!
The part of a chunk's tags that maps are made from. Worlds keep the sections
of a chunk in one of two layouts: the older one under `Level`, where a section
holds its palette and its packed indices itself, and the flat one, where both
stand in a record of their own.
-/

namespace TerrainMap.Chunk

open Nbt

/-- A section of the older layout, which also serves as the common form of
both: its height, the names of its palette, and its packed indices. -/
structure Section where
  y : Int
  palette : Option (List String)
  states : Option (Array UInt64)
  deriving DecidableEq, Repr

structure BlockStates where
  palette : List String
  data : Option (Array UInt64)
  deriving DecidableEq, Repr

structure FlatSection where
  y : Int
  blockStates : Option BlockStates
  deriving DecidableEq, Repr

def FlatSection.toSection (s : FlatSection) : Section where
  y := s.y
  palette := s.blockStates.map (·.palette)
  states := s.blockStates.bind (·.data)

/-- A chunk as its tags give it. `level` holds the sections of the older
layout if there is a `Level` at all. -/
structure Record where
  dataVersion : Int
  level : Option (List Section)
  sections : List FlatSection
  deriving DecidableEq, Repr

namespace Record

/-- The sections that count: a `Level` decides alone, even without any. -/
def activeSections (r : Record) : List Section :=
  match r.level with
  | some sections => sections
  | none => r.sections.map FlatSection.toSection

/-! What has been read of each record so far. -/

structure NameFields where
  name : Option String := none

structure SectionFields where
  y : Option Int := none
  palette : Option (List String) := none
  states : Option (Array UInt64) := none

structure StatesFields where
  palette : Option (List String) := none
  data : Option (Array UInt64) := none

structure FlatFields where
  y : Option Int := none
  blockStates : Option BlockStates := none

structure LevelFields where
  sections : Option (List Section) := none

structure ChunkFields where
  dataVersion : Option Int := none
  level : Option (List Section) := none
  sections : Option (List FlatSection) := none

/-- An entry of a palette: a record that names a block. -/
def readName (fuel : Nat) (kind : Tag) : Reader String := do
  let fields ← readRecord fuel
    ⟨{}, [field "Name" NameFields.name (fun p name => { p with name := some name })
      readString]⟩ kind
  required fields.name

def readPalette (fuel : Nat) : Tag → Reader (List String) := readList (readName fuel)

/-- The height of a section is a signed byte, in whatever width it is written. -/
def readHeight : Tag → Reader Int := readInteger (-128) 127

def readSection (fuel : Nat) (kind : Tag) : Reader Section := do
  let fields ← readRecord fuel
    ⟨{}, [field "Y" SectionFields.y (fun p y => { p with y := some y }) readHeight,
      field "Palette" SectionFields.palette
        (fun p palette => { p with palette := some palette }) (readPalette fuel),
      field "BlockStates" SectionFields.states
        (fun p states => { p with states := some states }) readLongs]⟩ kind
  return ⟨← required fields.y, fields.palette, fields.states⟩

def readBlockStates (fuel : Nat) (kind : Tag) : Reader BlockStates := do
  let fields ← readRecord fuel
    ⟨{}, [field "palette" StatesFields.palette
        (fun p palette => { p with palette := some palette }) (readPalette fuel),
      field "data" StatesFields.data (fun p data => { p with data := some data })
        readLongs]⟩ kind
  return ⟨← required fields.palette, fields.data⟩

def readFlatSection (fuel : Nat) (kind : Tag) : Reader FlatSection := do
  let fields ← readRecord fuel
    ⟨{}, [field "Y" FlatFields.y (fun p y => { p with y := some y }) readHeight,
      field "block_states" FlatFields.blockStates
        (fun p states => { p with blockStates := some states }) (readBlockStates fuel)]⟩ kind
  return ⟨← required fields.y, fields.blockStates⟩

def readLevel (fuel : Nat) (kind : Tag) : Reader (List Section) := do
  let fields ← readRecord fuel
    ⟨{}, [field "Sections" LevelFields.sections
      (fun p sections => { p with sections := some sections })
      (readList (readSection fuel))]⟩ kind
  return fields.sections.getD []

/-- The fields of a chunk. A missing version counts as the oldest one. -/
def chunkShape (fuel : Nat) : Shape ChunkFields :=
  ⟨{}, [field "DataVersion" ChunkFields.dataVersion
      (fun p version => { p with dataVersion := some version })
      (readInteger (-2147483648) 2147483647),
    field "Level" ChunkFields.level (fun p level => { p with level := some level })
      (readLevel fuel),
    field "sections" ChunkFields.sections
      (fun p sections => { p with sections := some sections })
      (readList (readFlatSection fuel))]⟩

/-- Reads a chunk from its uncompressed tags. -/
def ofBytes (bytes : List UInt8) : Attempt Fault Record := do
  let fuel := fuelFor bytes
  let (fields, _) ← readDocument fuel (chunkShape fuel) bytes
  return ⟨fields.dataVersion.getD 0, fields.level, fields.sections.getD []⟩

end Record

end TerrainMap.Chunk
