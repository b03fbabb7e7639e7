import TerrainMap.Chunk.Record
import TerrainMap.Proofs.Nbt.Writing

/-!
Records of chunks written as binary tags, in the form that a world keeps them
in, and read back. A record can be written when its texts, lists and arrays are
not longer than tags can tell or a reader takes. A version of 0 is left out, as
the oldest worlds do.
-/

namespace TerrainMap.Chunk

open Nbt

def writeName (name : String) : List UInt8 :=
  writeEntry .string "Name" (writeText name) ++ endBytes

def writePalette (palette : List String) : List UInt8 := writeCompounds writeName palette

def writeSection (s : Section) : List UInt8 :=
  writeEntry .byte "Y" (writeInt 1 s.y) ++
    (writeOptional .list "Palette" writePalette s.palette ++
      (writeOptional .longArray "BlockStates" writeLongs s.states ++ endBytes))

def writeBlockStates (states : BlockStates) : List UInt8 :=
  writeEntry .list "palette" (writePalette states.palette) ++
    (writeOptional .longArray "data" writeLongs states.data ++ endBytes)

def writeFlatSection (s : FlatSection) : List UInt8 :=
  writeEntry .byte "Y" (writeInt 1 s.y) ++
    (writeOptional .compound "block_states" writeBlockStates s.blockStates ++ endBytes)

def writeLevel (sections : List Section) : List UInt8 :=
  writeEntry .list "Sections" (writeCompounds writeSection sections) ++ endBytes

/-- The version of a record, unless it is that of a record without one. -/
def Record.version? (r : Record) : Option Int :=
  if r.dataVersion = 0 then none else some r.dataVersion

def Record.toBytes (r : Record) : List UInt8 :=
  Tag.compound.toByte :: bigEndian 2 0 ++
    (writeOptional .int "DataVersion" (writeInt 4) r.version? ++
      (writeOptional .compound "Level" writeLevel r.level ++
        (writeEntry .list "sections" (writeCompounds writeFlatSection r.sections) ++ endBytes)))

/-! ### What can be written -/

/-- The most elements of a list that a reader takes are a hundred million. -/
structure PaletteFits (palette : List String) : Prop where
  length : palette.length ≤ 100000000
  name : ∀ name ∈ palette, (textBytes name).length < 65536

structure Section.Fits (s : Section) : Prop where
  low : -128 ≤ s.y
  high : s.y ≤ 127
  palette : ∀ palette, s.palette = some palette → PaletteFits palette
  states : ∀ words, s.states = some words → words.size < 2147483648

structure BlockStates.Fits (states : BlockStates) : Prop where
  palette : PaletteFits states.palette
  data : ∀ words, states.data = some words → words.size < 2147483648

structure FlatSection.Fits (s : FlatSection) : Prop where
  low : -128 ≤ s.y
  high : s.y ≤ 127
  blockStates : ∀ states, s.blockStates = some states → states.Fits

structure Record.Fits (r : Record) : Prop where
  low : -2147483648 ≤ r.dataVersion
  high : r.dataVersion ≤ 2147483647
  level : ∀ sections, r.level = some sections →
    sections.length ≤ 100000000 ∧ ∀ s ∈ sections, s.Fits
  length : r.sections.length ≤ 100000000
  sections : ∀ s ∈ r.sections, s.Fits

/-! ### Reading it back -/

open Record

/-- A compound of at most three entries is read with fuel for four steps. -/
theorem reads_compound {π : Type} {shape : Shape π} {bytes : List UInt8} {last : π} {fuel : Nat}
    (hfuel : 4 ≤ fuel) (h : ReadsEntries fuel shape 4 shape.start bytes last) :
    Reads (readCompound fuel shape) bytes last :=
  h fuel hfuel

section Reading

variable {fuel : Nat} (hfuel : 4 ≤ fuel)
include hfuel

theorem reads_name {name : String} (h : (textBytes name).length < 65536) :
    Reads (readName fuel .compound) (writeName name) name := by
  apply Reads.then (a := NameFields.mk (some name))
  · apply reads_compound hfuel
    apply ReadsEntries.field NameFields.name (fun p name => { p with name := some name })
      (by decide) rfl rfl (reads_string h)
    exact readsEntries_end fuel _ _ _
  · exact reads_pure name

theorem reads_palette {palette : List String} (h : PaletteFits palette) :
    Reads (readPalette fuel .list) (writePalette palette) palette := by
  apply reads_list h.length
  intro name hname
  exact reads_name hfuel (h.name name hname)

theorem reads_section {s : Section} (h : s.Fits) :
    Reads (readSection fuel .compound) (writeSection s) s := by
  apply Reads.then (a := SectionFields.mk (some s.y) s.palette s.states)
  · apply reads_compound hfuel
    apply ReadsEntries.field SectionFields.y (fun p y => { p with y := some y })
      (by decide) rfl rfl (reads_integer_byte h.low h.high)
    apply ReadsEntries.optional SectionFields.palette
      (fun p palette => { p with palette := some palette })
      (fun palette => ⟨some s.y, palette, none⟩) (by decide) rfl rfl rfl (fun _ => rfl)
    · intro palette hpalette
      exact reads_palette hfuel (h.palette palette hpalette)
    apply ReadsEntries.optional SectionFields.states
      (fun p states => { p with states := some states })
      (fun states => ⟨some s.y, s.palette, states⟩) (by decide) rfl rfl rfl (fun _ => rfl)
    · intro words hwords
      exact reads_longs (h.states words hwords)
    exact readsEntries_end fuel _ _ _
  · exact reads_pure s

theorem reads_blockStates {states : BlockStates} (h : states.Fits) :
    Reads (readBlockStates fuel .compound) (writeBlockStates states) states := by
  apply Reads.then (a := StatesFields.mk (some states.palette) states.data)
  · apply reads_compound hfuel
    apply ReadsEntries.field StatesFields.palette
      (fun p palette => { p with palette := some palette })
      (by decide) rfl rfl (reads_palette hfuel h.palette)
    apply ReadsEntries.optional StatesFields.data (fun p data => { p with data := some data })
      (fun data => ⟨some states.palette, data⟩) (by decide) rfl rfl rfl (fun _ => rfl)
    · intro words hwords
      exact reads_longs (h.data words hwords)
    exact readsEntries_end fuel _ _ _
  · exact reads_pure states

theorem reads_flatSection {s : FlatSection} (h : s.Fits) :
    Reads (readFlatSection fuel .compound) (writeFlatSection s) s := by
  apply Reads.then (a := FlatFields.mk (some s.y) s.blockStates)
  · apply reads_compound hfuel
    apply ReadsEntries.field FlatFields.y (fun p y => { p with y := some y })
      (by decide) rfl rfl (reads_integer_byte h.low h.high)
    apply ReadsEntries.optional FlatFields.blockStates
      (fun p states => { p with blockStates := some states })
      (fun states => ⟨some s.y, states⟩) (by decide) rfl rfl rfl (fun _ => rfl)
    · intro states hstates
      exact reads_blockStates hfuel (h.blockStates states hstates)
    exact readsEntries_end fuel _ _ _
  · exact reads_pure s

theorem reads_level {sections : List Section} (hlength : sections.length ≤ 100000000)
    (h : ∀ s ∈ sections, s.Fits) :
    Reads (readLevel fuel .compound) (writeLevel sections) sections := by
  apply Reads.then (a := LevelFields.mk (some sections))
  · apply reads_compound hfuel
    apply ReadsEntries.field LevelFields.sections
      (fun p sections => { p with sections := some sections }) (by decide) rfl rfl
    · apply reads_list hlength
      intro s hs
      exact reads_section hfuel (h s hs)
    exact readsEntries_end fuel _ _ _
  · exact reads_pure sections

theorem reads_document {r : Record} (h : r.Fits) :
    Reads (readDocument fuel (chunkShape fuel)) r.toBytes
      ⟨r.version?, r.level, some r.sections⟩ := by
  apply (reads_tag .compound).bind
  show Reads (nat 2 >>= fun length => drop length >>= fun _ =>
    readCompound fuel (chunkShape fuel)) _ _
  have hlength : Reads (nat 2) (bigEndian 2 0) 0 := reads_nat (by omega)
  apply hlength.bind
  apply reads_compound hfuel
  apply ReadsEntries.optional ChunkFields.dataVersion
    (fun p version => { p with dataVersion := some version })
    (fun version => ⟨version, none, none⟩) (by decide) rfl rfl rfl (fun _ => rfl)
  · intro version hversion
    have hsame : r.dataVersion = version := by
      simp only [Record.version?] at hversion
      split at hversion
      · cases hversion
      · exact Option.some_inj.mp hversion
    subst hsame
    exact reads_integer_int h.low h.high
  apply ReadsEntries.optional ChunkFields.level (fun p level => { p with level := some level })
    (fun level => ⟨r.version?, level, none⟩) (by decide) rfl rfl rfl (fun _ => rfl)
  · intro sections hsections
    obtain ⟨hlength, hfits⟩ := h.level sections hsections
    exact reads_level hfuel hlength hfits
  apply ReadsEntries.field ChunkFields.sections
    (fun p sections => { p with sections := some sections }) (by decide) rfl rfl
  · apply reads_list h.length
    intro s hs
    exact reads_flatSection hfuel (h.sections s hs)
  exact readsEntries_end fuel _ _ _

end Reading

/-- What was written of a record is read as this record. -/
theorem ofBytes_toBytes {r : Record} (h : r.Fits) : Record.ofBytes r.toBytes = .ok r := by
  have hfuel : 4 ≤ fuelFor r.toBytes := by
    simp only [fuelFor, Record.toBytes, List.length_cons, List.cons_append]
    omega
  have hread := reads_document hfuel h []
  rw [List.append_nil] at hread
  have hversion : r.version?.getD 0 = r.dataVersion := by
    simp only [Record.version?]
    split
    · rename_i hzero
      exact hzero.symm
    · rfl
  simp only [Record.ofBytes, hread]
  show Except.ok (Record.mk (r.version?.getD 0) r.level r.sections) = .ok r
  rw [hversion]

end TerrainMap.Chunk
