import TerrainMap.Chunk.Record
import TerrainMap.Proofs.Nbt.Reading

/-!
The palettes of chunks that were read. However a chunk is written, each of its
palettes was a list, and so has no more names than a list may claim.
-/

namespace TerrainMap.Chunk

open Nbt

/-- The names of a section, none if it has no palette. -/
def Section.names (s : Section) : List String := s.palette.getD []

def maxNames : Nat := 100000000

namespace Record

theorem gives_palette (fuel : Nat) (kind : Tag) :
    Gives (readPalette fuel kind) fun palette => palette.length ≤ maxNames :=
  (gives_list (p := fun _ => True) (fun _ _ _ _ _ => trivial) kind).imp fun _ h => h.1

theorem gives_section (fuel : Nat) (kind : Tag) :
    Gives (readSection fuel kind) fun s => s.names.length ≤ maxNames := by
  let inv (fields : SectionFields) : Prop := (fields.palette.getD []).length ≤ maxNames
  have hstart : inv {} := Nat.zero_le _
  refine Gives.bind (p := inv) (Keeps.record ⟨hstart, ?_⟩ fuel kind) ?_
  · intro entry hentry soFar kind hsoFar
    simp only [List.mem_cons, List.not_mem_nil, or_false] at hentry
    rcases hentry with rfl | rfl | rfl
    · exact gives_otherField (fun _ => hsoFar) kind
    · exact gives_field (gives_palette fuel) (fun _ h => h) kind
    · exact gives_otherField (fun _ => hsoFar) kind
  · intro fields hfields
    exact gives_then fun y => gives_pure hfields

theorem gives_blockStates (fuel : Nat) (kind : Tag) :
    Gives (readBlockStates fuel kind) fun states => states.palette.length ≤ maxNames := by
  let inv (fields : StatesFields) : Prop :=
    ∀ palette, fields.palette = some palette → palette.length ≤ maxNames
  refine Gives.bind (p := inv) (Keeps.record ⟨by rintro palette ⟨⟩, ?_⟩ fuel kind) ?_
  · intro entry hentry soFar kind hsoFar
    simp only [List.mem_cons, List.not_mem_nil, or_false] at hentry
    rcases hentry with rfl | rfl
    · refine gives_field (gives_palette fuel) ?_ kind
      rintro palette h _ ⟨⟩
      exact h
    · exact gives_otherField (fun _ => hsoFar) kind
  · intro fields hfields
    exact (gives_required hfields).bind fun palette h => gives_pure h

theorem gives_flatSection (fuel : Nat) (kind : Tag) :
    Gives (readFlatSection fuel kind) fun s => s.toSection.names.length ≤ maxNames := by
  let inv (fields : FlatFields) : Prop :=
    ∀ states, fields.blockStates = some states → states.palette.length ≤ maxNames
  refine Gives.bind (p := inv) (Keeps.record ⟨by rintro states ⟨⟩, ?_⟩ fuel kind) ?_
  · intro entry hentry soFar kind hsoFar
    simp only [List.mem_cons, List.not_mem_nil, or_false] at hentry
    rcases hentry with rfl | rfl
    · exact gives_otherField (fun _ => hsoFar) kind
    · refine gives_field (gives_blockStates fuel) ?_ kind
      rintro states h _ ⟨⟩
      exact h
  · intro fields hfields
    refine gives_then fun y => gives_pure ?_
    cases hstates : fields.blockStates with
    | none => exact Nat.zero_le _
    | some states => exact hfields states hstates

theorem gives_level (fuel : Nat) (kind : Tag) :
    Gives (readLevel fuel kind) fun sections => ∀ s ∈ sections, s.names.length ≤ maxNames := by
  let inv (fields : LevelFields) : Prop :=
    ∀ s ∈ fields.sections.getD [], s.names.length ≤ maxNames
  refine Gives.bind (p := inv) (Keeps.record ⟨by rintro s ⟨⟩, ?_⟩ fuel kind) ?_
  · intro entry hentry soFar kind hsoFar
    simp only [List.mem_cons, List.not_mem_nil, or_false] at hentry
    subst hentry
    exact gives_field (gives_list (gives_section fuel)) (fun _ h => h.2) kind
  · intro fields hfields
    exact gives_pure hfields

/-- What is known of the sections of a chunk while its fields are read. -/
structure Modest (fields : ChunkFields) : Prop where
  level : ∀ sections, fields.level = some sections → ∀ s ∈ sections, s.names.length ≤ maxNames
  sections : ∀ s ∈ fields.sections.getD [], s.toSection.names.length ≤ maxNames

theorem keeps_chunkShape (fuel : Nat) : Keeps (chunkShape fuel) Modest := by
  refine ⟨⟨by rintro sections ⟨⟩, by rintro s ⟨⟩⟩, ?_⟩
  intro entry hentry soFar kind hsoFar
  simp only [chunkShape, List.mem_cons, List.not_mem_nil, or_false] at hentry
  rcases hentry with rfl | rfl | rfl
  · exact gives_otherField (fun _ => ⟨hsoFar.level, hsoFar.sections⟩) kind
  · refine gives_field (gives_level fuel) ?_ kind
    intro sections h
    refine ⟨?_, hsoFar.sections⟩
    rintro _ ⟨⟩
    exact h
  · exact gives_field (gives_list (gives_flatSection fuel)) (fun _ h => ⟨hsoFar.level, h.2⟩) kind

/-- A chunk that was read has no palette beyond all bounds. -/
theorem names_le_of_ofBytes {bytes : List UInt8} {r : Record} (h : ofBytes bytes = .ok r)
    {s : Section} (hs : s ∈ r.activeSections) : s.names.length ≤ maxNames := by
  unfold ofBytes at h
  cases hread : readDocument (fuelFor bytes) (chunkShape (fuelFor bytes)) bytes with
  | error halt =>
      simp only [hread] at h
      cases h
  | ok found =>
      simp only [hread] at h
      cases h
      obtain ⟨hlevel, hsections⟩ :=
        (keeps_chunkShape (fuelFor bytes)).document (fuelFor bytes) bytes found.1 found.2 hread
      simp only [activeSections] at hs
      split at hs
      · next sections hsome => exact hlevel sections hsome s hs
      · obtain ⟨flat, hflat, rfl⟩ := List.mem_map.mp hs
        exact hsections flat hflat

end Record

end TerrainMap.Chunk
