import TerrainMap.Chunk.Stored
import TerrainMap.Proofs.Chunk.Packing

/-!
What it means for a record to encode the names of a chunk, and that decoding
such a record gives the names back.

An encoding has many choices: the layout of the tags, the packing that the
version asks for, which sections there are and in which order, what stands in
their palettes and which slots point there. `Encodes` leaves all of them open.
Decoding goes through the sections one by one, and what it keeps up is that
every height without a section still to come reads as it should.
-/

namespace TerrainMap.Chunk

open PackedIndices

/-- The names of the blocks of a chunk, by `x`, `y` and `z`. -/
abbrev Names := Nat → Nat → Nat → String

/-- A palette, with or without packed indices, shows the names of a chunk in
its section number `k`. A single name needs no indices, and any that stand with
it count for nothing. Several names, which may repeat or stay unused, and of
which there are no more than a machine can count, come with indices of the
least width that tells them apart, each a slot of the name at its position.
Two spellings of a block count as one name. -/
inductive Shows (layout : Layout) (names : Names) (k : Nat) :
    List String → Option (Array UInt64) → Prop
  | single (name : String) (data : Option (Array UInt64))
      (hname : ∀ x y z, x < 16 → y < 16 → z < 16 →
        Block.normalize name = Block.normalize (names x (16 * k + y) z)) :
      Shows layout names k [name] data
  | several (palette : List String) (bits : Nat) (slots : List UInt16)
      (htwo : 2 ≤ palette.length) (hmachine : palette.length ≤ 2 ^ 63)
      (hbits : IsLeast {b | 4 ≤ b ∧ palette.length ≤ 2 ^ b} bits)
      (hlength : slots.length = 4096)
      (hslots : ∀ x y z, x < 16 → y < 16 → z < 16 →
        ∃ slot name, slots[(y * 16 + z) * 16 + x]? = some slot ∧
          palette[slot.toNat]? = some name ∧
          Block.normalize name = Block.normalize (names x (16 * k + y) z)) :
      Shows layout names k palette (some (pack layout bits slots))

/-- Sections show a whole chunk. Their order is free, sections outside the kept
heights are too, and where a section is left out there is air. -/
structure Covers {α : Type} (names : Names) (height : α → Int) (shows : α → Nat → Prop)
    (sections : List α) : Prop where
  shown : ∀ s ∈ sections, ∀ k : Nat, k < 16 → height s = k → shows s k
  air : ∀ k : Nat, k < 16 → (∀ s ∈ sections, height s ≠ k) →
    ∀ x y z, x < 16 → y < 16 → z < 16 → Block.normalize (names x (16 * k + y) z) = "air"

/-- A record encodes the names of a chunk, in the older layout or the flat one,
packed as its version asks for. A record without a version has version 0. -/
inductive Encodes (names : Names) : Record → Prop
  | older (version : Int) (layout : Layout) (sections : List Section) (ignored : List FlatSection)
      (hlayout : layout = if version < 2529 then Layout.spanning else Layout.padded)
      (hsections : Covers names Section.y
        (fun s k => ∃ palette, s.palette = some palette ∧ Shows layout names k palette s.states)
        sections) :
      Encodes names ⟨version, some sections, ignored⟩
  | flat (version : Int) (layout : Layout) (sections : List FlatSection)
      (hlayout : layout = if version < 2529 then Layout.spanning else Layout.padded)
      (hsections : Covers names FlatSection.y
        (fun s k => ∃ states, s.blockStates = some states ∧
          Shows layout names k states.palette states.data)
        sections) :
      Encodes names ⟨version, none, sections⟩

/-- A kept section, or the air where none is, reads as the names of the chunk
in section number `k`. -/
def ReadsAs (names : Names) (k : Nat) (entry : Option StoredSection) : Prop :=
  ∀ x y z, x < 16 → y < 16 → z < 16 →
    (match entry with
      | some s => s.block? x y z
      | none => some Block.air) = some (Block.normalize (names x (16 * k + y) z))

section Sections

variable {layout : Layout} {names : Names} {k : Nat}

/-- Every index of a section belongs to a position. -/
theorem exists_indexInSection {i : Nat} (hi : i < sectionVolume) :
    ∃ x y z, x < 16 ∧ y < 16 ∧ z < 16 ∧ indexInSection x y z = i := by
  simp only [indexInSection, sectionVolume] at hi ⊢
  exact ⟨i % 16, i / 256, i / 16 % 16, by omega, by omega, by omega, by omega⟩

theorem getD_normalized {palette : List String} {i : Nat} {name : String}
    (h : palette[i]? = some name) :
    (palette.map Block.normalize).toArray.getD i Block.air = Block.normalize name := by
  simp [Array.getD_eq_getD_getElem?, h]

theorem readsAs_single {name : String}
    (hname : ∀ x y z, x < 16 → y < 16 → z < 16 →
      Block.normalize name = Block.normalize (names x (16 * k + y) z)) :
    ReadsAs names k (some ⟨([name].map Block.normalize).toArray, #[]⟩) := by
  intro x y z hx hy hz
  show some (Block.normalize name) = _
  rw [hname x y z hx hy hz]

theorem readsAs_several {palette : List String} {slots : List UInt16}
    (hslots : ∀ x y z, x < 16 → y < 16 → z < 16 →
      ∃ slot name, slots[(y * 16 + z) * 16 + x]? = some slot ∧
        palette[slot.toNat]? = some name ∧
        Block.normalize name = Block.normalize (names x (16 * k + y) z)) :
    ReadsAs names k (some ⟨(palette.map Block.normalize).toArray, slots.toArray⟩) := by
  intro x y z hx hy hz
  obtain ⟨slot, name, hslot, hentry, hname⟩ := hslots x y z hx hy hz
  have hsome : slots.toArray.isEmpty = false := by
    rw [Array.isEmpty_eq_false_iff_exists_mem]
    exact ⟨slot, by simpa using List.mem_of_getElem? hslot⟩
  have hslot : slots.toArray[indexInSection x y z]? = some slot := by
    rw [List.getElem?_toArray]
    exact hslot
  simp only [StoredSection.block?, hsome, hslot, Bool.false_eq_true, if_false]
  rw [getD_normalized hentry, hname]

/-- A section that shows its part of the chunk is kept, and reads so. -/
theorem addSection_of_shows {s : Section} {palette : List String} (hk : k < 16)
    (hy : s.y = (k : Int)) (hpalette : s.palette = some palette)
    (hshows : Shows layout names k palette s.states) (c : StoredChunk) :
    ∃ stored, StoredChunk.addSection layout c s = .ok (c.put k stored) ∧
      ReadsAs names k (some stored) := by
  have hkept : ¬ (s.y < 0 ∨ (sectionCount : Int) ≤ s.y) := by
    rw [hy, sectionCount]
    omega
  have hplace : s.y.toNat = k := by
    rw [hy]
    exact Int.toNat_natCast k
  generalize hstates : s.states = states at hshows
  cases hshows with
  | single name data hname =>
      refine ⟨_, ?_, readsAs_single hname⟩
      simp [StoredChunk.addSection, hkept, hpalette, hplace]
  | several _ bits slots htwo hmachine hbits hlength hslots =>
      have hwidth := bitsPerIndex_isLeast palette.length
      obtain rfl : bits = bitsPerIndex palette.length :=
        Nat.le_antisymm (hbits.2 hwidth.1) (hwidth.2 hbits.1)
      -- every slot belongs to a position, so it has a name and is below their number
      have hroom : ∀ slot ∈ slots, slot.toNat < 2 ^ bitsPerIndex palette.length := by
        intro slot hslot
        obtain ⟨i, hi, rfl⟩ := List.getElem_of_mem hslot
        obtain ⟨x, y, z, hx, hy, hz, rfl⟩ := exists_indexInSection (hlength ▸ hi)
        obtain ⟨slot, name, hslot, hentry, -⟩ := hslots x y z hx hy hz
        rw [← indexInSection, List.getElem?_eq_getElem hi, Option.some_inj] at hslot
        rw [hslot]
        have hlt : slot.toNat < palette.length := (List.getElem?_eq_some_iff.mp hentry).1
        exact Nat.lt_of_lt_of_le hlt (le_two_pow_bitsPerIndex _)
      have hunpack : unpack layout palette.length
          (pack layout (bitsPerIndex palette.length) slots ++ #[]) = .ok slots.toArray :=
        unpack_pack hmachine hlength hroom #[]
      rw [Array.append_empty] at hunpack
      have hone : palette.length ≠ 1 := by omega
      have hnone : palette.length ≠ 0 := by omega
      refine ⟨_, ?_, readsAs_several hslots⟩
      simp [StoredChunk.addSection, hkept, hpalette, hplace, hone, hnone, hstates, hunpack]

theorem addSection_of_outside {s : Section} (hs : ∀ k : Nat, k < 16 → s.y ≠ k)
    (c : StoredChunk) : StoredChunk.addSection layout c s = .ok c := by
  have hout : s.y < 0 ∨ (sectionCount : Int) ≤ s.y := by
    rw [sectionCount]
    by_cases hy : s.y < 0
    · exact Or.inl hy
    · refine Or.inr ?_
      have hne := hs s.y.toNat
      omega
  simp only [StoredChunk.addSection, if_pos hout]

end Sections

section Decoding

variable {layout : Layout} {names : Names}

/-- The chunk reads as it should at every height at which no section is still
to come. -/
structure Settled (names : Names) (rest : List Section) (c : StoredChunk) : Prop where
  size : c.sections.size = sectionCount
  reads : ∀ k : Nat, k < 16 → (∀ s ∈ rest, s.y ≠ k) →
    ∃ entry, c.sections[k]? = some entry ∧ ReadsAs names k entry

theorem settled_empty {sections : List Section} {shows : Section → Nat → Prop}
    (h : Covers names Section.y shows sections) : Settled names sections StoredChunk.empty := by
  refine ⟨by simp [StoredChunk.empty], ?_⟩
  intro k hk hnone
  refine ⟨none, by simp [StoredChunk.empty, sectionCount, hk], ?_⟩
  intro x y z hx hy hz
  rw [h.air k hk hnone x y z hx hy hz]
  rfl

/-- One section: whatever it does to the chunk, the heights of the sections
behind it are all that is left open. -/
theorem Settled.addSection {s : Section} {rest : List Section} {c : StoredChunk}
    (hc : Settled names (s :: rest) c)
    (hs : ∀ k : Nat, k < 16 → s.y = k →
      ∃ palette, s.palette = some palette ∧ Shows layout names k palette s.states) :
    ∃ c', StoredChunk.addSection layout c s = .ok c' ∧ Settled names rest c' := by
  by_cases hinside : ∃ k : Nat, k < 16 ∧ s.y = k
  · obtain ⟨place, hplace, hy⟩ := hinside
    obtain ⟨palette, hpalette, hshows⟩ := hs place hplace hy
    obtain ⟨stored, hadd, hreads⟩ := addSection_of_shows hplace hy hpalette hshows c
    refine ⟨c.put place stored, hadd, by simp [StoredChunk.put, hc.size], ?_⟩
    intro k hk hnone
    -- the section fills its own height and leaves the other ones as they were
    by_cases hhere : k = place
    · subst hhere
      have hbound : k < c.sections.size := by
        rw [hc.size]
        exact hk
      exact ⟨some stored, by simp [StoredChunk.put, hbound], hreads⟩
    · obtain ⟨entry, hentry, hread⟩ := hc.reads k hk (by
        intro other hother
        rcases List.mem_cons.mp hother with rfl | hother
        · omega
        · exact hnone other hother)
      refine ⟨entry, ?_, hread⟩
      rw [StoredChunk.put, Array.getElem?_setIfInBounds_ne (fun h => hhere h.symm), hentry]
  · have hout : ∀ k : Nat, k < 16 → s.y ≠ k := by
      intro k hk hy
      exact hinside ⟨k, hk, hy⟩
    refine ⟨c, addSection_of_outside hout c, hc.size, ?_⟩
    intro k hk hnone
    apply hc.reads k hk
    intro other hother
    rcases List.mem_cons.mp hother with rfl | hother
    · exact hout k hk
    · exact hnone other hother

theorem Settled.foldlM_addSection {sections : List Section} {c : StoredChunk}
    (hc : Settled names sections c)
    (hs : ∀ s ∈ sections, ∀ k : Nat, k < 16 → s.y = k →
      ∃ palette, s.palette = some palette ∧ Shows layout names k palette s.states) :
    ∃ c', sections.foldlM (StoredChunk.addSection layout) c = .ok c' ∧ Settled names [] c' := by
  induction sections generalizing c with
  | nil => exact ⟨c, rfl, hc⟩
  | cons s rest ih =>
      obtain ⟨next, hadd, hnext⟩ := hc.addSection (hs s List.mem_cons_self)
      obtain ⟨last, hlast, hsettled⟩ := ih hnext (by
        intro other hother
        exact hs other (List.mem_cons_of_mem s hother))
      refine ⟨last, ?_, hsettled⟩
      rw [List.foldlM_cons, hadd]
      exact hlast

theorem Settled.block?_eq {c : StoredChunk} (hc : Settled names [] c) {x y z : Nat}
    (hx : x < 16) (hy : y < 256) (hz : z < 16) :
    c.block? x y z = some (Block.normalize (names x y z)) := by
  have hinside : ¬ (chunkEdge ≤ x ∨ chunkEdge ≤ z ∨ worldHeight ≤ y) := by
    simp only [chunkEdge, worldHeight]
    omega
  obtain ⟨entry, hentry, hread⟩ := hc.reads (y / 16) (by omega) (by simp)
  have hhere := hread x (y % 16) z hx (Nat.mod_lt y (by omega)) hz
  rw [Nat.div_add_mod] at hhere
  rw [StoredChunk.block?, if_neg hinside, hentry]
  cases entry with
  | none => exact hhere
  | some s => exact hhere

/-- Sections of the flat layout show in the common form what they show in
their own. -/
theorem Covers.toSection {sections : List FlatSection}
    (h : Covers names FlatSection.y
      (fun s k => ∃ states, s.blockStates = some states ∧
        Shows layout names k states.palette states.data) sections) :
    Covers names Section.y
      (fun s k => ∃ palette, s.palette = some palette ∧ Shows layout names k palette s.states)
      (sections.map FlatSection.toSection) := by
  refine ⟨?_, ?_⟩
  · intro s hs k hk hy
    obtain ⟨flat, hflat, rfl⟩ := List.mem_map.mp hs
    obtain ⟨states, hstates, hshows⟩ := h.shown flat hflat k hk hy
    refine ⟨states.palette, by simp [FlatSection.toSection, hstates], ?_⟩
    simpa [FlatSection.toSection, hstates] using hshows
  · intro k hk hnone
    apply h.air k hk
    intro flat hflat
    exact hnone flat.toSection (List.mem_map_of_mem hflat)

/-- A record that encodes the names of a chunk decodes to a chunk of these
names. -/
theorem Encodes.ofRecord {r : Record} (h : Encodes names r) :
    ∃ c, StoredChunk.ofRecord r = .ok c ∧ Settled names [] c := by
  cases h with
  | older version layout sections ignored hlayout hsections =>
      subst hlayout
      exact (settled_empty hsections).foldlM_addSection hsections.shown
  | flat version layout sections hlayout hsections =>
      subst hlayout
      have hcommon := hsections.toSection
      exact (settled_empty hcommon).foldlM_addSection hcommon.shown

end Decoding

end TerrainMap.Chunk
