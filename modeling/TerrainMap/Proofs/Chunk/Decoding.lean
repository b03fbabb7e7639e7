import TerrainMap.Proofs.Chunk.Encoding
import TerrainMap.Proofs.Chunk.Written

/-!
Decoding chunks from their bytes. Whatever encoding of the names of a chunk the
bytes hold, decoding succeeds and reads these names at all positions, in their
short form. Encodings of the same names cannot be told apart by what they
decode to.
-/

namespace TerrainMap.Chunk

open PackedIndices

/-- The bytes hold an encoding of the names of a chunk. -/
def Holds (names : Names) (bytes : List UInt8) : Prop :=
  ∃ r, Record.ofBytes bytes = .ok r ∧ Encodes names r

theorem holds_toBytes {names : Names} {r : Record} (h : Encodes names r) (hfits : r.Fits) :
    Holds names r.toBytes :=
  ⟨r, ofBytes_toBytes hfits, h⟩

theorem Holds.settled {names : Names} {bytes : List UInt8} (h : Holds names bytes) :
    ∃ c, StoredChunk.ofBytes bytes = .ok c ∧ Settled names [] c := by
  obtain ⟨r, hread, hencodes⟩ := h
  obtain ⟨c, hdecode, hsettled⟩ := hencodes.ofRecord
  refine ⟨c, ?_, hsettled⟩
  rw [StoredChunk.ofBytes, StoredChunk.decode, hread]
  show (StoredChunk.ofRecord r).mapCause DecodeError.shortStates = .ok c
  rw [hdecode]
  rfl

/-- Chunks that were decoded from encodings of the same names read alike, at
positions outside the chunk too. -/
theorem Settled.blockId_eq {names : Names} {c c' : StoredChunk} (hc : Settled names [] c)
    (hc' : Settled names [] c') (x y z : Nat) : c.blockId x y z = c'.blockId x y z := by
  by_cases hinside : x < 16 ∧ y < 256 ∧ z < 16
  · obtain ⟨hx, hy, hz⟩ := hinside
    rw [StoredChunk.blockId, StoredChunk.blockId, hc.block?_eq hx hy hz, hc'.block?_eq hx hy hz]
  · have hout : chunkEdge ≤ x ∨ chunkEdge ≤ z ∨ worldHeight ≤ y := by
      simp only [chunkEdge, worldHeight]
      omega
    rw [StoredChunk.blockId, StoredChunk.blockId, StoredChunk.block?, StoredChunk.block?,
      if_pos hout, if_pos hout]

/-- **Decoding undoes encoding.** Records that encode the names of a chunk can
be written into bytes that hold them. Bytes that hold the names, whoever wrote
them, decode to a chunk that has at every position the short form of its name;
and no two such bytes decode to chunks that read differently anywhere. -/
theorem decoding_undoes_encoding (names : Names) :
    (∀ r : Record, Encodes names r → r.Fits → Holds names r.toBytes) ∧
    (∀ bytes, Holds names bytes → ∃ c, StoredChunk.ofBytes bytes = .ok c ∧
      ∀ x y z, x < 16 → y < 256 → z < 16 →
        c.block? x y z = some (Block.normalize (names x y z))) ∧
    ∀ bytes bytes', Holds names bytes → Holds names bytes' →
      ∃ c c', StoredChunk.ofBytes bytes = .ok c ∧ StoredChunk.ofBytes bytes' = .ok c' ∧
        ∀ x y z, c.blockId x y z = c'.blockId x y z := by
  refine ⟨fun r => holds_toBytes, ?_, ?_⟩
  · intro bytes h
    obtain ⟨c, hdecode, hsettled⟩ := h.settled
    exact ⟨c, hdecode, fun x y z hx hy hz => hsettled.block?_eq hx hy hz⟩
  · intro bytes bytes' h h'
    obtain ⟨c, hdecode, hsettled⟩ := h.settled
    obtain ⟨c', hdecode', hsettled'⟩ := h'.settled
    exact ⟨c, c', hdecode, hdecode', hsettled.blockId_eq hsettled'⟩

/-! ### Two encodings of one chunk -/

/-- Bedrock at the bottom, and stripes of stone above it. -/
def stripes : Names := fun x y _ =>
  if y < 16 then "minecraft:bedrock"
  else if y < 32 ∧ x % 2 = 0 then "minecraft:stone" else "air"

def stripedSlots (first second : UInt16) : List UInt16 :=
  (List.range 4096).map fun i => if i % 2 = 0 then first else second

/-- The stripes in the older layout, with a section below the kept heights. -/
def olderStripes : Record where
  dataVersion := 2230
  level := some
    [⟨1, some ["air", "minecraft:stone"], some (pack .spanning 4 (stripedSlots 1 0))⟩,
      ⟨-4, none, some #[7]⟩, ⟨0, some ["bedrock"], some #[]⟩]
  sections := []

/-- The stripes in the flat layout, with a name that no block has. -/
def flatStripes : Record where
  dataVersion := 3465
  level := none
  sections :=
    [⟨0, some ⟨["minecraft:bedrock"], none⟩⟩,
      ⟨1, some ⟨["stone", "oak_log", "minecraft:air"],
        some (pack .padded 4 (stripedSlots 0 2))⟩⟩]

theorem stripedSlots_getElem? (first second : UInt16) {x y z : Nat} (hx : x < 16) (hy : y < 16)
    (hz : z < 16) :
    (stripedSlots first second)[(y * 16 + z) * 16 + x]? =
      some (if x % 2 = 0 then first else second) := by
  have hlt : (y * 16 + z) * 16 + x < 4096 := by omega
  have hmod : ((y * 16 + z) * 16 + x) % 2 = x % 2 := by omega
  simp [stripedSlots, hlt, hmod]

theorem isLeast_four {names : Nat} (h : names ≤ 16) : IsLeast {b | 4 ≤ b ∧ names ≤ 2 ^ b} 4 :=
  ⟨⟨by omega, by omega⟩, fun _ hb => hb.1⟩

/-- Stripes are shown by any palette whose slots `first` and `second` name
stone and air. -/
theorem shows_stripes {layout : Layout} {palette : List String} {first second : UInt16}
    {stone air : String} (htwo : 2 ≤ palette.length) (hmost : palette.length ≤ 16)
    (hfirst : palette[first.toNat]? = some stone) (hsecond : palette[second.toNat]? = some air)
    (hstone : Block.normalize stone = "stone") (hair : Block.normalize air = "air") :
    Shows layout stripes 1 palette (some (pack layout 4 (stripedSlots first second))) := by
  apply Shows.several palette 4 _ htwo (by omega) (isLeast_four hmost) (by simp [stripedSlots])
  intro x y z hx hy hz
  have hlow : ¬ 16 * 1 + y < 16 := by omega
  have hhigh : 16 * 1 + y < 32 := by omega
  have hslot := stripedSlots_getElem? first second hx hy hz
  by_cases heven : x % 2 = 0
  · rw [if_pos heven] at hslot
    refine ⟨first, stone, hslot, hfirst, ?_⟩
    rw [stripes, if_neg hlow, if_pos ⟨hhigh, heven⟩, hstone]
    decide
  · rw [if_neg heven] at hslot
    refine ⟨second, air, hslot, hsecond, ?_⟩
    rw [stripes, if_neg hlow, if_neg (fun h => heven h.2), hair]
    decide

theorem shows_bedrock {layout : Layout} {name : String} {data : Option (Array UInt64)}
    (hname : Block.normalize name = "bedrock") : Shows layout stripes 0 [name] data := by
  apply Shows.single name data
  intro x y z _ hy _
  have hlow : 16 * 0 + y < 16 := by omega
  rw [stripes, if_pos hlow, hname]
  decide

theorem stripes_above {x y z k : Nat} (hk : 2 ≤ k) :
    Block.normalize (stripes x (16 * k + y) z) = "air" := by
  have hlow : ¬ 16 * k + y < 16 := by omega
  have hhigh : ¬ 16 * k + y < 32 := by omega
  rw [stripes, if_neg hlow, if_neg (fun h => hhigh h.1)]
  decide

theorem encodes_olderStripes : Encodes stripes olderStripes := by
  apply Encodes.older 2230 .spanning _ _ (by decide)
  refine ⟨?_, ?_⟩
  · intro s hs k hk hy
    simp only [List.mem_cons, List.not_mem_nil, or_false] at hs
    rcases hs with rfl | rfl | rfl
    · obtain rfl : k = 1 := by
        have hheight : (1 : Int) = k := hy
        omega
      exact ⟨_, rfl, shows_stripes (by decide) (by decide) rfl rfl (by decide) (by decide)⟩
    · simp only at hy
      omega
    · obtain rfl : k = 0 := by
        have hheight : (0 : Int) = k := hy
        omega
      exact ⟨_, rfl, shows_bedrock (by decide)⟩
  · intro k hk hnone x y z _ _ _
    have hzero : k ≠ 0 := by
      rintro rfl
      exact hnone ⟨0, some ["bedrock"], some #[]⟩ (by simp) rfl
    have hone : k ≠ 1 := by
      rintro rfl
      exact hnone _ List.mem_cons_self rfl
    exact stripes_above (by omega)

theorem encodes_flatStripes : Encodes stripes flatStripes := by
  apply Encodes.flat 3465 .padded _ (by decide)
  refine ⟨?_, ?_⟩
  · intro s hs k hk hy
    simp only [List.mem_cons, List.not_mem_nil, or_false] at hs
    rcases hs with rfl | rfl
    · obtain rfl : k = 0 := by
        have hheight : (0 : Int) = k := hy
        omega
      exact ⟨_, rfl, shows_bedrock (by decide)⟩
    · obtain rfl : k = 1 := by
        have hheight : (1 : Int) = k := hy
        omega
      exact ⟨_, rfl, shows_stripes (by decide) (by decide) rfl rfl (by decide) (by decide)⟩
  · intro k hk hnone x y z _ _ _
    have hzero : k ≠ 0 := by
      rintro rfl
      exact hnone _ List.mem_cons_self rfl
    have hone : k ≠ 1 := by
      rintro rfl
      exact hnone _ (List.mem_cons_of_mem _ List.mem_cons_self) rfl
    exact stripes_above (by omega)

theorem olderStripes_fits : olderStripes.Fits := by
  refine ⟨by decide, by decide, ?_, by decide, by simp [olderStripes]⟩
  intro sections hsections
  obtain rfl := Option.some_inj.mp hsections
  refine ⟨by decide, ?_⟩
  intro s hs
  simp only [List.mem_cons, List.not_mem_nil, or_false] at hs
  rcases hs with rfl | rfl | rfl
  · refine ⟨by decide, by decide, ?_, ?_⟩
    · rintro palette ⟨⟩
      exact ⟨by decide, by decide⟩
    · intro words hwords
      obtain rfl := Option.some_inj.mp hwords
      rw [size_pack]
      simp [wordCount, stripedSlots]
  · refine ⟨by decide, by decide, by simp, ?_⟩
    rintro words ⟨⟩
    decide
  · refine ⟨by decide, by decide, ?_, ?_⟩
    · rintro palette ⟨⟩
      exact ⟨by decide, by decide⟩
    · rintro words ⟨⟩
      decide

theorem flatStripes_fits : flatStripes.Fits := by
  refine ⟨by decide, by decide, by simp [flatStripes], by decide, ?_⟩
  intro s hs
  simp only [flatStripes, List.mem_cons, List.not_mem_nil, or_false] at hs
  rcases hs with rfl | rfl
  · refine ⟨by decide, by decide, ?_⟩
    rintro states ⟨⟩
    exact ⟨⟨by decide, by decide⟩, by simp⟩
  · refine ⟨by decide, by decide, ?_⟩
    intro states hstates
    obtain rfl := Option.some_inj.mp hstates
    refine ⟨⟨by decide, by decide⟩, ?_⟩
    intro words hwords
    obtain rfl := Option.some_inj.mp hwords
    rw [size_pack]
    simp [wordCount, stripedSlots, perWord]

/-- Written in either layout, the stripes are read. -/
theorem stripes_read :
    (∃ c, StoredChunk.ofBytes olderStripes.toBytes = .ok c ∧ c.block? 4 16 7 = some "stone") ∧
    ∃ c c', StoredChunk.ofBytes olderStripes.toBytes = .ok c ∧
      StoredChunk.ofBytes flatStripes.toBytes = .ok c' ∧
      ∀ x y z, c.blockId x y z = c'.blockId x y z := by
  obtain ⟨hwrite, hread, hsame⟩ := decoding_undoes_encoding stripes
  have holder := hwrite olderStripes encodes_olderStripes olderStripes_fits
  have hflat := hwrite flatStripes encodes_flatStripes flatStripes_fits
  obtain ⟨c, hdecode, hblock⟩ := hread _ holder
  refine ⟨⟨c, hdecode, ?_⟩, hsame _ _ holder hflat⟩
  rw [hblock 4 16 7 (by omega) (by omega) (by omega)]
  decide

end TerrainMap.Chunk
