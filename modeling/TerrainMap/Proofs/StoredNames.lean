import TerrainMap.Proofs.Block
import TerrainMap.Proofs.Chunk.LastWrite
import TerrainMap.Proofs.Chunk.Meaning
import TerrainMap.Proofs.Palette
import TerrainMap.Row

/-!
Names of blocks as they are written and as chunks keep them. A chunk keeps the
short form of a name, however it came by the block, and scans and palettes
shorten a name once more when they judge it. The second shortening changes
nothing unless the namespace was written twice; such a name is judged one way
before it is written to a chunk and another way after.
-/

namespace TerrainMap

namespace Chunk

open PaintedChunk PackedIndices

/-- The block at a position of a chunk was written as `name`: it was the last one
written there to a chunk under construction that has few enough names, or the
section that decides about the position points to it in the bytes of a chunk. -/
inductive WrittenAs (x y z : Nat) (name : String) : ChunkView → Prop
  | painted (edits : List Edit) (hlast : lastWritten? edits x y z = some name)
      (hnumber : (writtenNames edits).idxOf (Block.normalize name) < 65536) :
      WrittenAs x y z name (ofEdits edits).view
  | decoded (bytes : List UInt8) (r : Record) (c : StoredChunk) (s : Section) (slot : Nat)
      (hread : Record.ofBytes bytes = .ok r) (hdecode : StoredChunk.ofBytes bytes = .ok c)
      (hs : Decides r.activeSections (y / 16) s)
      (hslot : s.Points (StoredChunk.layoutOf r.dataVersion) ((y % 16 * 16 + z) * 16 + x) slot)
      (hname : s.names[slot]? = some name) : WrittenAs x y z name c.view

theorem PaintedChunk.view_blockId {c : PaintedChunk} {x y z : Nat} {name : String}
    (h : c.block? x y z = some name) : c.view.blockId x y z = name := by
  simp only [view, blockId, h, Option.getD_some]

theorem StoredChunk.view_blockId {c : StoredChunk} {x y z : Nat} {name : String}
    (h : c.block? x y z = some name) : c.view.blockId x y z = name := by
  simp only [view, blockId, h, Option.getD_some]

/-- Chunks keep the short form of a name. -/
theorem WrittenAs.blockId_eq {x y z : Nat} {name : String} {chunk : ChunkView}
    (hin : Inside x y z) (h : WrittenAs x y z name chunk) :
    chunk.blockId x y z = Block.normalize name := by
  cases h with
  | painted edits hlast hnumber =>
      exact PaintedChunk.view_blockId (block?_of_written_eq_some hin hlast hnumber)
  | decoded bytes r c s slot hread hdecode hs hslot hname =>
      rcases decoding_cases hread with ⟨short, -, herror⟩ | ⟨-, c', hok, hreflects⟩
      · cases hdecode.symm.trans herror
      · cases hdecode.symm.trans hok
        obtain ⟨shown, hblock, hshown⟩ := hreflects.block? x y z
        rw [StoredChunk.view_blockId hblock, hshown.of_decides hin hs hslot, hname]
        rfl

end Chunk

/-- The topmost block of a column that is not looked through shows. -/
theorem Column.resolve_of_topmost {chunk : ChunkView} {x y z : Nat} (hy : y < 256)
    (hsolid : Block.isTransparent (chunk.blockId x y z) = false)
    (habove : ∀ y', y < y' → y' < 256 → Block.isTransparent (chunk.blockId x y' z) = true) :
    resolve chunk x z .overworld = .block (chunk.blockId x y z) y := by
  refine ((shows_overworld chunk x z).block_iff _ _).2 ⟨y, ⟨⟨hy, ?_⟩, ?_⟩, rfl, rfl⟩
  · rw [← isTransparent_iff_isClear, hsolid]
    exact Bool.false_ne_true
  · rintro y' ⟨hlt, hsolid⟩
    by_contra hgt
    exact hsolid (isTransparent_iff_isClear.1 (habove y' (Nat.lt_of_not_le hgt) hlt))

namespace Palette

theorem lookup_insert_normalize (p : Palette) (name : String) (c : Color) :
    (p.insert name c).lookup (Block.normalize name) =
      if Block.IsDoubled name then p.lookup (Block.normalize name) else some c := by
  by_cases h : Block.IsDoubled name
  · have hne : Block.normalize name ≠ Block.normalize (Block.normalize name) :=
      fun heq => Block.normalize_normalize_iff.1 heq.symm h
    rw [lookup_insert, if_neg hne, if_pos h]
  · rw [lookup_insert, if_pos (Block.normalize_normalize_iff.2 h).symm, if_neg h]

theorem forall_lookup_normalize_iff {name : String} :
    (∀ p : Palette, p.lookup (Block.normalize name) = p.lookup name) ↔
      ¬ Block.IsDoubled name := by
  constructor
  · intro h hdoubled
    have hinsert := h (empty.insert name Color.blank)
    rw [lookup_insert_normalize, if_pos hdoubled, lookup_empty, lookup_insert,
      if_pos rfl] at hinsert
    cases hinsert
  · intro h p
    rw [lookup, Block.normalize_normalize_iff.2 h, lookup]

theorem lookup_insert_append (p : Palette) (name : String) (c : Color) :
    (p.insert (Block.vanillaNamespace ++ name) c).lookup name =
      if Block.IsPrefixed name then p.lookup name else some c := by
  have hinsert := p.lookup_insert_normalize (Block.vanillaNamespace ++ name) c
  simpa only [Block.normalize_append, Block.isDoubled_append_iff] using hinsert

end Palette

namespace Block

open Chunk Chunk.PaintedChunk

/-- **Names are judged alike before and after they are kept, unless they carry
the namespace twice.** Of all names just those with the vanilla namespace twice
are shortened further by a second shortening. A chunk gives back the short form
of what was written to it. It is looked through where the name is, but for the
kinds of air with the namespace twice, and a palette finds the same colour for
it, but for all names with the namespace twice. So a colour that is inserted
for a name shows where a block of that name lies on top of a column, and a
colour inserted under the name with one more namespace is found under either,
unless the name already has the namespace. -/
theorem kept_names_judged_alike (name : String) :
    (normalize (normalize name) = normalize name ↔ ¬ IsDoubled name) ∧
    (∀ chunk x y z, Inside x y z → WrittenAs x y z name chunk →
      chunk.blockId x y z = normalize name) ∧
    (isTransparent (normalize name) = isTransparent name ↔
      ¬ ∃ air ∈ airNames, name = vanillaNamespace ++ (vanillaNamespace ++ air)) ∧
    ((∀ p : Palette, p.lookup (normalize name) = p.lookup name) ↔ ¬ IsDoubled name) ∧
    (∀ (p : Palette) (c : Color), (p.insert name c).lookup (normalize name) =
      if IsDoubled name then p.lookup (normalize name) else some c) ∧
    (∀ (p : Palette) (c : Color) (row : RowScan) (chunk : ChunkView) (x y z : Nat),
      ¬ IsDoubled name → isTransparent name = false → Inside x y z →
      WrittenAs x y z name chunk →
      (∀ y', y < y' → y' < 256 → isTransparent (chunk.blockId x y' z) = true) →
      row.step (Column.resolve chunk x z .overworld) (p.insert name c) =
        (⟨some y⟩, .shaded (c.shade row.previous y))) ∧
    ∀ (p : Palette) (c : Color),
      (p.insert (vanillaNamespace ++ name) c).lookup (vanillaNamespace ++ name) = some c ∧
      (p.insert (vanillaNamespace ++ name) c).lookup name =
        if IsPrefixed name then p.lookup name else some c := by
  refine ⟨normalize_normalize_iff, fun _ _ _ _ hin hwritten => hwritten.blockId_eq hin,
    isTransparent_normalize_iff, Palette.forall_lookup_normalize_iff,
    fun p c => p.lookup_insert_normalize name c, ?_, fun p c => ⟨?_, p.lookup_insert_append name c⟩⟩
  · intro p c row chunk x y z hsingle hsolid hin hwritten habove
    have hblock := hwritten.blockId_eq hin
    have hkept : isTransparent (normalize name) = false := by
      rw [isTransparent_normalize_iff.2, hsolid]
      rintro ⟨air, -, rfl⟩
      exact hsingle ⟨air, rfl⟩
    rw [Column.resolve_of_topmost hin.2.2 (by rw [hblock, hkept]) habove, hblock]
    simp only [RowScan.step, p.lookup_insert_normalize name c, if_neg hsingle]
  · rw [Palette.lookup_insert, if_pos rfl]

/-- Five blocks of stone. -/
def pillar : List Edit := [.fill 2 3 4 "minecraft:stone"]

theorem written_pillar : WrittenAs 2 4 3 "minecraft:stone" (ofEdits pillar).view :=
  .painted pillar (by decide) (by decide)

theorem decoded_layers : ∃ c, StoredChunk.ofBytes layeredRecord.toBytes = .ok c ∧
    WrittenAs 15 50 0 "minecraft:stone" c.view := by
  have hread := ofBytes_toBytes layeredRecord_fits
  rcases decoding_cases hread with ⟨short, hshort, -⟩ | ⟨-, c, hdecode, -⟩
  · obtain ⟨s, hs, hlacks⟩ := hshort.exists_lacks
    -- the sections at kept heights have one name or no words
    have hcomplete : ∀ s ∈ layeredRecord.activeSections,
        s.y < 0 ∨ s.names.length < 2 ∨ s.states = none := by decide
    obtain ⟨words, hwords, -⟩ := hlacks.longs
    rcases hcomplete s hs with hlow | hfew | hnone
    · exact absurd hlacks.kept.1 (by omega)
    · exact absurd hlacks (Section.not_lacks_of_few hfew short)
    · cases hnone.symm.trans hwords
  · exact ⟨c, hdecode, .decoded _ _ c _ 0 hread hdecode decides_layered (.single rfl) rfl⟩

/-- The top of the pillar shows the colour that is inserted for its stone, and
stone from the bytes of a chunk loses its namespace as well. -/
theorem pillar_shows_its_colour :
    WrittenAs 2 4 3 "minecraft:stone" (ofEdits pillar).view ∧
      RowScan.start.step (Column.resolve (ofEdits pillar).view 2 3 .overworld)
          (Palette.empty.insert "minecraft:stone" ⟨125, 125, 125⟩) =
        (⟨some 4⟩, .shaded ⟨125, 125, 125⟩) ∧
      ∃ c, StoredChunk.ofBytes layeredRecord.toBytes = .ok c ∧
        c.view.blockId 15 50 0 = "stone" := by
  obtain ⟨-, hkept, -, -, -, hcolour, -⟩ := kept_names_judged_alike "minecraft:stone"
  have habove (y : Nat) (hlt : 4 < y) (_ : y < 256) :
      isTransparent ((ofEdits pillar).view.blockId 2 y 3) = true := by
    have hair : (ofEdits pillar).block? 2 y 3 = some "air" := by
      refine block?_of_not_written ?_
      simp [pillar, lastWritten?, Edit.writes?]
      omega
    rw [PaintedChunk.view_blockId hair]
    decide
  obtain ⟨c, hdecode, hwritten⟩ := decoded_layers
  exact ⟨written_pillar, hcolour Palette.empty _ _ _ 2 4 3 (by decide) (by decide) (by decide)
    written_pillar habove, c, hdecode,
    (hkept _ 15 50 0 (by decide) hwritten).trans (by decide)⟩

/-- Air with the namespace twice is not looked through, but what a chunk keeps of
it is; and the colour of stone with the namespace twice is not found for what a
chunk keeps of that. -/
theorem doubled_names_judged_apart :
    normalize (normalize "minecraft:minecraft:air") ≠ normalize "minecraft:minecraft:air" ∧
    (ofEdits [.set 0 0 0 "minecraft:minecraft:air"]).block? 0 0 0 = some "minecraft:air" ∧
    isTransparent "minecraft:minecraft:air" = false ∧ isTransparent "minecraft:air" = true ∧
    (ofEdits [.set 0 0 0 "minecraft:minecraft:stone"]).block? 0 0 0 = some "minecraft:stone" ∧
    (Palette.empty.insert "minecraft:minecraft:stone" ⟨1, 2, 3⟩).lookup
      "minecraft:minecraft:stone" = some ⟨1, 2, 3⟩ ∧
    (Palette.empty.insert "minecraft:minecraft:stone" ⟨1, 2, 3⟩).lookup "minecraft:stone" =
      none := by
  refine ⟨by decide, by decide +kernel, by decide, by decide, by decide +kernel, ?_, ?_⟩
  · rw [Palette.lookup_insert, if_pos rfl]
  · rw [Palette.lookup_insert, if_neg (by decide), Palette.lookup_empty]

end Block

end TerrainMap
