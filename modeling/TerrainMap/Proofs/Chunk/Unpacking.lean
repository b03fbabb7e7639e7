import TerrainMap.Proofs.Chunk.Packing

/-!
Unpacking, whatever the words hold. The number of words alone decides whether
the indices of a section can be read at all, and every index that is read
consists of the bits at its place, of which the lowest sixteen are kept.
-/

namespace TerrainMap.PackedIndices

/-- A slot holds the index number `i` of the words, as far as it has bits for
it. -/
def IsIndex (layout : Layout) (bits : Nat) (words : Array UInt64) (i : Nat) (slot : UInt16) :
    Prop :=
  ∀ j, slot.toNat.testBit j =
    (decide (j < 16) && (decide (j < bits) && bitAt words (start layout bits i + j)))

theorem IsIndex.unique {layout : Layout} {bits i : Nat} {words : Array UInt64}
    {slot slot' : UInt16} (h : IsIndex layout bits words i slot)
    (h' : IsIndex layout bits words i slot') : slot = slot' := by
  apply UInt16.toNat_inj.mp
  apply Nat.eq_of_testBit_eq
  intro j
  rw [h j, h' j]

theorem exists_isIndex {layout : Layout} {bits i : Nat} {words : Array UInt64} (hpos : 0 < bits)
    (hbits : bits < 64) (hsize : start layout bits i + bits ≤ 64 * words.size) :
    ∃ f, field? layout bits words i = some f ∧ IsIndex layout bits words i f.toUInt16 := by
  obtain ⟨f, hf, hbit⟩ := field?_spec hpos hbits hsize
  refine ⟨f, hf, ?_⟩
  intro j
  rw [UInt64.toNat_toUInt16, Nat.testBit_mod_two_pow, hbit]

/-- With enough words, there is an index for every block of the section. -/
theorem unpack_of_le {layout : Layout} {names : Nat} {words : Array UInt64}
    (hnames : names ≤ 2 ^ 63) (h : wordsNeeded layout (bitsPerIndex names) ≤ words.size) :
    ∃ indices, unpack layout names words = .ok indices ∧ indices.size = sectionVolume ∧
      ∀ i < sectionVolume, ∃ slot, indices[i]? = some slot ∧
        IsIndex layout (bitsPerIndex names) words i slot := by
  have hpos := bitsPerIndex_pos names
  have hbits := bitsPerIndex_lt hnames
  have hfield : ∀ i < sectionVolume, ∃ f,
      field? layout (bitsPerIndex names) words i = some f ∧
        IsIndex layout (bitsPerIndex names) words i f.toUInt16 := by
    intro i hi
    apply exists_isIndex hpos hbits
    rw [wordsNeeded_eq_wordCount] at h
    exact Nat.le_trans (start_add_le_wordCount hpos (Nat.le_of_lt hbits) hi)
      (Nat.mul_le_mul_left 64 h)
  let value (i : Nat) : UInt64 := (field? layout (bitsPerIndex names) words i).getD 0
  have hfields : (List.range sectionVolume).mapM (field? layout (bitsPerIndex names) words) =
      some ((List.range sectionVolume).map value) := by
    apply mapM_eq_some_map
    intro i hi
    obtain ⟨f, hf, -⟩ := hfield i (List.mem_range.mp hi)
    simp only [value, hf, Option.getD_some]
  refine ⟨_, unpack_of_mapM h hfields, by simp, ?_⟩
  intro i hi
  obtain ⟨f, hf, hindex⟩ := hfield i hi
  refine ⟨f.toUInt16, ?_, hindex⟩
  simp [hi, value, hf]

end TerrainMap.PackedIndices
