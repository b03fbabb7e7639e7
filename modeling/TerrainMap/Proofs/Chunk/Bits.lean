import Mathlib.Algebra.Group.Nat.Defs
import Mathlib.Order.Bounds.Defs
import TerrainMap.Proofs.Chunk.Fields

/-!
Packed words as one row of bits.

Words laid end to end, the lowest bit of each first, make a row in which every
index has its place: `start` is where it begins, in either layout. Both the
reader and the writer of an index are described by what they do to this row,
and the two layouts differ only in where the indices begin. The reader looks
at two words where an index straddles them, and the row does not show it.
-/

namespace TerrainMap.PackedIndices

/-! ### The width of an index -/

/-- The width is the least one, from four up, that tells all names apart. -/
theorem bitsPerIndex_isLeast (names : Nat) :
    IsLeast {b | 4 ≤ b ∧ names ≤ 2 ^ b} (bitsPerIndex names) := by
  unfold bitsPerIndex
  by_cases hone : names ≤ 1
  · rw [if_pos hone]
    refine ⟨⟨by omega, ?_⟩, ?_⟩
    · exact Nat.le_trans hone Nat.one_le_two_pow
    · rintro b ⟨hb, -⟩
      omega
  · rw [if_neg hone]
    have hlog : names - 1 < 2 ^ ((names - 1).log2 + 1) := Nat.lt_log2_self
    refine ⟨⟨Nat.le_max_left _ _, ?_⟩, ?_⟩
    · have hmono : 2 ^ ((names - 1).log2 + 1) ≤ 2 ^ max 4 ((names - 1).log2 + 1) :=
        Nat.pow_le_pow_right (by omega) (Nat.le_max_right _ _)
      omega
    · rintro b ⟨hb, hnames⟩
      have hlt : (names - 1).log2 < b := (Nat.log2_lt (by omega)).mpr (by omega)
      omega

theorem four_le_bitsPerIndex (names : Nat) : 4 ≤ bitsPerIndex names :=
  (bitsPerIndex_isLeast names).1.1

theorem bitsPerIndex_pos (names : Nat) : 0 < bitsPerIndex names :=
  Nat.lt_of_lt_of_le (by decide) (four_le_bitsPerIndex names)

theorem le_two_pow_bitsPerIndex (names : Nat) : names ≤ 2 ^ bitsPerIndex names :=
  (bitsPerIndex_isLeast names).1.2

theorem bitsPerIndex_lt {names : Nat} (h : names ≤ 2 ^ 63) : bitsPerIndex names < 64 := by
  have hle : bitsPerIndex names ≤ 63 := (bitsPerIndex_isLeast names).2 ⟨by omega, h⟩
  omega

/-! ### Bits of words -/

theorem testBit_of_le (w : UInt64) {k : Nat} (hk : 64 ≤ k) : w.toNat.testBit k = false := by
  apply Nat.testBit_lt_two_pow
  exact Nat.lt_of_lt_of_le w.toNat_lt (Nat.pow_le_pow_right (by omega) hk)

theorem testBit_shiftLeft (w : UInt64) {s : Nat} (hs : s < 64) (k : Nat) :
    (w <<< UInt64.ofNat s).toNat.testBit k =
      (decide (k < 64) && (decide (s ≤ k) && w.toNat.testBit (k - s))) := by
  have hshift : (UInt64.ofNat s).toNat % 64 = s := by
    rw [UInt64.toNat_ofNat', Nat.mod_eq_of_lt (by omega : s < 2 ^ 64), Nat.mod_eq_of_lt hs]
  rw [UInt64.toNat_shiftLeft, hshift, Nat.testBit_mod_two_pow, Nat.testBit_shiftLeft]

theorem testBit_shiftRight (w : UInt64) {s : Nat} (hs : s < 64) (k : Nat) :
    (w >>> UInt64.ofNat s).toNat.testBit k = w.toNat.testBit (s + k) := by
  have hshift : (UInt64.ofNat s).toNat % 64 = s := by
    rw [UInt64.toNat_ofNat', Nat.mod_eq_of_lt (by omega : s < 2 ^ 64), Nat.mod_eq_of_lt hs]
  rw [UInt64.toNat_shiftRight, hshift, Nat.testBit_shiftRight]

theorem testBit_lowMask {bits : Nat} (hbits : bits < 64) (k : Nat) :
    (lowMask bits).toNat.testBit k = decide (k < bits) := by
  have hone : ((1 : UInt64) <<< UInt64.ofNat bits).toNat = 2 ^ bits := by
    have hshift : (UInt64.ofNat bits).toNat % 64 = bits := by
      rw [UInt64.toNat_ofNat', Nat.mod_eq_of_lt (by omega : bits < 2 ^ 64),
        Nat.mod_eq_of_lt hbits]
    rw [UInt64.toNat_shiftLeft, hshift, UInt64.toNat_one, Nat.shiftLeft_eq, Nat.one_mul]
    exact Nat.mod_eq_of_lt (Nat.pow_lt_pow_right (by omega) hbits)
  have hle : (1 : UInt64) ≤ (1 : UInt64) <<< UInt64.ofNat bits := by
    rw [UInt64.le_iff_toNat_le, hone]
    exact Nat.one_le_two_pow
  rw [lowMask, UInt64.toNat_sub_of_le _ _ hle, hone, UInt64.toNat_one, Nat.testBit_two_pow_sub_one]

/-! ### The row of bits -/

/-- Bit `p` of words laid end to end. Behind the last word no bit is set. -/
def bitAt (words : Array UInt64) (p : Nat) : Bool :=
  (words.getD (p / 64) 0).toNat.testBit (p % 64)

theorem bitAt_eq {words : Array UInt64} {w : UInt64} {n k : Nat} (hw : words[n]? = some w)
    (hk : k < 64) : bitAt words (64 * n + k) = w.toNat.testBit k := by
  have hdiv : (64 * n + k) / 64 = n := by omega
  have hmod : (64 * n + k) % 64 = k := by omega
  rw [bitAt, hdiv, hmod, Array.getD_eq_getD_getElem?, hw, Option.getD_some]

theorem bitAt_append {words extra : Array UInt64} {p : Nat} (hp : p < 64 * words.size) :
    bitAt (words ++ extra) p = bitAt words p := by
  have hword : p / 64 < words.size := by omega
  rw [bitAt, bitAt, Array.getD_eq_getD_getElem?, Array.getD_eq_getD_getElem?,
    Array.getElem?_append_left hword]

theorem bitAt_replicate (n p : Nat) : bitAt (Array.replicate n 0) p = false := by
  rw [bitAt, Array.getD_eq_getD_getElem?, Array.getElem?_replicate]
  split
  · simp
  · simp

/-- Setting bits of one word sets these bits of the row. -/
theorem bitAt_modify {words : Array UInt64} {n : Nat} (hn : n < words.size) (bits : UInt64)
    (p : Nat) :
    bitAt (words.modify n (· ||| bits)) p =
      (bitAt words p || (decide (p / 64 = n) && bits.toNat.testBit (p % 64))) := by
  simp only [bitAt, Array.getD_eq_getD_getElem?, Array.getElem?_modify]
  by_cases hp : p / 64 = n
  · rw [if_pos hp.symm, hp, Array.getElem?_eq_getElem hn]
    simp
  · rw [if_neg (fun h => hp h.symm)]
    simp [hp]

/-- Where an index begins. -/
def start (layout : Layout) (bits i : Nat) : Nat :=
  match layout with
  | .spanning => i * bits
  | .padded => 64 * (i / perWord bits) + i % perWord bits * bits

theorem perWord_pos {bits : Nat} (hpos : 0 < bits) (hbits : bits ≤ 64) : 0 < perWord bits :=
  Nat.div_pos hbits hpos

/-- In the padded layout an index lies inside its word. -/
theorem padded_fits {bits : Nat} (hpos : 0 < bits) (hbits : bits ≤ 64) (i : Nat) :
    i % perWord bits * bits + bits ≤ 64 := by
  have hlt : i % perWord bits < perWord bits := Nat.mod_lt _ (perWord_pos hpos hbits)
  calc
    i % perWord bits * bits + bits = (i % perWord bits + 1) * bits := (Nat.succ_mul _ _).symm
    _ ≤ perWord bits * bits := Nat.mul_le_mul_right bits hlt
    _ ≤ 64 := Nat.div_mul_le_self 64 bits

/-- No two indices share a bit. -/
theorem start_add_le {layout : Layout} {bits : Nat} (hpos : 0 < bits) (hbits : bits ≤ 64)
    {i k : Nat} (hik : i < k) : start layout bits i + bits ≤ start layout bits k := by
  cases layout with
  | spanning =>
      calc
        i * bits + bits = (i + 1) * bits := (Nat.succ_mul _ _).symm
        _ ≤ k * bits := Nat.mul_le_mul_right bits hik
  | padded =>
      simp only [start]
      have hfits := padded_fits hpos hbits i
      have hword : i / perWord bits ≤ k / perWord bits := Nat.div_le_div_right (Nat.le_of_lt hik)
      rcases Nat.lt_or_eq_of_le hword with hlt | heq
      · omega
      -- in one word, the indices lie in their order
      · have hi := Nat.div_add_mod i (perWord bits)
        have hk := Nat.div_add_mod k (perWord bits)
        rw [heq] at hi ⊢
        have hmod : i % perWord bits + 1 ≤ k % perWord bits := by omega
        have hmul := Nat.mul_le_mul_right bits hmod
        rw [Nat.add_mul, Nat.one_mul] at hmul
        omega

def wordCount (layout : Layout) (bits count : Nat) : Nat :=
  match layout with
  | .spanning => (count * bits + 63) / 64
  | .padded => (count + perWord bits - 1) / perWord bits

theorem wordsNeeded_eq_wordCount (layout : Layout) (bits : Nat) :
    wordsNeeded layout bits = wordCount layout bits sectionVolume := by
  cases layout with
  | spanning => rfl
  | padded => rfl

/-- The words that are needed hold all of their indices. -/
theorem start_add_le_wordCount {layout : Layout} {bits : Nat} (hpos : 0 < bits)
    (hbits : bits ≤ 64) {i count : Nat} (hi : i < count) :
    start layout bits i + bits ≤ 64 * wordCount layout bits count := by
  cases layout with
  | spanning =>
      have hspan : i * bits + bits ≤ count * bits := by
        rw [← Nat.succ_mul]
        exact Nat.mul_le_mul_right bits hi
      simp only [start, wordCount]
      omega
  | padded =>
      have hfits := padded_fits hpos hbits i
      have hword : i / perWord bits + 1 ≤ (count + perWord bits - 1) / perWord bits := by
        rw [← Nat.add_div_right i (perWord_pos hpos hbits)]
        exact Nat.div_le_div_right (by omega)
      simp only [start, wordCount]
      omega

end TerrainMap.PackedIndices
