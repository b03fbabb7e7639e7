import TerrainMap.Proofs.Chunk.Unpacking

/-!
Packing what was unpacked. Of the words of a section the indices take up some
bits: in the spanning layout all of the words they need, in the padded layout
the low bits of each. A packer brings back these bits and clears the others,
so that words hold the same indices just if they agree on the bits in use.
-/

namespace TerrainMap.PackedIndices

variable {layout : Layout} {bits : Nat}

/-- The bit `p` of a row belongs to an index of the section. -/
def IsUsed (layout : Layout) (bits p : Nat) : Prop :=
  ∃ i < sectionVolume, start layout bits i ≤ p ∧ p < start layout bits i + bits

/-- The indices of a section that lie in the word number `n` of the padded
layout. -/
def heldBy (bits n : Nat) : Nat := min (perWord bits) (sectionVolume - n * perWord bits)

/-- The word without all but its `count` low bits. -/
def keepLow (count : Nat) (word : UInt64) : UInt64 := UInt64.ofNat (word.toNat % 2 ^ count)

/-- The words that a section needs. In the padded layout the high bits of each
are cleared that hold no index. -/
def trimmed (layout : Layout) (bits : Nat) (words : Array UInt64) : Array UInt64 :=
  match layout with
  | .spanning => words.extract 0 (wordsNeeded .spanning bits)
  | .padded => (words.extract 0 (wordsNeeded .padded bits)).mapIdx fun n word =>
      keepLow (bits * heldBy bits n) word

/-! ### Words and their bits -/

/-- The bits of a row tell its words. -/
theorem eq_of_bitAt {words words' : Array UInt64} (hsize : words.size = words'.size)
    (h : ∀ p < 64 * words.size, bitAt words p = bitAt words' p) : words = words' := by
  apply Array.ext hsize
  intro n hn hn'
  apply UInt64.toNat_inj.mp
  apply Nat.eq_of_testBit_eq
  intro k
  by_cases hk : k < 64
  · have hbit := h (64 * n + k) (by omega)
    rwa [bitAt_eq (Array.getElem?_eq_getElem hn) hk,
      bitAt_eq (Array.getElem?_eq_getElem hn') hk] at hbit
  · rw [testBit_of_le _ (Nat.le_of_not_lt hk), testBit_of_le _ (Nat.le_of_not_lt hk)]

theorem testBit_keepLow (count : Nat) (word : UInt64) (k : Nat) :
    (keepLow count word).toNat.testBit k = (decide (k < count) && word.toNat.testBit k) := by
  have hlt : word.toNat % 2 ^ count < 2 ^ 64 :=
    Nat.lt_of_le_of_lt (Nat.mod_le _ _) word.toNat_lt
  rw [keepLow, UInt64.toNat_ofNat', Nat.mod_eq_of_lt hlt, Nat.testBit_mod_two_pow]

/-- Bits between the indices stay clear. -/
theorem bitAt_foldl_put_of_gap (hpos : 0 < bits) (hbits : bits < 64) {p : Nat}
    (slots : List UInt16) (k : Nat) (words : Array UInt64)
    (hslots : ∀ slot ∈ slots, slot.toNat < 2 ^ bits)
    (hsize : ∀ i < k + slots.length, start layout bits i + bits ≤ 64 * words.size)
    (hgap : ∀ i < k + slots.length, start layout bits i ≤ p → start layout bits i + bits ≤ p) :
    bitAt ((slots.zipIdx k).foldl (put layout bits) words) p = bitAt words p := by
  induction slots generalizing k words with
  | nil => rfl
  | cons slot rest ih =>
      have hslot := hslots slot List.mem_cons_self
      rw [List.length_cons] at hsize hgap
      rw [List.zipIdx_cons, List.foldl_cons, ih]
      · rw [bitAt_put hpos hbits hslot (hsize k (by omega))]
        by_cases hle : start layout bits k ≤ p
        · have hbehind := hgap k (by omega) hle
          rw [testBit_slot_of_le hslot (by omega), Bool.and_false, Bool.or_false]
        · simp [hle]
      · exact fun other hother => hslots other (List.mem_cons_of_mem _ hother)
      · intro i hi
        rw [size_put]
        exact hsize i (by omega)
      · exact fun i hi => hgap i (by omega)

theorem bitAt_pack_of_not_isUsed (hpos : 0 < bits) (hbits : bits < 64) {slots : List UInt16}
    (hlength : slots.length = sectionVolume) (hslots : ∀ slot ∈ slots, slot.toNat < 2 ^ bits)
    {p : Nat} (hp : ¬ IsUsed layout bits p) : bitAt (pack layout bits slots) p = false := by
  rw [pack, bitAt_foldl_put_of_gap hpos hbits slots 0 _ hslots, bitAt_replicate]
  · intro i hi
    rw [Array.size_replicate]
    exact start_add_le_wordCount hpos (Nat.le_of_lt hbits) (by omega)
  · intro i hi hle
    exact Nat.le_of_not_lt fun hlt => hp ⟨i, by omega, hle, hlt⟩

/-! ### The bits in use -/

theorem isUsed_spanning_iff (hpos : 0 < bits) {p : Nat} :
    IsUsed .spanning bits p ↔ p < sectionVolume * bits := by
  constructor
  · rintro ⟨i, hi, hle, hlt⟩
    calc
      p < i * bits + bits := hlt
      _ = (i + 1) * bits := (Nat.succ_mul _ _).symm
      _ ≤ sectionVolume * bits := Nat.mul_le_mul_right bits hi
  · intro hp
    refine ⟨p / bits, Nat.div_lt_of_lt_mul (by rwa [Nat.mul_comm]), Nat.div_mul_le_self p bits, ?_⟩
    exact Nat.lt_div_mul_add hpos

/-- In a word of the padded layout the low bits are in use. -/
theorem isUsed_padded_iff (hpos : 0 < bits) (hbits : bits ≤ 64) {p : Nat} :
    IsUsed .padded bits p ↔ p % 64 < bits * heldBy bits (p / 64) := by
  have hword := perWord_pos hpos hbits
  constructor
  · rintro ⟨i, hi, hle, hlt⟩
    have hfits := padded_fits hpos hbits i
    simp only [start] at hle hlt
    have hdiv : p / 64 = i / perWord bits := by omega
    have hheld : i % perWord bits + 1 ≤ heldBy bits (p / 64) := by
      have hplace := Nat.div_add_mod' i (perWord bits)
      have hlast := Nat.mod_lt i hword
      rw [heldBy, hdiv]
      omega
    calc
      p % 64 < i % perWord bits * bits + bits := by omega
      _ = bits * (i % perWord bits + 1) := by rw [Nat.mul_add, Nat.mul_one, Nat.mul_comm]
      _ ≤ bits * heldBy bits (p / 64) := Nat.mul_le_mul_left bits hheld
  · intro hp
    -- the index is the one at this place of the word
    have hk : p % 64 / bits < heldBy bits (p / 64) := Nat.div_lt_of_lt_mul hp
    rw [heldBy, Nat.lt_min] at hk
    have hdiv : (p / 64 * perWord bits + p % 64 / bits) / perWord bits = p / 64 := by
      rw [Nat.mul_comm, Nat.mul_add_div hword, Nat.div_eq_of_lt hk.1, Nat.add_zero]
    have hmod : (p / 64 * perWord bits + p % 64 / bits) % perWord bits = p % 64 / bits := by
      rw [Nat.mul_comm, Nat.mul_add_mod, Nat.mod_eq_of_lt hk.1]
    have hlow := Nat.div_mul_le_self (p % 64) bits
    have hhigh := Nat.lt_div_mul_add (a := p % 64) hpos
    refine ⟨p / 64 * perWord bits + p % 64 / bits, by omega, ?_, ?_⟩
    · simp only [start, hdiv, hmod]
      omega
    · simp only [start, hdiv, hmod]
      omega

theorem size_trimmed {words : Array UInt64} (h : wordsNeeded layout bits ≤ words.size) :
    (trimmed layout bits words).size = wordsNeeded layout bits := by
  cases layout with
  | spanning => simp [trimmed, h]
  | padded => simp [trimmed, h]

theorem bitAt_extract {words : Array UInt64} {n p : Nat} (hp : p < 64 * n) :
    bitAt (words.extract 0 n) p = bitAt words p := by
  have hword : p / 64 < n := by omega
  simp only [bitAt, Array.getD_eq_getD_getElem?, Array.getElem?_extract, Nat.sub_zero,
    Nat.zero_add]
  by_cases hsize : p / 64 < words.size
  · rw [if_pos (by omega)]
  · rw [if_neg (by omega), Array.getElem?_eq_none (by omega)]

theorem bitAt_trimmed_padded (words : Array UInt64) {p : Nat}
    (hp : p < 64 * wordsNeeded .padded bits) :
    bitAt (trimmed .padded bits words) p =
      (decide (p % 64 < bits * heldBy bits (p / 64)) && bitAt words p) := by
  have hrow : bitAt (words.extract 0 (wordsNeeded .padded bits)) p = bitAt words p :=
    bitAt_extract hp
  rw [← hrow]
  simp only [trimmed, bitAt, Array.getD_eq_getD_getElem?, Array.getElem?_mapIdx]
  cases (words.extract 0 (wordsNeeded .padded bits))[p / 64]? with
  | none => simp
  | some word => exact testBit_keepLow _ _ _

/-- Trimming keeps the bits in use. -/
theorem bitAt_trimmed_of_isUsed (hpos : 0 < bits) (hbits : bits ≤ 64) (words : Array UInt64)
    {p : Nat} (hp : p < 64 * wordsNeeded layout bits) (hused : IsUsed layout bits p) :
    bitAt (trimmed layout bits words) p = bitAt words p := by
  cases layout with
  | spanning => exact bitAt_extract hp
  | padded =>
      rw [isUsed_padded_iff hpos hbits] at hused
      rw [bitAt_trimmed_padded words hp, decide_eq_true hused, Bool.true_and]

/-- Trimming clears the other bits. -/
theorem bitAt_trimmed_of_not_isUsed (hpos : 0 < bits) (hbits : bits ≤ 64) (words : Array UInt64)
    {p : Nat} (hp : p < 64 * wordsNeeded layout bits) (hunused : ¬ IsUsed layout bits p) :
    bitAt (trimmed layout bits words) p = false := by
  cases layout with
  | spanning =>
      -- the indices fill the words of the spanning layout
      rw [isUsed_spanning_iff hpos] at hunused
      simp only [wordsNeeded, sectionVolume] at hp hunused
      omega
  | padded =>
      rw [isUsed_padded_iff hpos hbits] at hunused
      rw [bitAt_trimmed_padded words hp, decide_eq_false hunused, Bool.false_and]

/-! ### Packing what was unpacked -/

variable {names : Nat} {words words' : Array UInt64} {indices indices' : Array UInt16}

theorem bitsPerIndex_le_sixteen (hnames : names ≤ 65536) : bitsPerIndex names ≤ 16 :=
  (bitsPerIndex_isLeast names).2 ⟨by decide, hnames⟩

/-- What unpacking hands back: a slot for every block, with the bits of its
index. Palettes of this size have indices of at most 16 bits. -/
theorem unpacked_bits (hnames : names ≤ 65536) (h : unpack layout names words = .ok indices) :
    wordsNeeded layout (bitsPerIndex names) ≤ words.size ∧
      indices.size = sectionVolume ∧
      ∀ i < sectionVolume, ∀ j, (indices.getD i 0).toNat.testBit j =
        (decide (j < bitsPerIndex names) &&
          bitAt words (start layout (bitsPerIndex names) i + j)) := by
  have henough : wordsNeeded layout (bitsPerIndex names) ≤ words.size := by
    refine Nat.le_of_not_lt fun hlt => ?_
    rw [unpack_of_lt hlt] at h
    cases h
  obtain ⟨slots, hslots, hsize, hslot⟩ := unpack_of_le (by omega) henough
  obtain rfl : slots = indices := Except.ok.inj (hslots.symm.trans h)
  refine ⟨henough, hsize, ?_⟩
  intro i hi j
  obtain ⟨slot, hslot, hbits⟩ := hslot i hi
  rw [Array.getD_eq_getD_getElem?, hslot, Option.getD_some, hbits j]
  have hsixteen := bitsPerIndex_le_sixteen hnames
  by_cases hj : j < bitsPerIndex names
  · simp [hj, Nat.lt_of_lt_of_le hj hsixteen]
  · simp [hj]

/-- What was unpacked has room in the width it was unpacked from. -/
theorem unpacked_lt (hnames : names ≤ 65536) (h : unpack layout names words = .ok indices) :
    ∀ slot ∈ indices.toList, slot.toNat < 2 ^ bitsPerIndex names := by
  obtain ⟨-, hsize, hbit⟩ := unpacked_bits hnames h
  intro slot hslot
  obtain ⟨i, hi, rfl⟩ := List.mem_iff_getElem.mp hslot
  rw [Array.length_toList] at hi
  apply Nat.lt_pow_two_of_testBit
  intro j hj
  have hclear := hbit i (by omega) j
  simpa [hi, Nat.not_lt.mpr hj] using hclear

/-- Packing brings back the words, but for the bits that no index uses. -/
theorem pack_unpacked (hnames : names ≤ 65536) (h : unpack layout names words = .ok indices) :
    pack layout (bitsPerIndex names) indices.toList =
      trimmed layout (bitsPerIndex names) words := by
  obtain ⟨henough, hsize, hbit⟩ := unpacked_bits hnames h
  have hpos := bitsPerIndex_pos names
  have hsixteen := bitsPerIndex_le_sixteen hnames
  have hlength : indices.toList.length = sectionVolume := by rw [Array.length_toList, hsize]
  have hslots := unpacked_lt hnames h
  apply eq_of_bitAt
  · rw [size_pack, hlength, size_trimmed henough, wordsNeeded_eq_wordCount]
  · intro p hp
    rw [size_pack, hlength, ← wordsNeeded_eq_wordCount] at hp
    by_cases hused : IsUsed layout (bitsPerIndex names) p
    · rw [bitAt_trimmed_of_isUsed hpos (by omega) words hp hused]
      obtain ⟨i, hi, hle, hlt⟩ := hused
      obtain ⟨j, rfl⟩ := Nat.exists_eq_add_of_le hle
      have hj : j < bitsPerIndex names := by omega
      have hindex := hbit i hi j
      rw [bitAt_pack hpos (by omega) hslots hj]
      simpa [hj] using hindex
    · rw [bitAt_trimmed_of_not_isUsed hpos (by omega) words hp hused,
        bitAt_pack_of_not_isUsed hpos (by omega) hlength hslots hused]

/-- Words hold the same indices just if they agree on the bits in use. -/
theorem unpacked_eq_iff (hnames : names ≤ 65536) (h : unpack layout names words = .ok indices)
    (h' : unpack layout names words' = .ok indices') :
    indices = indices' ↔
      ∀ p, IsUsed layout (bitsPerIndex names) p → bitAt words p = bitAt words' p := by
  obtain ⟨-, hsize, hbit⟩ := unpacked_bits hnames h
  obtain ⟨-, hsize', hbit'⟩ := unpacked_bits hnames h'
  constructor
  · rintro rfl p ⟨i, hi, hle, hlt⟩
    obtain ⟨j, rfl⟩ := Nat.exists_eq_add_of_le hle
    have hj : j < bitsPerIndex names := by omega
    have heq := (hbit i hi j).symm.trans (hbit' i hi j)
    simpa [hj] using heq
  · intro hagree
    apply Array.ext (hsize.trans hsize'.symm)
    intro i hi hi'
    apply UInt16.toNat_inj.mp
    apply Nat.eq_of_testBit_eq
    intro j
    have hleft := hbit i (by omega) j
    have hright := hbit' i (by omega) j
    by_cases hj : j < bitsPerIndex names
    · have hsame := hagree (start layout (bitsPerIndex names) i + j)
        ⟨i, by omega, by omega, by omega⟩
      rw [hsame, ← hright] at hleft
      simpa [hi, hi'] using hleft
    · simp only [hj, decide_false, Bool.false_and] at hleft hright
      rw [← hright] at hleft
      simpa [hi, hi'] using hleft

/-- **Unpacking and packing undo each other.** The width of an index is the
least one, from four up, that tells the names of a palette apart. Indices that
have room in it are read back as they were packed, whatever words stand behind
them. And for every palette that 16 bits can count, packing what was read
brings back the words that the section needs, but for the bits that no index
uses. These bits are therefore all that two rows of words with the same
indices can differ in. -/
theorem unpacking_inverts_packing (layout : Layout) (names : Nat) :
    IsLeast {b | 4 ≤ b ∧ names ≤ 2 ^ b} (bitsPerIndex names) ∧
    (names ≤ 2 ^ 63 → ∀ slots : List UInt16, slots.length = sectionVolume →
      (∀ slot ∈ slots, slot.toNat < 2 ^ bitsPerIndex names) → ∀ extra : Array UInt64,
      unpack layout names (pack layout (bitsPerIndex names) slots ++ extra) =
        .ok slots.toArray) ∧
    (names ≤ 65536 → ∀ words indices, unpack layout names words = .ok indices →
      pack layout (bitsPerIndex names) indices.toList =
        trimmed layout (bitsPerIndex names) words) ∧
    (names ≤ 65536 → ∀ words words' indices indices', unpack layout names words = .ok indices →
      unpack layout names words' = .ok indices' →
      (indices = indices' ↔
        ∀ p, IsUsed layout (bitsPerIndex names) p → bitAt words p = bitAt words' p)) := by
  refine ⟨bitsPerIndex_isLeast names, ?_, ?_, ?_⟩
  · intro hnames slots hlength hslots extra
    exact unpack_pack hnames hlength hslots extra
  · intro hnames words indices h
    exact pack_unpacked hnames h
  · intro hnames words words' indices indices' h h'
    exact unpacked_eq_iff hnames h h'

/-- Words whose bits are all set, one more than indices of five bits need. -/
def fullWords : Array UInt64 := Array.replicate 343 (UInt64.ofNat (2 ^ 64 - 1))

theorem getElem?_trimmed_fullWords {n : Nat} (hn : n < 342) :
    (trimmed .padded 5 fullWords)[n]? =
      some (keepLow (5 * heldBy 5 n) (UInt64.ofNat (2 ^ 64 - 1))) := by
  have hneeded : wordsNeeded .padded 5 = 342 := by decide
  simp [trimmed, hneeded, fullWords, hn]

/-- Packed again, a full word that holds twelve indices keeps sixty bits, the
last one keeps the twenty bits of its four indices, and the word behind it is
gone. Read once more, the packed words give the same indices. -/
theorem full_words_repacked :
    (17 : Nat) ≤ 65536 ∧ ∃ indices, unpack .padded 17 fullWords = .ok indices ∧
      (pack .padded 5 indices.toList)[340]? = some (UInt64.ofNat (2 ^ 60 - 1)) ∧
      (pack .padded 5 indices.toList)[341]? = some (UInt64.ofNat (2 ^ 20 - 1)) ∧
      (pack .padded 5 indices.toList).size = 342 ∧
      unpack .padded 17 (pack .padded 5 indices.toList ++ #[7]) = .ok indices := by
  obtain ⟨-, hback, hrepack, -⟩ := unpacking_inverts_packing .padded 17
  have hwidth : bitsPerIndex 17 = 5 := by decide
  have henough : wordsNeeded .padded (bitsPerIndex 17) ≤ fullWords.size := by
    rw [hwidth, fullWords, Array.size_replicate]
    decide
  obtain ⟨indices, hindices, hsize, -⟩ := unpack_of_le (by decide) henough
  have hpacked := hrepack (by decide) _ _ hindices
  have hfits := unpacked_lt (by decide) hindices
  rw [hwidth] at hpacked hback henough hfits
  refine ⟨by decide, indices, hindices, ?_, ?_, ?_, ?_⟩
  · rw [hpacked, getElem?_trimmed_fullWords (by decide)]
    decide
  · rw [hpacked, getElem?_trimmed_fullWords (by decide)]
    decide
  · rw [hpacked, size_trimmed henough]
    decide
  · exact hback (by decide) indices.toList (by rw [Array.length_toList, hsize]) hfits #[7]

end TerrainMap.PackedIndices
