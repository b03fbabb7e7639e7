import TerrainMap.Proofs.Chunk.Bits

/-!
Packing indices into words, and reading them back.

The packers here are the plain ones: they go through the indices and set the
bits of each in words that were clear. What a packer did to a row of bits, the
reader sees: the index at its place, and nothing of its neighbours.
-/

namespace TerrainMap.PackedIndices

/-! ### Reading an index -/

/-- The bits of an index that lies inside one word. -/
theorem testBit_within {words : Array UInt64} {w : UInt64} {n shift bits : Nat}
    (hw : words[n]? = some w) (hpos : 0 < bits) (hbits : bits < 64) (hfits : shift + bits ≤ 64)
    (j : Nat) :
    ((w >>> UInt64.ofNat shift) &&& lowMask bits).toNat.testBit j =
      (decide (j < bits) && bitAt words (64 * n + shift + j)) := by
  rw [UInt64.toNat_and, Nat.testBit_and, testBit_lowMask hbits,
    testBit_shiftRight w (by omega), Bool.and_comm]
  by_cases hj : j < bits
  · rw [Nat.add_assoc, bitAt_eq hw (by omega)]
  · simp [hj]

/-- The bits of an index that straddles two words. -/
theorem testBit_straddling {words : Array UInt64} {w w' : UInt64} {n shift bits : Nat}
    (hw : words[n]? = some w) (hw' : words[n + 1]? = some w') (hbits : bits < 64)
    (hshift : shift < 64) (hstraddle : 64 < shift + bits) (j : Nat) :
    (((w >>> UInt64.ofNat shift) ||| (w' <<< UInt64.ofNat (64 - shift))) &&& lowMask
        bits).toNat.testBit j =
      (decide (j < bits) && bitAt words (64 * n + shift + j)) := by
  rw [UInt64.toNat_and, Nat.testBit_and, testBit_lowMask hbits, UInt64.toNat_or, Nat.testBit_or,
    testBit_shiftRight w hshift, testBit_shiftLeft w' (by omega), Bool.and_comm]
  by_cases hj : j < bits
  · by_cases hfirst : shift + j < 64
    -- below the end of the first word the second one adds nothing
    · have hlow : ¬ 64 - shift ≤ j := by omega
      rw [Nat.add_assoc, bitAt_eq hw hfirst]
      simp [hlow]
    · have hhigh : 64 - shift ≤ j := by omega
      have hplace : 64 * n + shift + j = 64 * (n + 1) + (j - (64 - shift)) := by omega
      rw [hplace, bitAt_eq hw' (by omega), testBit_of_le w (by omega)]
      simp [hj, hhigh, Nat.lt_trans hj hbits]
  · simp [hj]

/-- Reading an index gives the bits at its place, wherever they lie. -/
theorem field?_spec {layout : Layout} {bits i : Nat} {words : Array UInt64} (hpos : 0 < bits)
    (hbits : bits < 64) (hsize : start layout bits i + bits ≤ 64 * words.size) :
    ∃ f, field? layout bits words i = some f ∧
      ∀ j, f.toNat.testBit j =
        (decide (j < bits) && bitAt words (start layout bits i + j)) := by
  cases layout with
  | spanning =>
      simp only [start] at hsize ⊢
      have hplace : 64 * (i * bits / 64) + i * bits % 64 = i * bits := Nat.div_add_mod _ _
      have hshift : i * bits % 64 < 64 := Nat.mod_lt _ (by omega)
      obtain ⟨w, hw⟩ : ∃ w, words[i * bits / 64]? = some w :=
        ⟨_, Array.getElem?_eq_getElem (by omega)⟩
      by_cases hstraddle : i * bits % 64 + bits > 64
      · obtain ⟨w', hw'⟩ : ∃ w', words[i * bits / 64 + 1]? = some w' :=
          ⟨_, Array.getElem?_eq_getElem (by omega)⟩
        refine ⟨_, field?_spanning_of_straddle hstraddle hw hw', ?_⟩
        intro j
        have hj := testBit_straddling hw hw' hbits hshift hstraddle j
        rwa [hplace] at hj
      · refine ⟨_, field?_spanning_of_within hstraddle hw, ?_⟩
        intro j
        have hfits : i * bits % 64 + bits ≤ 64 := by omega
        have hj := testBit_within hw hpos hbits hfits j
        rwa [hplace] at hj
  | padded =>
      simp only [start] at hsize ⊢
      have hfits := padded_fits hpos (Nat.le_of_lt hbits) i
      obtain ⟨w, hw⟩ : ∃ w, words[i / perWord bits]? = some w :=
        ⟨_, Array.getElem?_eq_getElem (by omega)⟩
      refine ⟨_, field?_padded hw, ?_⟩
      exact testBit_within hw hpos hbits hfits

/-! ### Writing an index -/

/-- Sets the bits of index number `i` in words of the spanning layout. -/
def putSpanning (bits : Nat) (words : Array UInt64) (slot : UInt16) (i : Nat) : Array UInt64 :=
  let word := i * bits / 64
  let shift := i * bits % 64
  let words := words.modify word (· ||| slot.toUInt64 <<< UInt64.ofNat shift)
  if shift + bits > 64 then
    words.modify (word + 1) (· ||| slot.toUInt64 >>> UInt64.ofNat (64 - shift))
  else words

def putPadded (bits : Nat) (words : Array UInt64) (slot : UInt16) (i : Nat) : Array UInt64 :=
  words.modify (i / perWord bits)
    (· ||| slot.toUInt64 <<< UInt64.ofNat (i % perWord bits * bits))

def put (layout : Layout) (bits : Nat) (words : Array UInt64) (slot : UInt16 × Nat) :
    Array UInt64 :=
  match layout with
  | .spanning => putSpanning bits words slot.1 slot.2
  | .padded => putPadded bits words slot.1 slot.2

/-- Packs indices, `bits` bits each, into as few words as hold them. -/
def pack (layout : Layout) (bits : Nat) (slots : List UInt16) : Array UInt64 :=
  slots.zipIdx.foldl (put layout bits) (Array.replicate (wordCount layout bits slots.length) 0)

theorem size_put (layout : Layout) (bits : Nat) (words : Array UInt64) (slot : UInt16 × Nat) :
    (put layout bits words slot).size = words.size := by
  cases layout with
  | spanning =>
      simp only [put, putSpanning]
      split
      · simp
      · simp
  | padded => simp [put, putPadded]

theorem testBit_slot_of_le {slot : UInt16} {bits k : Nat} (hslot : slot.toNat < 2 ^ bits)
    (hk : bits ≤ k) : slot.toNat.testBit k = false := by
  apply Nat.testBit_lt_two_pow
  exact Nat.lt_of_lt_of_le hslot (Nat.pow_le_pow_right (by omega) hk)

/-- The bits that a slot sets in the word where it begins. -/
theorem bitAt_put_within {words : Array UInt64} {n shift bits : Nat} {slot : UInt16}
    (hn : n < words.size) (hslot : slot.toNat < 2 ^ bits) (hshift : shift < 64)
    (hfits : shift + bits ≤ 64) (p : Nat) :
    bitAt (words.modify n (· ||| slot.toUInt64 <<< UInt64.ofNat shift)) p =
      (bitAt words p || (decide (64 * n + shift ≤ p) &&
        slot.toNat.testBit (p - (64 * n + shift)))) := by
  rw [bitAt_modify hn, testBit_shiftLeft _ hshift, UInt16.toNat_toUInt64]
  congr 1
  have hmod : p % 64 < 64 := Nat.mod_lt _ (by omega)
  by_cases hword : p / 64 = n
  · have hle : (64 * n + shift ≤ p) ↔ shift ≤ p % 64 := by omega
    have hsub : p - (64 * n + shift) = p % 64 - shift := by omega
    simp [hword, hmod, hle, hsub]
  · by_cases hle : 64 * n + shift ≤ p
    -- behind the word the slot has no bits left
    · have hclear := testBit_slot_of_le hslot (show bits ≤ p - (64 * n + shift) by omega)
      simp [hword, hclear]
    · simp [hword, hle]

/-- The bits that a slot sets in the two words it straddles. -/
theorem bitAt_put_straddling {words : Array UInt64} {n shift bits : Nat} {slot : UInt16}
    (hn : n + 1 < words.size) (hslot : slot.toNat < 2 ^ bits) (hbits : bits < 64)
    (hshift : shift < 64) (hstraddle : 64 < shift + bits) (p : Nat) :
    bitAt ((words.modify n (· ||| slot.toUInt64 <<< UInt64.ofNat shift)).modify (n + 1)
        (· ||| slot.toUInt64 >>> UInt64.ofNat (64 - shift))) p =
      (bitAt words p || (decide (64 * n + shift ≤ p) &&
        slot.toNat.testBit (p - (64 * n + shift)))) := by
  rw [bitAt_modify (by simpa using hn), bitAt_modify (by omega), testBit_shiftLeft _ hshift,
    testBit_shiftRight _ (by omega), UInt16.toNat_toUInt64, Bool.or_assoc]
  congr 1
  have hmod : p % 64 < 64 := Nat.mod_lt _ (by omega)
  by_cases hfirst : p / 64 = n
  · have hle : (64 * n + shift ≤ p) ↔ shift ≤ p % 64 := by omega
    have hsub : p - (64 * n + shift) = p % 64 - shift := by omega
    simp [hfirst, hmod, hle, hsub]
  by_cases hsecond : p / 64 = n + 1
  · have hle : 64 * n + shift ≤ p := by omega
    have hsub : p - (64 * n + shift) = 64 - shift + p % 64 := by omega
    simp [hsecond, hle, hsub]
  · by_cases hle : 64 * n + shift ≤ p
    · have hclear := testBit_slot_of_le hslot (show bits ≤ p - (64 * n + shift) by omega)
      simp [hfirst, hsecond, hclear]
    · simp [hfirst, hsecond, hle]

/-- Putting an index sets its bits at its place, and no others. -/
theorem bitAt_put {layout : Layout} {bits i : Nat} {words : Array UInt64} {slot : UInt16}
    (hpos : 0 < bits) (hbits : bits < 64) (hslot : slot.toNat < 2 ^ bits)
    (hsize : start layout bits i + bits ≤ 64 * words.size) (p : Nat) :
    bitAt (put layout bits words (slot, i)) p =
      (bitAt words p || (decide (start layout bits i ≤ p) &&
        slot.toNat.testBit (p - start layout bits i))) := by
  cases layout with
  | spanning =>
      simp only [start, put, putSpanning] at hsize ⊢
      have hplace : 64 * (i * bits / 64) + i * bits % 64 = i * bits := Nat.div_add_mod _ _
      have hshift : i * bits % 64 < 64 := Nat.mod_lt _ (by omega)
      by_cases hstraddle : i * bits % 64 + bits > 64
      · have hsecond : i * bits / 64 + 1 < words.size := by omega
        have hput := bitAt_put_straddling hsecond hslot hbits hshift hstraddle p
        rw [if_pos hstraddle]
        rwa [hplace] at hput
      · have hword : i * bits / 64 < words.size := by omega
        have hput := bitAt_put_within hword hslot hshift (by omega) p
        rw [if_neg hstraddle]
        rwa [hplace] at hput
  | padded =>
      have hfits := padded_fits hpos (Nat.le_of_lt hbits) i
      simp only [start] at hsize
      have hword : i / perWord bits < words.size := by omega
      exact bitAt_put_within hword hslot (by omega) hfits p

theorem bitAt_foldl_put {layout : Layout} {bits : Nat} (hpos : 0 < bits) (hbits : bits < 64)
    (slots : List UInt16) (k : Nat) (words : Array UInt64)
    (hslots : ∀ slot ∈ slots, slot.toNat < 2 ^ bits)
    (hsize : ∀ i < k + slots.length, start layout bits i + bits ≤ 64 * words.size)
    (i j : Nat) (hj : j < bits) :
    bitAt ((slots.zipIdx k).foldl (put layout bits) words) (start layout bits i + j) =
      (bitAt words (start layout bits i + j) ||
        (decide (k ≤ i) && (slots.getD (i - k) 0).toNat.testBit j)) := by
  induction slots generalizing k words with
  | nil => simp
  | cons slot rest ih =>
      have hslot := hslots slot List.mem_cons_self
      have hhere := hsize k (by simp)
      rw [List.zipIdx_cons, List.foldl_cons, ih]
      · rw [bitAt_put hpos hbits hslot hhere, Bool.or_assoc]
        congr 1
        -- the bit looked at belongs to the index just put, an earlier or a later one
        rcases Nat.lt_trichotomy i k with hlt | rfl | hgt
        · have hapart : start layout bits i + bits ≤ start layout bits k :=
            start_add_le hpos (Nat.le_of_lt hbits) hlt
          have hbefore : ¬ start layout bits k ≤ start layout bits i + j := by omega
          have hnext : ¬ k + 1 ≤ i := by omega
          have hthis : ¬ k ≤ i := by omega
          simp [hbefore, hnext, hthis]
        · have hnext : ¬ i + 1 ≤ i := by omega
          simp [hnext]
        · have hapart : start layout bits k + bits ≤ start layout bits i :=
            start_add_le hpos (Nat.le_of_lt hbits) hgt
          have hclear := testBit_slot_of_le hslot
            (show bits ≤ start layout bits i + j - start layout bits k by omega)
          have hnext : k + 1 ≤ i := hgt
          have hthis : k ≤ i := by omega
          obtain ⟨d, rfl⟩ : ∃ d, i = k + 1 + d := ⟨i - (k + 1), by omega⟩
          have hsub : k + 1 + d - k = d + 1 := by omega
          simp [hclear, hthis, hsub]
      · intro other hother
        exact hslots other (List.mem_cons_of_mem _ hother)
      · intro i hi
        rw [size_put]
        exact hsize i (by simp only [List.length_cons]; omega)

theorem size_pack (layout : Layout) (bits : Nat) (slots : List UInt16) :
    (pack layout bits slots).size = wordCount layout bits slots.length := by
  have hsize (puts : List (UInt16 × Nat)) (words : Array UInt64) :
      (puts.foldl (put layout bits) words).size = words.size := by
    induction puts generalizing words with
    | nil => rfl
    | cons slot rest ih => rw [List.foldl_cons, ih, size_put]
  rw [pack, hsize, Array.size_replicate]

/-- Packed words hold every index at its place. -/
theorem bitAt_pack {layout : Layout} {bits : Nat} (hpos : 0 < bits) (hbits : bits < 64)
    {slots : List UInt16} (hslots : ∀ slot ∈ slots, slot.toNat < 2 ^ bits) {i j : Nat}
    (hj : j < bits) :
    bitAt (pack layout bits slots) (start layout bits i + j) =
      (slots.getD i 0).toNat.testBit j := by
  rw [pack, bitAt_foldl_put hpos hbits slots 0 _ hslots _ i j hj, bitAt_replicate]
  · simp
  · intro i hi
    rw [Array.size_replicate]
    exact start_add_le_wordCount hpos (Nat.le_of_lt hbits) (by omega)

/-! ### Reading what was written -/

/-- Every index is read back as it was packed, whatever words stand behind. -/
theorem field?_pack {layout : Layout} {bits : Nat} (hpos : 0 < bits) (hbits : bits < 64)
    {slots : List UInt16} (hslots : ∀ slot ∈ slots, slot.toNat < 2 ^ bits) (extra : Array UInt64)
    {i : Nat} (hi : i < slots.length) :
    field? layout bits (pack layout bits slots ++ extra) i = some slots[i].toUInt64 := by
  have hinside : start layout bits i + bits ≤ 64 * (pack layout bits slots).size := by
    rw [size_pack]
    exact start_add_le_wordCount hpos (Nat.le_of_lt hbits) hi
  have houtside : start layout bits i + bits ≤ 64 * (pack layout bits slots ++ extra).size := by
    rw [Array.size_append]
    omega
  obtain ⟨f, hf, hbit⟩ := field?_spec hpos hbits houtside
  rw [hf, Option.some_inj, ← UInt64.toNat_inj, UInt16.toNat_toUInt64]
  apply Nat.eq_of_testBit_eq
  intro j
  rw [hbit]
  by_cases hj : j < bits
  · rw [bitAt_append (by omega), bitAt_pack hpos hbits hslots hj]
    simp [hj, hi]
  · have hclear := testBit_slot_of_le (hslots slots[i] (List.getElem_mem hi)) (Nat.le_of_not_lt hj)
    simp [hj, hclear]

theorem mapM_eq_some_map {α β : Type} {f : α → Option β} {g : α → β} {l : List α}
    (h : ∀ a ∈ l, f a = some (g a)) : l.mapM f = some (l.map g) := by
  induction l with
  | nil => rfl
  | cons a rest ih =>
      have hrest : rest.mapM f = some (rest.map g) := by
        apply ih
        intro b hb
        exact h b (List.mem_cons_of_mem a hb)
      rw [List.mapM_cons, h a List.mem_cons_self, hrest]
      rfl

/-- Unpacking undoes packing, for every palette whose size a machine can tell
and every choice of slots that the width has room for. -/
theorem unpack_pack {layout : Layout} {names : Nat} (hnames : names ≤ 2 ^ 63)
    {slots : List UInt16} (hlength : slots.length = sectionVolume)
    (hslots : ∀ slot ∈ slots, slot.toNat < 2 ^ bitsPerIndex names) (extra : Array UInt64) :
    unpack layout names (pack layout (bitsPerIndex names) slots ++ extra) = .ok slots.toArray := by
  have hpos := bitsPerIndex_pos names
  have hbits := bitsPerIndex_lt hnames
  have henough : wordsNeeded layout (bitsPerIndex names) ≤
      (pack layout (bitsPerIndex names) slots ++ extra).size := by
    rw [Array.size_append, size_pack, hlength, wordsNeeded_eq_wordCount]
    omega
  have hfields : (List.range sectionVolume).mapM
      (field? layout (bitsPerIndex names) (pack layout (bitsPerIndex names) slots ++ extra)) =
      some ((List.range sectionVolume).map fun i => (slots.getD i 0).toUInt64) := by
    apply mapM_eq_some_map
    intro i hi
    have hi : i < slots.length := by
      rw [hlength]
      exact List.mem_range.mp hi
    rw [field?_pack hpos hbits hslots extra hi]
    simp [hi]
  -- a slot has 16 bits, so that keeping the low 16 bits of a field loses nothing
  have hback : ((List.range sectionVolume).map fun i => (slots.getD i 0).toUInt64).map
      UInt64.toUInt16 = slots := by
    rw [List.map_map, ← hlength]
    apply List.ext_getElem
    · simp
    · intro i hi _
      have hi : i < slots.length := by simpa using hi
      simp [hi]
  rw [unpack_of_mapM henough hfields, hback]

end TerrainMap.PackedIndices
