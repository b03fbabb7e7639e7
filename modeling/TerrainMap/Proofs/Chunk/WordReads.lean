import Mathlib.Algebra.Order.Floor.Div
import TerrainMap.Proofs.Chunk.Unpacking

/-!
Which words unpacking looks at, and what it asks of the arithmetic. On a strict
machine, which stops at a missing word, at a shift by a whole word and at a
division by zero, the program does the same as on the lenient one that unpacks
sections. So the check of the length, made once before the loop, covers whatever
the loop does.
-/

namespace TerrainMap.PackedIndices

/-- Stops at a missing word, a shift by 64 or more and a division by zero, and
keeps the numbers of the words it was asked for. -/
def Machine.strict (words : Array UInt64) : Machine (StateT (List Nat) Option) where
  read k := fun reads => words[k]?.map fun w => (w, reads ++ [k])
  shiftRight w s := fun reads => if s < 64 then some (w >>> UInt64.ofNat s, reads) else none
  shiftLeft w s := fun reads => if s < 64 then some (w <<< UInt64.ofNat s, reads) else none
  divide a b := fun reads => if b = 0 then none else some ((a / b, a % b), reads)

/-! ### The words of an index -/

/-- The words that the index number `i` is read from. -/
def wordsOf (layout : Layout) (bits i : Nat) : List Nat :=
  match layout with
  | .spanning =>
    if i * bits % 64 + bits > 64 then [i * bits / 64, i * bits / 64 + 1] else [i * bits / 64]
  | .padded => [i / perWord bits]

section Words

variable {layout : Layout} {bits i k : Nat} {words others : Array UInt64}

/-- They are those that hold bits of the index, and no others. -/
theorem mem_wordsOf (hpos : 0 < bits) (hbits : bits ≤ 64) :
    k ∈ wordsOf layout bits i ↔
      64 * k < start layout bits i + bits ∧ start layout bits i < 64 * (k + 1) := by
  cases layout with
  | spanning =>
      simp only [wordsOf, start]
      split
      · simp only [List.mem_cons, List.not_mem_nil, or_false]
        omega
      · rw [List.mem_singleton]
        omega
  | padded =>
      have hfits := padded_fits hpos hbits i
      rw [wordsOf, start, List.mem_singleton]
      omega

theorem lt_of_mem_wordsOf (hpos : 0 < bits) (hbits : bits ≤ 64) (hi : i < sectionVolume)
    (h : k ∈ wordsOf layout bits i) : k < wordsNeeded layout bits := by
  have hend : start layout bits i + bits ≤ 64 * wordCount layout bits sectionVolume :=
    start_add_le_wordCount hpos hbits hi
  have hk := ((mem_wordsOf hpos hbits).1 h).1
  rw [wordsNeeded_eq_wordCount]
  omega

/-- The last index has bits in the last of the words that are needed. -/
theorem last_mem_wordsOf (hpos : 0 < bits) (hbits : bits ≤ 64) :
    wordsNeeded layout bits - 1 ∈ wordsOf layout bits 4095 := by
  cases layout with
  | spanning =>
      rw [mem_wordsOf hpos hbits]
      simp only [start, wordsNeeded, sectionVolume]
      omega
  | padded =>
      have hper : 0 < perWord bits := perWord_pos hpos hbits
      have hcount : 4096 + perWord bits - 1 = 4095 + perWord bits := by omega
      rw [wordsOf, List.mem_singleton, wordsNeeded, sectionVolume, hcount,
        Nat.add_div_right 4095 hper]
      rfl

/-- An index depends on nothing but its words. -/
theorem field?_congr (h : ∀ k ∈ wordsOf layout bits i, others[k]? = words[k]?) :
    field? layout bits others i = field? layout bits words i := by
  cases layout with
  | spanning =>
      rw [wordsOf] at h
      split at h
      · next hstraddle =>
          simp only [field?, Machine.field, Machine.lenient, if_pos hstraddle,
            h _ List.mem_cons_self, h _ (List.mem_cons_of_mem _ List.mem_cons_self),
            Option.bind_eq_bind, Option.bind_some]
      · next hwithin =>
          simp only [field?, Machine.field, Machine.lenient, if_neg hwithin,
            h _ List.mem_cons_self, Option.bind_eq_bind, Option.bind_some]
  | padded =>
      simp only [wordsOf, perWord] at h
      simp only [field?, Machine.field, Machine.lenient, h _ List.mem_cons_self,
        Option.bind_eq_bind, Option.bind_some]

end Words

/-! ### The strict machine -/

section Strict

variable {words : Array UInt64}

@[simp] theorem strict_read {k : Nat} {w : UInt64} (h : words[k]? = some w) (reads : List Nat) :
    ((Machine.strict words).read k).run reads = some (w, reads ++ [k]) := by
  simp [Machine.strict, StateT.run, h]

@[simp] theorem strict_shiftRight {s : Nat} (h : s < 64) (w : UInt64) (reads : List Nat) :
    ((Machine.strict words).shiftRight w s).run reads = some (w >>> UInt64.ofNat s, reads) := by
  simp [Machine.strict, StateT.run, h]

@[simp] theorem strict_shiftLeft {s : Nat} (h : s < 64) (w : UInt64) (reads : List Nat) :
    ((Machine.strict words).shiftLeft w s).run reads = some (w <<< UInt64.ofNat s, reads) := by
  simp [Machine.strict, StateT.run, h]

@[simp] theorem strict_divide {b : Nat} (h : 0 < b) (a : Nat) (reads : List Nat) :
    ((Machine.strict words).divide a b).run reads = some ((a / b, a % b), reads) := by
  simp [Machine.strict, StateT.run, Nat.ne_of_gt h]

/-- The strict machine reads an index from its words, if all of them are there. -/
theorem strict_field {layout : Layout} {bits i : Nat} (hpos : 0 < bits) (hbits : bits < 64)
    (hsize : start layout bits i + bits ≤ 64 * words.size) :
    ∃ f, field? layout bits words i = some f ∧ ∀ reads,
      ((Machine.strict words).field layout bits (lowMask bits) i).run reads =
        some (f, reads ++ wordsOf layout bits i) := by
  cases layout with
  | spanning =>
      simp only [start] at hsize
      have hshift : i * bits % 64 < 64 := Nat.mod_lt _ (by decide)
      obtain ⟨w, hw⟩ : ∃ w, words[i * bits / 64]? = some w :=
        ⟨_, Array.getElem?_eq_getElem (by omega)⟩
      by_cases hstraddle : i * bits % 64 + bits > 64
      · obtain ⟨w', hw'⟩ : ∃ w', words[i * bits / 64 + 1]? = some w' :=
          ⟨_, Array.getElem?_eq_getElem (by omega)⟩
        -- an index that begins with its word does not straddle
        have hback : 64 - i * bits % 64 < 64 := by omega
        refine ⟨_, field?_spanning_of_straddle hstraddle hw hw', fun reads => ?_⟩
        simp [Machine.field, wordsOf, hw, hw', hshift, hback, hstraddle]
      · refine ⟨_, field?_spanning_of_within hstraddle hw, fun reads => ?_⟩
        simp [Machine.field, wordsOf, hw, hshift, hstraddle]
  | padded =>
      simp only [start] at hsize
      have hfits := padded_fits hpos (Nat.le_of_lt hbits) i
      have hper : 0 < 64 / bits := perWord_pos hpos (Nat.le_of_lt hbits)
      obtain ⟨w, hw⟩ : ∃ w, words[i / perWord bits]? = some w :=
        ⟨_, Array.getElem?_eq_getElem (by omega)⟩
      have hshift : i % perWord bits * bits < 64 := by omega
      refine ⟨_, field?_padded hw, fun reads => ?_⟩
      rw [perWord] at hw hshift
      simp [Machine.field, wordsOf, perWord, hw, hshift, hpos, hper]

theorem strict_wordsNeeded {bits : Nat} (hpos : 0 < bits) (hbits : bits ≤ 64) (layout : Layout)
    (reads : List Nat) :
    ((Machine.strict words).wordsNeeded layout bits).run reads =
      some (wordsNeeded layout bits, reads) := by
  cases layout with
  | spanning => simp [Machine.wordsNeeded, wordsNeeded]
  | padded =>
      have hper : 0 < 64 / bits := perWord_pos hpos hbits
      simp [Machine.wordsNeeded, wordsNeeded, perWord, hpos, hper]

end Strict

/-- A loop whose every round adds to a list adds all of it in its order. -/
theorem run_mapM_eq_append {α β σ : Type} {g : α → StateT (List σ) Option β} {f : α → β}
    {added : α → List σ} {l : List α}
    (h : ∀ a ∈ l, ∀ s, (g a).run s = some (f a, s ++ added a)) (s : List σ) :
    (l.mapM g).run s = some (l.map f, s ++ l.flatMap added) := by
  induction l generalizing s with
  | nil => simp
  | cons a rest ih =>
      have hrest := ih fun b hb => h b (List.mem_cons_of_mem a hb)
      simp only [List.mapM_cons, StateT.run_bind, h a List.mem_cons_self, hrest,
        Option.bind_eq_bind, Option.bind_some, StateT.run_pure, Option.pure_def, List.map_cons,
        List.flatMap_cons, List.append_assoc]

section Unpacking

variable {layout : Layout} {names : Nat} {words : Array UInt64}

/-- What is unpacked consists of the fields, one for each block of the section. -/
theorem unpack_of_fields {value : Nat → UInt64}
    (h : wordsNeeded layout (bitsPerIndex names) ≤ words.size)
    (hvalue : ∀ i < sectionVolume, field? layout (bitsPerIndex names) words i = some (value i)) :
    unpack layout names words =
      .ok (((List.range sectionVolume).map value).map UInt64.toUInt16).toArray :=
  unpack_of_mapM h (mapM_eq_some_map fun i hi => hvalue i (List.mem_range.1 hi))

/-- The fields that the strict machine reads, each from its words. -/
theorem exists_fields (hnames : names ≤ 2 ^ 63)
    (h : wordsNeeded layout (bitsPerIndex names) ≤ words.size) :
    ∃ value : Nat → UInt64, ∀ i < sectionVolume,
      field? layout (bitsPerIndex names) words i = some (value i) ∧ ∀ reads,
        ((Machine.strict words).field layout (bitsPerIndex names)
          (lowMask (bitsPerIndex names)) i).run reads =
          some (value i, reads ++ wordsOf layout (bitsPerIndex names) i) := by
  have hpos := bitsPerIndex_pos names
  have hbits := bitsPerIndex_lt hnames
  refine ⟨fun i => (field? layout (bitsPerIndex names) words i).getD 0, fun i hi => ?_⟩
  have hsize : start layout (bitsPerIndex names) i + bitsPerIndex names ≤ 64 * words.size := by
    rw [wordsNeeded_eq_wordCount] at h
    exact Nat.le_trans (start_add_le_wordCount hpos (Nat.le_of_lt hbits) hi)
      (Nat.mul_le_mul_left 64 h)
  obtain ⟨f, hf, hrun⟩ := strict_field hpos hbits hsize
  simp only [hf, Option.getD_some]
  exact ⟨trivial, hrun⟩

/-- The strict machine unpacks what the lenient one does. -/
theorem strict_unpack (hnames : names ≤ 2 ^ 63) (layout : Layout) (words : Array UInt64) :
    ((Machine.strict words).unpack layout names words.size).run [] =
      some (unpack layout names words,
        if words.size < wordsNeeded layout (bitsPerIndex names) then []
        else (List.range sectionVolume).flatMap (wordsOf layout (bitsPerIndex names))) := by
  have hpos := bitsPerIndex_pos names
  have hbits := bitsPerIndex_lt hnames
  simp only [Machine.unpack, StateT.run_bind, strict_shiftLeft hbits,
    strict_wordsNeeded hpos (Nat.le_of_lt hbits), Option.bind_eq_bind, Option.bind_some]
  rw [← lowMask]
  by_cases h : words.size < wordsNeeded layout (bitsPerIndex names)
  · rw [if_pos h, if_pos h, unpack_of_lt h]
    rfl
  · obtain ⟨value, hvalue⟩ := exists_fields hnames (Nat.le_of_not_lt h)
    have hloop := run_mapM_eq_append (fun i hi => (hvalue i (List.mem_range.1 hi)).2) []
    rw [if_neg h, if_neg h, unpack_of_fields (Nat.le_of_not_lt h) fun i hi => (hvalue i hi).1,
      StateT.run_bind, hloop, List.nil_append, Option.bind_eq_bind, Option.bind_some,
      StateT.run_pure, Option.pure_def]

/-- Words behind those that are needed may be others, or may be missing. -/
theorem unpack_congr (hnames : names ≤ 2 ^ 63) {others : Array UInt64}
    (h : ∀ k < wordsNeeded layout (bitsPerIndex names), others[k]? = words[k]?) :
    unpack layout names others = unpack layout names words := by
  have hpos := bitsPerIndex_pos names
  have hbits := bitsPerIndex_lt hnames
  have hsize (k : Nat) (hk : k < wordsNeeded layout (bitsPerIndex names)) :
      others.size ≤ k ↔ words.size ≤ k := by
    rw [← Array.getElem?_eq_none_iff, ← Array.getElem?_eq_none_iff, h k hk]
  by_cases hfew : words.size < wordsNeeded layout (bitsPerIndex names)
  · have heq : others.size = words.size := by
      have hend := hsize words.size hfew
      have hlast := hsize (words.size - 1) (by omega)
      omega
    rw [unpack_of_lt hfew, unpack_of_lt (by rw [heq]; exact hfew), heq]
  · obtain ⟨value, hvalue⟩ := exists_fields hnames (Nat.le_of_not_lt hfew)
    have hothers : wordsNeeded layout (bitsPerIndex names) ≤ others.size := by
      have hlast := hsize (wordsNeeded layout (bitsPerIndex names) - 1)
      omega
    rw [unpack_of_fields (Nat.le_of_not_lt hfew) fun i hi => (hvalue i hi).1]
    refine unpack_of_fields hothers fun i hi => ?_
    rw [field?_congr fun k hk => h k (lt_of_mem_wordsOf hpos (Nat.le_of_lt hbits) hi hk)]
    exact (hvalue i hi).1

/-- **The check of the length is exact.** As many words are needed as hold 4096
indices, and the number of words alone decides: fewer are refused, and with
enough of them there is a slot for every block, made of the lowest bits of its
index. On a machine that stops at missing words, at shifts by 64 and at
divisions by zero nothing else happens. Only needed words are read, the last of
them always, and what stands behind them changes nothing. -/
theorem length_check_is_exact (layout : Layout) {names : Nat} (hnames : names ≤ 2 ^ 63)
    (words : Array UInt64) :
    let bits := bitsPerIndex names
    let needed := match layout with
      | .spanning => 64 * bits
      | .padded => 4096 ⌈/⌉ (64 / bits)
    unpack layout names words =
        ((Machine.lenient words).unpack layout names words.size).getD (.error .crash) ∧
      (unpack layout names words = .fail ⟨words.size, needed, bits⟩ ↔ words.size < needed) ∧
      (needed ≤ words.size → ∃ indices, unpack layout names words = .ok indices ∧
        indices.size = 4096 ∧ ∀ i < 4096, ∃ slot, indices[i]? = some slot ∧
          IsIndex layout bits words i slot) ∧
      (∃ reads, ((Machine.strict words).unpack layout names words.size).run [] =
          some (unpack layout names words, reads) ∧
        (∀ k ∈ reads, k < needed) ∧ (needed ≤ words.size → needed - 1 ∈ reads)) ∧
      ∀ others : Array UInt64, (∀ k < needed, others[k]? = words[k]?) →
        unpack layout names others = unpack layout names words := by
  intro bits needed
  have hpos : 0 < bits := bitsPerIndex_pos names
  have hbits : bits ≤ 64 := Nat.le_of_lt (bitsPerIndex_lt hnames)
  have hneeded : needed = wordsNeeded layout bits := by
    cases layout with
    | spanning =>
        simp only [needed, wordsNeeded, sectionVolume]
        omega
    | padded => rfl
  rw [hneeded]
  refine ⟨rfl, ⟨fun hfail => ?_, unpack_of_lt⟩,
    unpack_of_le hnames, ⟨_, strict_unpack hnames layout words, fun k hk => ?_, fun h => ?_⟩,
    fun others => unpack_congr hnames⟩
  · by_contra henough
    obtain ⟨indices, hok, -⟩ := unpack_of_le hnames (Nat.le_of_not_lt henough)
    rw [hok] at hfail
    cases hfail
  · split at hk
    · cases hk
    · obtain ⟨i, hi, hk⟩ := List.mem_flatMap.1 hk
      exact lt_of_mem_wordsOf hpos hbits (List.mem_range.1 hi) hk
  · rw [if_neg (Nat.not_lt.2 h), List.mem_flatMap]
    exact ⟨4095, List.mem_range.2 (by decide), last_mem_wordsOf hpos hbits⟩

/-- A palette of 33 names has indices of six bits, so that 384 words are needed
in the spanning layout and 410 in the padded one. One word less is refused, and
a longer array is read as far as its 384 words. -/
theorem words_for_33_names :
    33 ≤ 2 ^ 63 ∧
      unpack .spanning 33 (Array.replicate 383 7) = .fail ⟨383, 384, 6⟩ ∧
      unpack .padded 33 (Array.replicate 409 7) = .fail ⟨409, 410, 6⟩ ∧
      unpack .spanning 33 (Array.replicate 385 7) = unpack .spanning 33 (Array.replicate 384 7) ∧
      ∃ reads, ((Machine.strict (Array.replicate 385 7)).unpack .spanning 33 385).run [] =
          some (unpack .spanning 33 (Array.replicate 385 7), reads) ∧
        383 ∈ reads ∧ 384 ∉ reads := by
  have hnames : 33 ≤ 2 ^ 63 := by decide
  obtain ⟨-, hshort, -⟩ := length_check_is_exact .spanning hnames (Array.replicate 383 7)
  obtain ⟨-, hpadded, -⟩ := length_check_is_exact .padded hnames (Array.replicate 409 7)
  obtain ⟨-, -, -, ⟨reads, hrun, hread, hlast⟩, -⟩ :=
    length_check_is_exact .spanning hnames (Array.replicate 385 7)
  obtain ⟨-, -, -, -, hothers⟩ := length_check_is_exact .spanning hnames (Array.replicate 384 7)
  have hbits : bitsPerIndex 33 = 6 := by decide
  rw [hbits, Array.size_replicate] at hshort hpadded hlast
  rw [Array.size_replicate] at hrun
  rw [hbits] at hread hothers
  refine ⟨hnames, hshort.2 (by decide), hpadded.2 (by decide), hothers _ fun k hk => ?_,
    reads, hrun, hlast (by decide), fun hmem => absurd (hread 384 hmem) (by decide)⟩
  have hk : k < 384 := hk
  rw [Array.getElem?_replicate, Array.getElem?_replicate, if_pos hk, if_pos (by omega)]

end Unpacking

end TerrainMap.PackedIndices
