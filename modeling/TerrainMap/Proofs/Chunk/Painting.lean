import Mathlib.Data.List.Induction
import Mathlib.Data.List.Nodup
import TerrainMap.Chunk.Painted

/-!
Chunks under construction, whatever was written to them. A slot is read as a
name, and names are only ever added behind the ones there are, so that what was
written stays what it was. A write fills its column up with the slot of the first
name, which is air, and air is what was read there before.
-/

namespace TerrainMap.Chunk.PaintedChunk

/-- A change to a chunk under construction. -/
inductive Edit where
  | set (x y z : Nat) (id : String)
  | fill (x z top : Nat) (id : String)
  deriving DecidableEq, Repr

def edit (c : PaintedChunk) : Edit → PaintedChunk
  | .set x y z id => c.setBlock x y z id
  | .fill x z top id => c.fillColumn x z top id

def ofEdits (edits : List Edit) : PaintedChunk := edits.foldl edit empty

/-- Every slot has a name, and the first of the names is air. -/
structure IsSound (c : PaintedChunk) : Prop where
  columns : c.columns.size = 256
  heights : ∀ column ∈ c.columns, column.size ≤ 256
  slots : ∀ column ∈ c.columns, ∀ slot ∈ column, slot.toNat < c.names.size
  air : c.names[0]? = some "air"
  nodup : c.names.toList.Nodup

/-- The position is one of the 16 × 256 × 16 positions of a chunk. -/
def Inside (x y z : Nat) : Prop := x < 16 ∧ z < 16 ∧ y < 256

instance (x y z : Nat) : Decidable (Inside x y z) := inferInstanceAs (Decidable (_ ∧ _ ∧ _))

/-! ### Names -/

/-- The names after one of them was asked for. -/
def intern (names : Array String) (name : String) : Array String :=
  if name ∈ names then names else names.push name

/-- The number that a name has among the names, and that a new name will get. -/
def ordinal (names : Array String) (name : String) : Nat := names.toList.idxOf name

/-- The number of a name, cut to the sixteen bits of a slot. -/
def slotOf (names : Array String) (name : String) : UInt16 := UInt16.ofNat (ordinal names name)

theorem slotFor_eq (names : Array String) (name : String) :
    slotFor names name = (intern names name, slotOf names name) := by
  obtain ⟨names⟩ := names
  rw [slotFor, intern, slotOf, ordinal, List.findIdx?_toArray]
  cases hfind : names.findIdx? (· == name) with
  | none =>
      have hnew : name ∉ names := by
        intro hmem
        simpa using List.findIdx?_eq_none_iff.1 hfind name hmem
      rw [if_neg (by simpa using hnew), List.idxOf_eq_length hnew, List.size_toArray]
  | some i =>
      obtain ⟨hlt, hindex⟩ := List.findIdx?_eq_some_iff_findIdx_eq.1 hfind
      have hmem : name ∈ names := by
        rw [← List.idxOf_lt_length_iff, List.idxOf, hindex]
        exact hlt
      rw [if_pos (by simpa using hmem), ← hindex, List.idxOf]

section Names

variable {names : Array String} {name : String}

theorem toList_intern (names : Array String) (name : String) :
    (intern names name).toList =
      if name ∈ names.toList then names.toList else names.toList ++ [name] := by
  rw [intern]
  simp only [Array.mem_toList_iff]
  split
  · rfl
  · exact Array.toList_push

theorem mem_intern (names : Array String) (name : String) : name ∈ intern names name := by
  rw [intern]
  split
  · assumption
  · exact Array.mem_push_self

theorem intern_of_mem (h : name ∈ names) : intern names name = names := if_pos h

theorem ordinal_intern (names : Array String) (name : String) :
    ordinal (intern names name) name = ordinal names name := by
  rw [ordinal, ordinal, toList_intern]
  split
  · rfl
  · next hnew => rw [List.idxOf_append_of_notMem hnew, List.idxOf_eq_length hnew]; simp

theorem ordinal_lt (h : name ∈ names) : ordinal names name < names.size := by
  rw [ordinal, ← Array.length_toList]
  exact List.idxOf_lt_length_iff.2 (Array.mem_toList_iff.2 h)

theorem size_le_intern (names : Array String) (name : String) :
    names.size ≤ (intern names name).size := by
  rw [intern]
  split
  · exact Nat.le_refl _
  · rw [Array.size_push]
    exact Nat.le_succ _

theorem getElem?_intern {i : Nat} (h : i < names.size) :
    (intern names name)[i]? = names[i]? := by
  rw [intern]
  split
  · rfl
  · rw [Array.getElem?_push, if_neg (Nat.ne_of_lt h)]

theorem nodup_intern (h : names.toList.Nodup) : (intern names name).toList.Nodup := by
  rw [toList_intern]
  split
  · exact h
  · next hnew =>
      rw [← List.concat_eq_append]
      exact h.concat hnew

end Names

/-- What a slot is read as, or the place above a column. -/
def nameAt (names : Array String) : Option UInt16 → Option String
  | none => some "air"
  | some slot => names[slot.toNat]?

/-! ### Columns -/

theorem getElem?_writeSlot (column : Array UInt16) (y : Nat) (slot : UInt16) (y' : Nat) :
    (writeSlot column y slot)[y']? =
      if y' = y then some slot
      else if y' < column.size then column[y']? else if y' < y then some 0 else none := by
  rw [writeSlot, Array.getElem?_setIfInBounds, Array.size_append, Array.size_replicate,
    Array.getElem?_append, Array.getElem?_replicate]
  by_cases hself : y' = y
  · subst hself
    rw [if_pos rfl, if_pos (by omega), if_pos rfl]
  · rw [if_neg (Ne.symm hself), if_neg hself]
    split
    · rfl
    · congr 1
      rw [eq_iff_iff]
      omega

theorem size_writeSlot (column : Array UInt16) (y : Nat) (slot : UInt16) :
    (writeSlot column y slot).size = max column.size (y + 1) := by
  rw [writeSlot, Array.size_setIfInBounds, Array.size_append, Array.size_replicate]
  omega

theorem mem_writeSlot {column : Array UInt16} {y : Nat} {slot s : UInt16}
    (h : s ∈ writeSlot column y slot) : s = slot ∨ s ∈ column ∨ s = 0 := by
  obtain ⟨y', hy'⟩ := Array.mem_iff_getElem?.1 h
  rw [getElem?_writeSlot] at hy'
  split at hy'
  · exact .inl (Option.some.inj hy').symm
  · split at hy'
    · exact .inr (.inl (Array.mem_iff_getElem?.2 ⟨y', hy'⟩))
    · split at hy'
      · exact .inr (.inr (Option.some.inj hy').symm)
      · cases hy'

variable {c : PaintedChunk} {x y z : Nat} {id : String}

theorem setBlock_of_not_inside (h : ¬ Inside x y z) (c : PaintedChunk) (id : String) :
    c.setBlock x y z id = c := by
  rw [setBlock, if_pos]
  simp only [Inside] at h
  simp only [chunkEdge, worldHeight]
  omega

theorem setBlock_of_inside (h : Inside x y z) (c : PaintedChunk) (id : String) :
    c.setBlock x y z id =
      ⟨intern c.names (Block.normalize id), c.columns.modify (columnIndex x z)
        (writeSlot · y (slotOf c.names (Block.normalize id)))⟩ := by
  rw [setBlock, if_neg, slotFor_eq]
  simp only [Inside] at h
  simp only [chunkEdge, worldHeight]
  omega

theorem names_setBlock (h : Inside x y z) (c : PaintedChunk) (id : String) :
    (c.setBlock x y z id).names = intern c.names (Block.normalize id) := by
  rw [setBlock_of_inside h]

theorem columnIndex_inj {x' z' : Nat} (hx : x < 16) (hx' : x' < 16) :
    columnIndex x z = columnIndex x' z' ↔ x = x' ∧ z = z' := by
  simp only [columnIndex, chunkEdge]
  omega

theorem getElem?_setBlock (h : Inside x y z) {x' : Nat} (hx' : x' < 16) (z' : Nat)
    (c : PaintedChunk) (id : String) :
    (c.setBlock x y z id).columns[columnIndex x' z']? =
      if x = x' ∧ z = z' then
        c.columns[columnIndex x' z']?.map (writeSlot · y (slotOf c.names (Block.normalize id)))
      else c.columns[columnIndex x' z']? := by
  rw [setBlock_of_inside h, Array.getElem?_modify]
  simp only [columnIndex_inj h.1 hx']

/-! ### Soundness -/

theorem isSound_empty : empty.IsSound where
  columns := Array.size_replicate
  heights := by
    intro column hmem
    rw [(Array.mem_replicate.1 hmem).2]
    exact Nat.zero_le _
  slots := by
    intro column hmem slot hslot
    rw [(Array.mem_replicate.1 hmem).2] at hslot
    exact absurd hslot (Array.not_mem_empty slot)
  air := rfl
  nodup := List.nodup_singleton _

/-- Also a slot that was cut is the slot of some name. -/
theorem toNat_slotOf_lt (names : Array String) (name : String) :
    (slotOf names name).toNat < (intern names name).size := by
  have hlt := ordinal_lt (mem_intern names name)
  rw [ordinal_intern] at hlt
  rw [slotOf, UInt16.toNat_ofNat']
  exact Nat.lt_of_le_of_lt (Nat.mod_le _ _) hlt

theorem mem_modify_writeSlot {columns : Array (Array UInt16)} {column : Array UInt16} {i : Nat}
    {slot : UInt16} (h : column ∈ columns.modify i (writeSlot · y slot)) :
    column ∈ columns ∨ ∃ old ∈ columns, column = writeSlot old y slot := by
  obtain ⟨j, hj⟩ := Array.mem_iff_getElem?.1 h
  rw [Array.getElem?_modify] at hj
  split at hj
  · obtain ⟨old, hold, rfl⟩ := Option.map_eq_some_iff.1 hj
    exact .inr ⟨old, Array.mem_iff_getElem?.2 ⟨j, hold⟩, rfl⟩
  · exact .inl (Array.mem_iff_getElem?.2 ⟨j, hj⟩)

theorem IsSound.setBlock (hc : c.IsSound) (x y z : Nat) (id : String) :
    (c.setBlock x y z id).IsSound := by
  by_cases hin : Inside x y z
  swap
  · rwa [setBlock_of_not_inside hin]
  rw [setBlock_of_inside hin]
  have hgrown := size_le_intern c.names (Block.normalize id)
  have hfirst : 0 < c.names.size := (Array.getElem?_eq_some_iff.1 hc.air).1
  constructor
  case columns => exact Array.size_modify.trans hc.columns
  case heights =>
    intro column hmem
    rcases mem_modify_writeSlot hmem with hold | ⟨old, hold, rfl⟩
    · exact hc.heights column hold
    · rw [size_writeSlot]
      exact Nat.max_le.2 ⟨hc.heights old hold, hin.2.2⟩
  case slots =>
    intro column hmem slot hslot
    rcases mem_modify_writeSlot hmem with hold | ⟨old, hold, rfl⟩
    · exact Nat.lt_of_lt_of_le (hc.slots column hold slot hslot) hgrown
    · rcases mem_writeSlot hslot with rfl | hslot | rfl
      · exact toNat_slotOf_lt _ _
      · exact Nat.lt_of_lt_of_le (hc.slots old hold slot hslot) hgrown
      · exact Nat.lt_of_lt_of_le hfirst hgrown
  case air => exact (getElem?_intern hfirst).trans hc.air
  case nodup => exact nodup_intern hc.nodup

/-! ### Readings -/

theorem block?_of_not_lt (h : ¬ (x < 16 ∧ z < 16)) (c : PaintedChunk) (y : Nat) :
    c.block? x y z = some "air" := by
  rw [block?, if_pos]
  · rfl
  · simp only [chunkEdge]
    omega

theorem block?_of_column (hx : x < 16) (hz : z < 16) {column : Array UInt16}
    (h : c.columns[columnIndex x z]? = some column) (y : Nat) :
    c.block? x y z = nameAt c.names column[y]? := by
  rw [block?, if_neg, h]
  · cases hslot : column[y]? with
    | none => simp [nameAt, hslot, Block.air]
    | some slot => simp [nameAt, hslot]
  · simp only [chunkEdge]
    omega

theorem IsSound.exists_column (hc : c.IsSound) (hx : x < 16) (hz : z < 16) :
    ∃ column ∈ c.columns, c.columns[columnIndex x z]? = some column := by
  have hlt : columnIndex x z < c.columns.size := by
    rw [hc.columns, columnIndex, chunkEdge]
    omega
  exact ⟨_, Array.getElem_mem hlt, Array.getElem?_eq_getElem hlt⟩

/-- Every position can be read. -/
theorem IsSound.exists_block? (hc : c.IsSound) (x y z : Nat) :
    ∃ name, c.block? x y z = some name := by
  by_cases h : x < 16 ∧ z < 16
  · obtain ⟨column, hmem, hcolumn⟩ := hc.exists_column h.1 h.2
    rw [block?_of_column h.1 h.2 hcolumn]
    cases hslot : column[y]? with
    | none => exact ⟨_, rfl⟩
    | some slot =>
        have hlt := hc.slots column hmem slot (Array.mem_iff_getElem?.2 ⟨y, hslot⟩)
        exact ⟨_, Array.getElem?_eq_getElem hlt⟩
  · exact ⟨_, block?_of_not_lt h c y⟩

theorem IsSound.block?_of_not_inside (hc : c.IsSound) (h : ¬ Inside x y z) :
    c.block? x y z = some "air" := by
  by_cases hin : x < 16 ∧ z < 16
  · obtain ⟨column, hmem, hcolumn⟩ := hc.exists_column hin.1 hin.2
    have hheight := hc.heights column hmem
    simp only [Inside] at h
    rw [block?_of_column hin.1 hin.2 hcolumn, Array.getElem?_eq_none (by omega), nameAt]
  · exact block?_of_not_lt hin c y

/-- A slot that had a name keeps it. -/
theorem nameAt_intern {names : Array String} {name : String} {slot : Option UInt16}
    (h : ∀ s ∈ slot, s.toNat < names.size) :
    nameAt (intern names name) slot = nameAt names slot := by
  cases slot with
  | none => rfl
  | some s => exact getElem?_intern (h s rfl)

theorem IsSound.nameAt_filler (hc : c.IsSound) (name : String) :
    nameAt (intern c.names name) (some 0) = some "air" :=
  (getElem?_intern (Array.getElem?_eq_some_iff.1 hc.air).1).trans hc.air

/-- A write changes the reading of no position but its own. -/
theorem IsSound.block?_setBlock_of_ne (hc : c.IsSound) {x' y' z' : Nat}
    (hne : (x', y', z') ≠ (x, y, z)) (id : String) :
    (c.setBlock x y z id).block? x' y' z' = c.block? x' y' z' := by
  by_cases hin : Inside x y z
  swap
  · rw [setBlock_of_not_inside hin]
  by_cases hread : x' < 16 ∧ z' < 16
  swap
  · rw [block?_of_not_lt hread, block?_of_not_lt hread]
  obtain ⟨column, hmem, hcolumn⟩ := hc.exists_column hread.1 hread.2
  have hslots : ∀ s ∈ column[y']?, s.toNat < c.names.size :=
    fun s hs => hc.slots column hmem s (Array.mem_iff_getElem?.2 ⟨y', hs⟩)
  have hnow := getElem?_setBlock hin hread.1 z' c id
  rw [block?_of_column hread.1 hread.2 hcolumn]
  by_cases hsame : x = x' ∧ z = z'
  · obtain ⟨rfl, rfl⟩ := hsame
    have hy : y' ≠ y := by
      rintro rfl
      exact hne rfl
    rw [if_pos ⟨rfl, rfl⟩, hcolumn, Option.map_some] at hnow
    rw [block?_of_column hread.1 hread.2 hnow, names_setBlock hin, getElem?_writeSlot, if_neg hy]
    split
    · exact nameAt_intern hslots
    · next habove =>
        -- above the old top of the column both read as air
        rw [Array.getElem?_eq_none (Nat.le_of_not_lt habove)]
        split
        · exact hc.nameAt_filler _
        · rfl
  · rw [if_neg hsame, hcolumn] at hnow
    rw [block?_of_column hread.1 hread.2 hnow, names_setBlock hin]
    exact nameAt_intern hslots

/-- A block that was just written is read as the name that its slot stands for. -/
theorem IsSound.block?_setBlock_self (hc : c.IsSound) (hin : Inside x y z) (id : String) :
    (c.setBlock x y z id).block? x y z =
      (intern c.names (Block.normalize id))[ordinal c.names (Block.normalize id) % 65536]? := by
  obtain ⟨column, -, hcolumn⟩ := hc.exists_column hin.1 hin.2.1
  have hnow := getElem?_setBlock hin hin.1 z c id
  rw [if_pos ⟨rfl, rfl⟩, hcolumn, Option.map_some] at hnow
  rw [block?_of_column hin.1 hin.2.1 hnow, names_setBlock hin, getElem?_writeSlot, if_pos rfl,
    nameAt, slotOf, UInt16.toNat_ofNat']

/-! ### Fillings -/

theorem stackBlocks_succ (c : PaintedChunk) (x z : Nat) (id : String) (count : Nat) :
    c.stackBlocks x z id (count + 1) = (c.stackBlocks x z id count).setBlock x count z id :=
  Nat.fold_succ count _ c

theorem IsSound.stackBlocks (hc : c.IsSound) (x z : Nat) (id : String) (count : Nat) :
    (c.stackBlocks x z id count).IsSound := by
  induction count with
  | zero => exact hc
  | succ count ih =>
      rw [stackBlocks_succ]
      exact ih.setBlock x count z id

theorem IsSound.block?_stackBlocks (hc : c.IsSound) {x' y' z' count : Nat}
    (hne : ¬ (x' = x ∧ z' = z ∧ y' < count)) (id : String) :
    (c.stackBlocks x z id count).block? x' y' z' = c.block? x' y' z' := by
  induction count with
  | zero => rfl
  | succ count ih =>
      have hplace : (x', y', z') ≠ (x, count, z) := by
        simp only [ne_eq, Prod.mk.injEq]
        omega
      rw [stackBlocks_succ, (hc.stackBlocks x z id count).block?_setBlock_of_ne hplace, ih]
      omega

theorem IsSound.edit (hc : c.IsSound) (e : Edit) : (c.edit e).IsSound := by
  cases e with
  | set x y z id => exact hc.setBlock x y z id
  | fill x z top id => exact hc.stackBlocks x z id _

theorem isSound_ofEdits (edits : List Edit) : (ofEdits edits).IsSound := by
  induction edits using List.reverseRecOn with
  | nil => exact isSound_empty
  | append_singleton edits e ih =>
      rw [ofEdits, List.foldl_concat]
      exact ih.edit e

/-- What can be read of a chunk, and what a write to it does not change. -/
structure WritesInPlace (c : PaintedChunk) : Prop where
  read : ∀ x y z, ∃ name, c.block? x y z = some name
  outside : ∀ x y z, ¬ Inside x y z → c.block? x y z = some "air"
  ignored : ∀ x y z id, ¬ Inside x y z →
    ∀ x' y' z', (c.setBlock x y z id).block? x' y' z' = c.block? x' y' z'
  set : ∀ x y z id, Inside x y z → ∀ x' y' z', (x', y', z') ≠ (x, y, z) →
    (c.setBlock x y z id).block? x' y' z' = c.block? x' y' z'
  above : ∀ x y z id, Inside x y z →
    ∀ column, c.columns[columnIndex x z]? = some column →
      ∀ y', column.size ≤ y' → y' ≠ y →
        c.block? x y' z = some "air" ∧ (c.setBlock x y z id).block? x y' z = some "air"
  fill : ∀ x z top id x' y' z', ¬ (x' = x ∧ z' = z ∧ y' ≤ min top 255) →
    (c.fillColumn x z top id).block? x' y' z' = c.block? x' y' z'

theorem IsSound.writesInPlace (hc : c.IsSound) : c.WritesInPlace where
  read := hc.exists_block?
  outside _ _ _ := hc.block?_of_not_inside
  ignored x y z id hout x' y' z' := by rw [setBlock_of_not_inside hout]
  set _ _ _ id _ _ _ _ hne := hc.block?_setBlock_of_ne hne id
  above x y z id hin column hcolumn y' habove hy := by
    have hair : c.block? x y' z = some "air" := by
      rw [block?_of_column hin.1 hin.2.1 hcolumn, Array.getElem?_eq_none habove, nameAt]
    have hplace : (x, y', z) ≠ (x, y, z) := by simpa using hy
    exact ⟨hair, (hc.block?_setBlock_of_ne hplace id).trans hair⟩
  fill x z top id x' y' z' hne := by
    refine hc.block?_stackBlocks ?_ id
    simp only [worldHeight]
    omega

/-- **Writes touch nothing but their own place, and reads never fail.** However
a chunk was written, each of its slots has a name, the first of which is air.
So every position can be read, what lies outside reads as air, and a write
changes no reading but that of the positions it names. -/
theorem writes_stay_in_place (edits : List Edit) :
    (ofEdits edits).IsSound ∧ (ofEdits edits).WritesInPlace ∧
      ∀ c : PaintedChunk, c.IsSound → ∀ e, (c.edit e).IsSound :=
  ⟨isSound_ofEdits edits, (isSound_ofEdits edits).writesInPlace, fun _ hc e => hc.edit e⟩

/-- Five blocks of stone, and dirt that floats above them. -/
def floatingDirt : List Edit := [.fill 2 3 4 "minecraft:stone", .set 2 9 3 "dirt"]

/-- The dirt stays where it is when stone is put high above it, or when sand is
filled in below it, and air stays air in between. -/
theorem floating_dirt_stays :
    Inside 2 20 3 ∧ (ofEdits floatingDirt).block? 2 9 3 = some "dirt" ∧
      ((ofEdits floatingDirt).setBlock 2 20 3 "stone").block? 2 9 3 = some "dirt" ∧
      ((ofEdits floatingDirt).setBlock 2 20 3 "stone").block? 2 15 3 = some "air" ∧
      ((ofEdits floatingDirt).fillColumn 2 3 8 "sand").block? 2 9 3 = some "dirt" ∧
      ((ofEdits floatingDirt).setBlock 2 256 3 "stone").block? 2 9 3 = some "dirt" ∧
      (ofEdits floatingDirt).block? 16 9 3 = some "air" ∧
      ((ofEdits floatingDirt).edit (.set 2 20 3 "stone")).IsSound := by
  have hin : Inside 2 20 3 := by decide
  have hdirt : (ofEdits floatingDirt).block? 2 9 3 = some "dirt" := by decide +kernel
  have htop : ∃ column, (ofEdits floatingDirt).columns[columnIndex 2 3]? = some column ∧
      column.size = 10 := ⟨#[1, 1, 1, 1, 1, 0, 0, 0, 0, 2], by decide +kernel, rfl⟩
  obtain ⟨column, hcolumn, hsize⟩ := htop
  obtain ⟨hsound, hplace, hedit⟩ := writes_stay_in_place floatingDirt
  refine ⟨hin, hdirt, ?_, ?_, ?_, ?_, ?_, hedit _ hsound _⟩
  · rw [hplace.set 2 20 3 "stone" hin 2 9 3 (by decide), hdirt]
  · exact (hplace.above 2 20 3 "stone" hin column hcolumn 15 (by omega) (by decide)).2
  · rw [hplace.fill 2 3 8 "sand" 2 9 3 (by decide), hdirt]
  · rw [hplace.ignored 2 256 3 "stone" (by decide) 2 9 3, hdirt]
  · exact hplace.outside 16 9 3 (by decide)

end TerrainMap.Chunk.PaintedChunk
