import TerrainMap.Proofs.Chunk.Naming

/-!
What a chunk under construction holds after any number of writes. The last write
to a position decides, and where none was made there is air. What it leaves is
the slot of its name, and later names do not move that slot.
-/

namespace TerrainMap.Chunk.PaintedChunk

/-- The block that a change writes to a position, as it was named. -/
def Edit.writes? (x y z : Nat) : Edit → Option String
  | .set x' y' z' id => if x = x' ∧ y = y' ∧ z = z' then some id else none
  | .fill x' z' top id => if x = x' ∧ z = z' ∧ y ≤ min top 255 then some id else none

/-- The block that the last write to a position gave it. -/
def lastWritten? (edits : List Edit) (x y z : Nat) : Option String :=
  edits.reverse.findSome? (Edit.writes? x y z)

variable {c : PaintedChunk} {x y z : Nat} {id : String}

theorem lastWritten?_append_singleton (edits : List Edit) (e : Edit) (x y z : Nat) :
    lastWritten? (edits ++ [e]) x y z = (e.writes? x y z).or (lastWritten? edits x y z) := by
  simp only [lastWritten?, List.reverse_append, List.reverse_singleton, List.singleton_append,
    List.findSome?_cons]
  cases e.writes? x y z <;> rfl

/-- The name that the slot of `name` is read as. -/
def reading? (names : Array String) (name : String) : Option String :=
  names[ordinal names name % 65536]?

theorem mem_intern_of_mem {names : Array String} {name : String} (hmem : name ∈ names)
    (new : String) : name ∈ intern names new := by
  rw [intern]
  split
  · exact hmem
  · exact Array.mem_push_of_mem new hmem

/-- Names that are added later leave a reading as it is. -/
theorem reading?_intern {names : Array String} {name : String} (hmem : name ∈ names)
    (new : String) : reading? (intern names new) name = reading? names name := by
  have hordinal : ordinal (intern names new) name = ordinal names name := by
    rw [ordinal, ordinal, toList_intern]
    split
    · rfl
    · exact List.idxOf_append_of_mem (Array.mem_toList_iff.2 hmem)
  have hlt : ordinal names name % 65536 < names.size :=
    Nat.lt_of_le_of_lt (Nat.mod_le _ _) (ordinal_lt hmem)
  rw [reading?, hordinal, getElem?_intern hlt, reading?]

theorem IsSound.block?_setBlock (hc : c.IsSound) (hin : Inside x y z) (id : String) :
    (c.setBlock x y z id).block? x y z =
      reading? (c.setBlock x y z id).names (Block.normalize id) := by
  rw [hc.block?_setBlock_self hin, names_setBlock hin, reading?, ordinal_intern]

theorem IsSound.block?_stackBlocks_self (hc : c.IsSound) {count : Nat} (hcount : count < 256)
    (hin : Inside x 0 z) (hy : y ≤ count) (id : String) :
    (c.stackBlocks x z id (count + 1)).block? x y z =
      reading? (c.stackBlocks x z id (count + 1)).names (Block.normalize id) := by
  induction count with
  | zero =>
      obtain rfl : y = 0 := Nat.le_zero.1 hy
      exact hc.block?_setBlock hin id
  | succ count ih =>
      have hnext : Inside x (count + 1) z := ⟨hin.1, hin.2.1, hcount⟩
      have hbelow := hc.stackBlocks x z id (count + 1)
      rw [stackBlocks_succ]
      rcases Nat.le_succ_iff.1 hy with hle | rfl
      · -- the name is already there when the next block is stacked on it
        have hmem : Block.normalize id ∈ (c.stackBlocks x z id (count + 1)).names := by
          rw [names_stackBlocks hin (by omega)]
          exact mem_intern _ _
        have hplace : (x, y, z) ≠ (x, count + 1, z) := by
          simp only [ne_eq, Prod.mk.injEq]
          omega
        rw [hbelow.block?_setBlock_of_ne hplace, ih (by omega) hle, names_setBlock hnext,
          reading?_intern hmem]
      · exact hbelow.block?_setBlock hnext id

/-! ### One change -/

theorem normalize_mem_names_edit {e : Edit} (hin : Inside x y z)
    (h : e.writes? x y z = some id) : Block.normalize id ∈ (c.edit e).names := by
  have hname : e.name? = some (Block.normalize id) := by
    cases e with
    | set x' y' z' id' =>
        simp only [Edit.writes?, Option.ite_none_right_eq_some, Option.some.injEq] at h
        obtain ⟨⟨rfl, rfl, rfl⟩, rfl⟩ := h
        exact if_pos hin
    | fill x' z' top id' =>
        simp only [Edit.writes?, Option.ite_none_right_eq_some, Option.some.injEq] at h
        obtain ⟨⟨rfl, rfl, -⟩, rfl⟩ := h
        exact if_pos ⟨hin.1, hin.2.1, by decide⟩
  rw [names_edit, hname]
  exact mem_intern _ _

theorem IsSound.block?_edit_of_writes (hc : c.IsSound) {e : Edit} (hin : Inside x y z)
    (h : e.writes? x y z = some id) :
    (c.edit e).block? x y z = reading? (c.edit e).names (Block.normalize id) := by
  cases e with
  | set x' y' z' id' =>
      simp only [Edit.writes?, Option.ite_none_right_eq_some, Option.some.injEq] at h
      obtain ⟨⟨rfl, rfl, rfl⟩, rfl⟩ := h
      exact hc.block?_setBlock hin id'
  | fill x' z' top id' =>
      simp only [Edit.writes?, Option.ite_none_right_eq_some, Option.some.injEq] at h
      obtain ⟨⟨rfl, rfl, hy⟩, rfl⟩ := h
      exact hc.block?_stackBlocks_self (show min top 255 < 256 by omega)
        ⟨hin.1, hin.2.1, by decide⟩ hy id'

theorem IsSound.block?_edit_of_not_writes (hc : c.IsSound) {e : Edit}
    (h : e.writes? x y z = none) : (c.edit e).block? x y z = c.block? x y z := by
  cases e with
  | set x' y' z' id' =>
      simp only [Edit.writes?, ite_eq_right_iff, reduceCtorEq, imp_false] at h
      exact hc.block?_setBlock_of_ne (by simpa using h) id'
  | fill x' z' top id' =>
      simp only [Edit.writes?, ite_eq_right_iff, reduceCtorEq, imp_false] at h
      refine hc.block?_stackBlocks ?_ id'
      simp only [worldHeight]
      omega

/-! ### Any number of changes -/

theorem block?_empty (x y z : Nat) : empty.block? x y z = some "air" := by
  by_cases h : x < 16 ∧ z < 16
  · obtain ⟨column, hmem, hcolumn⟩ := isSound_empty.exists_column h.1 h.2
    rw [block?_of_column h.1 h.2 hcolumn, (Array.mem_replicate.1 hmem).2]
    rfl
  · exact block?_of_not_lt h empty y

theorem ofEdits_append_singleton (edits : List Edit) (e : Edit) :
    ofEdits (edits ++ [e]) = (ofEdits edits).edit e := List.foldl_concat ..

theorem block?_of_not_written {edits : List Edit} (h : lastWritten? edits x y z = none) :
    (ofEdits edits).block? x y z = some "air" := by
  induction edits using List.reverseRecOn with
  | nil => exact block?_empty x y z
  | append_singleton edits e ih =>
      rw [lastWritten?_append_singleton, Option.or_eq_none_iff] at h
      rw [ofEdits_append_singleton, (isSound_ofEdits edits).block?_edit_of_not_writes h.1, ih h.2]

/-- A position is read as the name that was last written to it is. -/
theorem block?_of_written {edits : List Edit} (hin : Inside x y z)
    (h : lastWritten? edits x y z = some id) :
    Block.normalize id ∈ (ofEdits edits).names ∧
      (ofEdits edits).block? x y z = reading? (ofEdits edits).names (Block.normalize id) := by
  induction edits using List.reverseRecOn with
  | nil => cases h
  | append_singleton edits e ih =>
      have hc := isSound_ofEdits edits
      rw [ofEdits_append_singleton]
      rw [lastWritten?_append_singleton, Option.or_eq_some_iff] at h
      rcases h with hwrites | ⟨hleft, hbefore⟩
      · exact ⟨normalize_mem_names_edit hin hwrites, hc.block?_edit_of_writes hin hwrites⟩
      · obtain ⟨hmem, hread⟩ := ih hbefore
        rw [hc.block?_edit_of_not_writes hleft, hread, names_edit]
        cases e.name? with
        | none => exact ⟨hmem, rfl⟩
        | some new => exact ⟨mem_intern_of_mem hmem new, (reading?_intern hmem new).symm⟩

/-- The last write to a position is read back while its name has a number of
sixteen bits. -/
theorem block?_of_written_eq_some {edits : List Edit} (hin : Inside x y z)
    (h : lastWritten? edits x y z = some id)
    (hnumber : (writtenNames edits).idxOf (Block.normalize id) < 65536) :
    (ofEdits edits).block? x y z = some (Block.normalize id) := by
  obtain ⟨hmem, hread⟩ := block?_of_written hin h
  rw [hread, reading?, ordinal, names_ofEdits, Nat.mod_eq_of_lt hnumber, ← Array.getElem?_toList,
    names_ofEdits]
  rw [← Array.mem_toList_iff, names_ofEdits] at hmem
  exact List.getElem?_idxOf hmem

end TerrainMap.Chunk.PaintedChunk
