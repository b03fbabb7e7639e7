import TerrainMap.Proofs.Chunk.Painting
import TerrainMap.Proofs.Decimal

/-!
Which name a written block is read back as. Names are numbered in the order in
which they are first written, beginning with air, and overwritten blocks keep
their numbers. A slot has room for the first 65536 of them; from there on the
count begins anew, and a block is read as another one.
-/

namespace TerrainMap.Chunk.PaintedChunk

/-- The name that a change writes somewhere, unless all of it lies outside. -/
def Edit.name? : Edit → Option String
  | .set x y z id => if Inside x y z then some (Block.normalize id) else none
  | .fill x z _ id => if Inside x 0 z then some (Block.normalize id) else none

/-- All names ever written and air before them, each where it was first
written. -/
def writtenNames (edits : List Edit) : List String :=
  ("air" :: edits.filterMap Edit.name?).eraseDups

variable {c : PaintedChunk} {x y z : Nat} {id : String}

/-! ### The names of a chunk -/

theorem names_stackBlocks (hin : Inside x 0 z) {count : Nat} (hcount : count < 256)
    (c : PaintedChunk) (id : String) :
    (c.stackBlocks x z id (count + 1)).names = intern c.names (Block.normalize id) := by
  induction count with
  | zero => exact names_setBlock hin c id
  | succ count ih =>
      have hnext : Inside x (count + 1) z := ⟨hin.1, hin.2.1, hcount⟩
      rw [stackBlocks_succ, names_setBlock hnext, ih (by omega), intern_of_mem (mem_intern _ _)]

theorem stackBlocks_of_not_inside (hout : ¬ Inside x 0 z) (c : PaintedChunk) (id : String)
    (count : Nat) : c.stackBlocks x z id count = c := by
  induction count with
  | zero => rfl
  | succ count ih =>
      have hnext : ¬ Inside x count z := fun h => hout ⟨h.1, h.2.1, by decide⟩
      rw [stackBlocks_succ, setBlock_of_not_inside hnext, ih]

theorem names_edit (c : PaintedChunk) (e : Edit) :
    (c.edit e).names = (e.name?.map (intern c.names)).getD c.names := by
  cases e with
  | set x y z id =>
      rw [Edit.name?]
      split
      · next hin => exact names_setBlock hin c id
      · next hout => exact congrArg names (setBlock_of_not_inside hout c id)
  | fill x z top id =>
      rw [Edit.name?]
      split
      · next hin =>
          refine names_stackBlocks hin ?_ c id
          simp only [worldHeight]
          omega
      · next hout => exact congrArg names (stackBlocks_of_not_inside hout c id _)

theorem eraseDups_append_singleton (names : List String) (name : String) :
    (names ++ [name]).eraseDups =
      if name ∈ names then names.eraseDups else names.eraseDups ++ [name] := by
  rw [List.eraseDups_append]
  split
  · next hold => simp [List.removeAll, hold]
  · next hnew => simp [List.removeAll, hnew, List.eraseDups_cons]

theorem writtenNames_append_singleton (edits : List Edit) (e : Edit) :
    writtenNames (edits ++ [e]) =
      (e.name?.map fun name => if name ∈ writtenNames edits then writtenNames edits
        else writtenNames edits ++ [name]).getD (writtenNames edits) := by
  simp only [writtenNames, List.filterMap_append, List.mem_eraseDups]
  rw [← List.cons_append]
  cases hname : e.name? with
  | none => rw [List.filterMap_cons_none hname, List.filterMap_nil, List.append_nil]; rfl
  | some name =>
      rw [List.filterMap_cons_some hname, List.filterMap_nil, eraseDups_append_singleton]
      rfl

/-- The names of a chunk are those that were written to it. -/
theorem names_ofEdits (edits : List Edit) : (ofEdits edits).names.toList = writtenNames edits := by
  induction edits using List.reverseRecOn with
  | nil => rfl
  | append_singleton edits e ih =>
      rw [ofEdits, List.foldl_concat, ← ofEdits, names_edit, writtenNames_append_singleton, ← ih]
      cases e.name? with
      | none => rfl
      | some name => exact toList_intern _ _

/-! ### Reading back -/

/-- A name is found under its number, cut to sixteen bits, just where nothing is
cut. -/
theorem getElem?_idxOf_mod_iff {names : List String} {name : String} (hnodup : names.Nodup)
    (hmem : name ∈ names) :
    names[names.idxOf name % 65536]? = some name ↔ names.idxOf name < 65536 := by
  have hlt : names.idxOf name < names.length := List.idxOf_lt_length_iff.2 hmem
  have hname : names[names.idxOf name]? = some name := List.getElem?_idxOf hmem
  constructor
  · intro h
    have hcut : names.idxOf name % 65536 < names.length :=
      Nat.lt_of_le_of_lt (Nat.mod_le _ _) hlt
    have heq := (List.getElem?_inj hcut hnodup).1 (h.trans hname.symm)
    rw [← heq]
    exact Nat.mod_lt _ (by decide)
  · intro h
    rw [Nat.mod_eq_of_lt h, hname]

theorem block?_setBlock_ofEdits (edits : List Edit) (hin : Inside x y z) (id : String) :
    ((ofEdits edits).setBlock x y z id).block? x y z =
      (writtenNames (edits ++ [.set x y z id]))[(writtenNames (edits ++ [.set x y z id])).idxOf
        (Block.normalize id) % 65536]? := by
  have hnames : (ofEdits (edits ++ [.set x y z id])).names =
      intern (ofEdits edits).names (Block.normalize id) := by
    rw [ofEdits, List.foldl_concat]
    exact names_setBlock hin _ id
  rw [(isSound_ofEdits edits).block?_setBlock_self hin, ← ordinal_intern, ordinal, ← hnames,
    ← names_ofEdits, Array.getElem?_toList]

theorem normalize_mem_writtenNames (edits : List Edit) (hin : Inside x y z) (id : String) :
    Block.normalize id ∈ writtenNames (edits ++ [.set x y z id]) := by
  rw [writtenNames, List.mem_eraseDups]
  simp [Edit.name?, hin]

/-- **A block reads back while its name has a number of sixteen bits.** Right
after it was written, a block is read as the name whose number is left in its
slot. That is its own name, without the vanilla namespace, just if it is among
the first 65536 names ever written to the chunk. -/
theorem written_block_reads_back_iff (edits : List Edit) (hin : Inside x y z) (id : String) :
    ((ofEdits edits).setBlock x y z id).block? x y z =
        (writtenNames (edits ++ [.set x y z id]))[(writtenNames (edits ++ [.set x y z id])).idxOf
          (Block.normalize id) % 65536]? ∧
      (((ofEdits edits).setBlock x y z id).block? x y z = some (Block.normalize id) ↔
        (writtenNames (edits ++ [.set x y z id])).idxOf (Block.normalize id) < 65536) := by
  have hnodup : (writtenNames (edits ++ [.set x y z id])).Nodup := by
    rw [← names_ofEdits]
    exact (isSound_ofEdits _).nodup
  have hread := block?_setBlock_ofEdits edits hin id
  refine ⟨hread, ?_⟩
  rw [hread]
  exact getElem?_idxOf_mod_iff hnodup (normalize_mem_writtenNames edits hin id)

/-- Sand that takes the place of the dirt is read as sand. -/
theorem sand_reads_back :
    Inside 2 9 3 ∧ (writtenNames (floatingDirt ++ [.set 2 9 3 "minecraft:sand"])).idxOf "sand" = 3 ∧
      ((ofEdits floatingDirt).setBlock 2 9 3 "minecraft:sand").block? 2 9 3 = some "sand" := by
  have hin : Inside 2 9 3 := by decide
  have hnumber : (writtenNames (floatingDirt ++ [.set 2 9 3 "minecraft:sand"])).idxOf "sand" =
      3 := by decide +kernel
  have hname : Block.normalize "minecraft:sand" = "sand" := by decide
  obtain ⟨-, hread⟩ := written_block_reads_back_iff floatingDirt hin "minecraft:sand"
  rw [hname, hnumber] at hread
  exact ⟨hin, hnumber, hread.2 (by decide)⟩

/-! ### A chunk with too many names -/

def numeral (n : Nat) : String := Decimal.ofInt n

theorem numeral_injective : Function.Injective numeral := by
  intro n n' h
  have hdigits := congrArg String.toList h
  rw [numeral, numeral, Decimal.toList_ofInt, Decimal.toList_ofInt] at hdigits
  exact Int.ofNat_inj.1 (Decimal.signedDigits_injective hdigits)

theorem not_mem_numeral {letter : Char} (hminus : letter ≠ '-')
    (hdigit : Decimal.digitValue? letter = none) (n : Nat) : letter ∉ (numeral n).toList := by
  rw [numeral, Decimal.toList_ofInt]
  exact Decimal.not_mem_signedDigits hminus hdigit n

theorem numeral_ne_air (n : Nat) : numeral n ≠ "air" := by
  intro h
  have hletter : 'a' ∈ (numeral n).toList := by
    rw [h]
    decide
  exact not_mem_numeral (by decide) (by decide) n hletter

theorem normalize_numeral (n : Nat) : Block.normalize (numeral n) = numeral n := by
  rw [Block.normalize]
  split
  · next rest hprefix =>
      have happend := List.isPrefixOf?_eq_some_iff_append_eq.1 hprefix
      have hletter : 'm' ∈ (numeral n).toList := by
        rw [← happend]
        exact List.mem_append_left rest (by decide)
      exact absurd hletter (not_mem_numeral (by decide) (by decide) n)
  · rfl

/-- The numerals below `n`, written one after the other to the same place. -/
def numbered (n : Nat) : List Edit := (List.range n).map fun i => .set 0 0 0 (numeral i)

theorem numbered_succ (n : Nat) : numbered (n + 1) = numbered n ++ [.set 0 0 0 (numeral n)] := by
  rw [numbered, numbered, List.range_succ, List.map_append, List.map_singleton]

theorem numeral_not_mem (n : Nat) : numeral n ∉ "air" :: (List.range n).map numeral := by
  rw [List.mem_cons, List.mem_map]
  rintro (hair | ⟨i, hi, heq⟩)
  · exact numeral_ne_air n hair
  · exact absurd (numeral_injective heq) (Nat.ne_of_lt (List.mem_range.1 hi))

theorem writtenNames_numbered (n : Nat) :
    writtenNames (numbered n) = "air" :: (List.range n).map numeral := by
  have hin : Inside 0 0 0 := by decide
  induction n with
  | zero => rfl
  | succ n ih =>
      rw [numbered_succ, writtenNames_append_singleton, ih, Edit.name?, if_pos hin,
        normalize_numeral, Option.map_some, Option.getD_some, if_neg (numeral_not_mem n),
        List.range_succ, List.map_append, List.map_singleton, List.cons_append]

theorem idxOf_numeral (n : Nat) : (writtenNames (numbered (n + 1))).idxOf (numeral n) = n + 1 := by
  rw [writtenNames_numbered, List.range_succ, List.map_append, List.map_singleton,
    ← List.cons_append, List.idxOf_append_of_notMem (numeral_not_mem n)]
  simp

/-- After 65536 names, air among them, the next one is read as air. -/
theorem crowded_chunk_misreads :
    ((ofEdits (numbered 65535)).setBlock 0 0 0 (numeral 65535)).block? 0 0 0 = some "air" ∧
      Block.normalize (numeral 65535) ≠ "air" := by
  have hin : Inside 0 0 0 := by decide
  constructor
  · rw [block?_setBlock_ofEdits _ hin, ← numbered_succ, normalize_numeral, idxOf_numeral,
      writtenNames_numbered]
    rfl
  · rw [normalize_numeral]
    exact numeral_ne_air _

end TerrainMap.Chunk.PaintedChunk
