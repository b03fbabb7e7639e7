import TerrainMap.Proofs.Chunk.LastWrite
import TerrainMap.Proofs.Column

/-!
Chunks that are filled up to a surface. Each of the 256 columns is filled once,
so the last write to a position is that of its own column. One name for each
column and air are few enough for all of them to be read back, and the column
that is found then is solid up to its surface and air above.
-/

namespace TerrainMap

namespace Column

/-! ### Solid ground with air above it -/

section Filled

variable {chunk : ChunkView} {x z top : Nat} {name : String}

/-- The column holds the same block up to the height `top`, and air above it. -/
def IsFilled (chunk : ChunkView) (x z top : Nat) (name : String) : Prop :=
  ∀ y, chunk.blockId x y z = if y ≤ top then name else Block.air

theorem IsFilled.isClear_iff (h : IsFilled chunk x z top name) (y : Nat) :
    IsClear chunk x z y ↔ top < y ∨ Block.isTransparent name = true := by
  rw [← isTransparent_iff_isClear, h y]
  split
  · next hle => rw [or_iff_right (Nat.not_lt.2 hle)]
  · next habove => exact iff_of_true (by decide) (.inl (Nat.lt_of_not_le habove))

theorem IsFilled.isGreatest (h : IsFilled chunk x z top name)
    (hname : Block.isTransparent name = false) {limit : Nat} (hlimit : top < limit) :
    IsGreatest {y | y < limit ∧ ¬ IsClear chunk x z y} top := by
  simp only [h.isClear_iff, hname, Bool.false_eq_true, or_false]
  exact ⟨⟨hlimit, Nat.lt_irrefl top⟩, fun y hy => Nat.le_of_not_lt hy.2⟩

/-- From above, the top of the ground shows. -/
theorem IsFilled.resolve_overworld (h : IsFilled chunk x z top name) (htop : top < 256) :
    resolve chunk x z .overworld =
      if Block.isTransparent name then .empty else .block name top := by
  have hshows := shows_overworld chunk x z
  split
  · next hname => exact hshows.empty_iff.2 fun y _ => (h.isClear_iff y).2 (.inr hname)
  · next hname =>
      rw [Bool.not_eq_true] at hname
      refine (hshows.block_iff name top).2 ⟨top, h.isGreatest hname htop, rfl, ?_⟩
      rw [h top, if_pos le_rfl]

/-- Under the ceiling, ground that reaches the ceiling is roof throughout, and
lower ground lies below the gap that begins right under the ceiling. -/
theorem IsFilled.resolve_nether (h : IsFilled chunk x z top name) :
    resolve chunk x z .nether =
      if 127 ≤ top ∨ Block.isTransparent name = true then .empty else .block name top := by
  have hgap (hclear : IsClear chunk x z 127) : IsGap chunk x z 127 :=
    ⟨⟨by omega, hclear⟩, fun y hy => Nat.le_of_lt_succ hy.1⟩
  by_cases hname : Block.isTransparent name = true
  · rw [if_pos (.inr hname), nether_eq_empty_iff]
    exact .inr ⟨127, hgap ((h.isClear_iff 127).2 (.inr hname)),
      fun y _ => (h.isClear_iff y).2 (.inr hname)⟩
  by_cases hhigh : 127 ≤ top
  · rw [if_pos (.inl hhigh)]
    refine nether_of_solid fun y hy => ?_
    rw [h.isClear_iff, or_iff_left hname]
    omega
  · rw [if_neg (not_or_intro hhigh hname), nether_eq_block_iff]
    rw [Bool.not_eq_true] at hname
    have hlow : top < 127 := Nat.lt_of_not_le hhigh
    refine ⟨127, hgap ((h.isClear_iff 127).2 (.inl hlow)), top, h.isGreatest hname hlow, rfl, ?_⟩
    rw [h top, if_pos le_rfl]

end Filled

end Column

namespace Chunk.PaintedChunk

variable {surface : Nat → Nat → Nat × String} {x y z : Nat}

/-- The changes that a surface stands for, one for each column. -/
def surfaceEdits (surface : Nat → Nat → Nat × String) : List Edit :=
  columnPositions.map fun c => .fill c.1 c.2 (surface c.1 c.2).1 (surface c.1 c.2).2

theorem ofSurface_eq (surface : Nat → Nat → Nat × String) :
    ofSurface surface = ofEdits (surfaceEdits surface) := by
  rw [ofEdits, surfaceEdits, List.foldl_map]
  rfl

theorem mem_columnPositions : (x, z) ∈ columnPositions ↔ x < 16 ∧ z < 16 := by
  simp [columnPositions, chunkEdge, and_comm]

theorem length_surfaceEdits (surface : Nat → Nat → Nat × String) :
    (surfaceEdits surface).length = 256 := by
  simp [surfaceEdits, columnPositions, chunkEdge]

/-- Only the fill of its own column writes to a position. -/
theorem eq_of_mem_surfaceEdits {e : Edit} {id : String} (he : e ∈ surfaceEdits surface)
    (hwrites : e.writes? x y z = some id) :
    y ≤ min (surface x z).1 255 ∧ id = (surface x z).2 := by
  obtain ⟨c, -, rfl⟩ := List.mem_map.1 he
  simp only [Edit.writes?, Option.ite_none_right_eq_some, Option.some.injEq] at hwrites
  obtain ⟨⟨rfl, rfl, hy⟩, rfl⟩ := hwrites
  exact ⟨hy, rfl⟩

theorem lastWritten?_surfaceEdits (surface : Nat → Nat → Nat × String) (hx : x < 16) (hz : z < 16)
    (y : Nat) :
    lastWritten? (surfaceEdits surface) x y z =
      if y ≤ min (surface x z).1 255 then some (surface x z).2 else none := by
  cases hlast : lastWritten? (surfaceEdits surface) x y z with
  | some id =>
      obtain ⟨e, he, hwrites⟩ := List.exists_of_findSome?_eq_some hlast
      obtain ⟨hy, rfl⟩ := eq_of_mem_surfaceEdits (List.mem_reverse.1 he) hwrites
      rw [if_pos hy]
  | none =>
      have hown : Edit.fill x z (surface x z).1 (surface x z).2 ∈ surfaceEdits surface :=
        List.mem_map.2 ⟨(x, z), mem_columnPositions.2 ⟨hx, hz⟩, rfl⟩
      have hnone := List.findSome?_eq_none_iff.1 hlast _ (List.mem_reverse.2 hown)
      simp only [Edit.writes?, true_and, ite_eq_right_iff, reduceCtorEq, imp_false] at hnone
      rw [if_neg hnone]

/-- Each change adds one name at most. -/
theorem length_writtenNames_le (edits : List Edit) :
    (writtenNames edits).length ≤ edits.length + 1 := by
  induction edits using List.reverseRecOn with
  | nil => exact Nat.le_refl 1
  | append_singleton edits e ih =>
      rw [writtenNames_append_singleton, List.length_append, List.length_singleton]
      cases e.name? with
      | none => exact Nat.le_succ_of_le ih
      | some name =>
          simp only [Option.map_some, Option.getD_some]
          split
          · exact Nat.le_succ_of_le ih
          · rw [List.length_append, List.length_singleton]
            exact Nat.succ_le_succ ih

theorem block?_ofSurface (hx : x < 16) (hz : z < 16) (y : Nat) :
    (ofSurface surface).block? x y z =
      some (if y ≤ min (surface x z).1 255 then Block.normalize (surface x z).2
        else Block.air) := by
  have hlast := lastWritten?_surfaceEdits surface hx hz y
  rw [ofSurface_eq]
  split
  · next hy =>
      have hin : Inside x y z := ⟨hx, hz, by omega⟩
      refine block?_of_written_eq_some hin (hlast.trans (if_pos hy)) ?_
      have hnumber := List.idxOf_le_length (l := writtenNames (surfaceEdits surface))
        (a := Block.normalize (surface x z).2)
      have hnames := length_writtenNames_le (surfaceEdits surface)
      rw [length_surfaceEdits] at hnames
      omega
  · next hy => exact block?_of_not_written (hlast.trans (if_neg hy))

theorem isFilled_ofSurface (surface : Nat → Nat → Nat × String) (hx : x < 16) (hz : z < 16) :
    Column.IsFilled (ofSurface surface).view x z (min (surface x z).1 255)
      (Block.normalize (surface x z).2) := by
  intro y
  simp only [view, blockId, block?_ofSurface hx hz y, Option.getD_some]

/-- **A chunk made from a surface shows that surface.** Every column can be read
and holds the block of the surface, without the vanilla namespace, up to the
height of the surface or the top of the world, and air above. From above the
surface shows, unless its block is looked through. Under the ceiling of the
nether it shows if it lies below the ceiling; ground that reaches the ceiling
shows nothing. -/
theorem surface_is_rendered (surface : Nat → Nat → Nat × String) (hx : x < 16) (hz : z < 16) :
    (∀ y, (ofSurface surface).block? x y z =
      some (if y ≤ min (surface x z).1 255 then Block.normalize (surface x z).2 else Block.air)) ∧
    Column.resolve (ofSurface surface).view x z .overworld =
      (if Block.isTransparent (Block.normalize (surface x z).2) = true then .empty
        else .block (Block.normalize (surface x z).2) (min (surface x z).1 255 : Nat)) ∧
    Column.resolve (ofSurface surface).view x z .nether =
      if 127 ≤ min (surface x z).1 255 ∨
          Block.isTransparent (Block.normalize (surface x z).2) = true then .empty
      else .block (Block.normalize (surface x z).2) (surface x z).1 := by
  have hfilled := isFilled_ofSurface surface hx hz
  refine ⟨block?_ofSurface hx hz, hfilled.resolve_overworld (by omega), ?_⟩
  rw [hfilled.resolve_nether]
  by_cases hhigh : 127 ≤ min (surface x z).1 255
  · rw [if_pos (.inl hhigh), if_pos (.inl hhigh)]
  · -- below the ceiling the surface is not cut at the top of the world
    rw [Nat.min_eq_left (by omega)]

/-- Stone that rises from just below the ceiling of the nether to beyond the top
of the world, with a column of air in it. -/
def cliff (x z : Nat) : Nat × String :=
  if x = 5 then (40, "minecraft:minecraft:cave_air") else (126 + x + 129 * z, "minecraft:stone")

/-- The stone at the height 126 shows under either policy, and that at 127 only
from above. What is higher than the world ends at its top. -/
theorem cliff_is_rendered :
    Column.resolve (ofSurface cliff).view 0 0 .nether = .block "stone" 126 ∧
      Column.resolve (ofSurface cliff).view 1 0 .nether = .empty ∧
      Column.resolve (ofSurface cliff).view 1 0 .overworld = .block "stone" 127 ∧
      Column.resolve (ofSurface cliff).view 0 1 .overworld = .block "stone" 255 ∧
      Column.resolve (ofSurface cliff).view 1 1 .overworld = .block "stone" 255 ∧
      (ofSurface cliff).block? 1 255 1 = some "stone" ∧
      (ofSurface cliff).block? 1 256 1 = some "air" ∧
      Column.resolve (ofSurface cliff).view 5 0 .overworld = .empty := by
  obtain ⟨-, -, hlow⟩ := surface_is_rendered cliff (x := 0) (z := 0) (by omega) (by omega)
  obtain ⟨-, hopen, hroof⟩ := surface_is_rendered cliff (x := 1) (z := 0) (by omega) (by omega)
  obtain ⟨-, htop, -⟩ := surface_is_rendered cliff (x := 0) (z := 1) (by omega) (by omega)
  obtain ⟨hread, hbeyond, -⟩ := surface_is_rendered cliff (x := 1) (z := 1) (by omega) (by omega)
  obtain ⟨-, hair, -⟩ := surface_is_rendered cliff (x := 5) (z := 0) (by omega) (by omega)
  exact ⟨hlow, hroof, hopen, htop, hbeyond, hread 255, hread 256, hair⟩

end Chunk.PaintedChunk

end TerrainMap
