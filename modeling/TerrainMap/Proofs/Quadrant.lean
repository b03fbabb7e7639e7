import Mathlib.Data.Prod.Lex
import TerrainMap.Proofs.Decimal
import TerrainMap.Proofs.Tile.Size
import TerrainMap.Quadrant

/-!
The order of quadrants, as an order of keys. A quadrant is the four numbers
that make it up, and quadrants compare as these numbers do, one after the
other. The order is therefore total, and two quadrants that stand on a par in
it are the same quadrant.

The tiles of the quadrants cover a grid: every position of it is that of one
quadrant of one region, and has a name of its own.
-/

namespace TerrainMap

/-- The places of the region's tiles are told by signed words of 32 bits. -/
def RegionCoord.FitsGrid (c : RegionCoord) : Prop :=
  (-1073741824 ≤ c.x ∧ c.x < 1073741824) ∧ -1073741824 ≤ c.z ∧ c.z < 1073741824

instance (c : RegionCoord) : Decidable c.FitsGrid :=
  inferInstanceAs (Decidable ((_ ∧ _) ∧ _ ∧ _))

namespace Quadrant

/-- The numbers a quadrant is sorted by, the weightiest first. -/
def key (q : Quadrant) : Int ×ₗ Int ×ₗ Nat ×ₗ Nat :=
  toLex (q.region.x, toLex (q.region.z, toLex (q.offsetX, q.offsetZ)))

theorem key_injective : Function.Injective key := by
  rintro ⟨⟨x, z⟩, ox, oz⟩ ⟨⟨x', z'⟩, ox', oz'⟩ h
  simp only [key, EmbeddingLike.apply_eq_iff_eq, Prod.mk.injEq] at h
  obtain ⟨rfl, rfl, rfl, rfl⟩ := h
  rfl

theorem le_iff_key_le (a b : Quadrant) : a.le b = true ↔ a.key ≤ b.key := by
  obtain ⟨⟨x, z⟩, ox, oz⟩ := a
  obtain ⟨⟨x', z'⟩, ox', oz'⟩ := b
  simp only [key, le, RegionCoord.le, RegionCoord.mk.injEq, Prod.Lex.toLex_le_toLex]
  -- the order of regions settles the comparison unless the regions are one
  split
  · rename_i h
    obtain ⟨rfl, rfl⟩ := h
    simp
  · simp
    omega

protected theorem le_trans (a b c : Quadrant) (hab : a.le b = true) (hbc : b.le c = true) :
    a.le c = true := by
  rw [le_iff_key_le] at *
  exact hab.trans hbc

protected theorem le_total (a b : Quadrant) : (a.le b || b.le a) = true := by
  rw [Bool.or_eq_true, le_iff_key_le, le_iff_key_le]
  exact le_total a.key b.key

protected theorem le_antisymm {a b : Quadrant} (hab : a.le b = true) (hba : b.le a = true) :
    a = b := by
  rw [le_iff_key_le] at hab hba
  exact key_injective (le_antisymm hab hba)

theorem pairwise_mergeSort (l : List Quadrant) :
    (l.mergeSort Quadrant.le).Pairwise fun a b => a.le b = true :=
  List.pairwise_mergeSort Quadrant.le_trans Quadrant.le_total l

/-- Sorting takes out the order a list came in. -/
theorem mergeSort_eq_of_perm {l l' : List Quadrant} (h : l.Perm l') :
    l.mergeSort Quadrant.le = l'.mergeSort Quadrant.le := by
  have hperm : (l.mergeSort Quadrant.le).Perm (l'.mergeSort Quadrant.le) :=
    (List.mergeSort_perm l _).trans (h.trans (List.mergeSort_perm l' _).symm)
  apply hperm.eq_of_pairwise
  · intro a b _ _ hab hba
    exact Quadrant.le_antisymm hab hba
  · exact pairwise_mergeSort l
  · exact pairwise_mergeSort l'

theorem mem_all {q : Quadrant} {region : RegionCoord} :
    q ∈ all region ↔ q.region = region ∧ q.offsetX < 2 ∧ q.offsetZ < 2 := by
  obtain ⟨region', ox, oz⟩ := q
  simp only [all, List.mem_cons, Quadrant.mk.injEq, List.not_mem_nil, or_false]
  constructor
  · rintro (⟨rfl, rfl, rfl⟩ | ⟨rfl, rfl, rfl⟩ | ⟨rfl, rfl, rfl⟩ | ⟨rfl, rfl, rfl⟩) <;> simp
  · rintro ⟨rfl, hx, hz⟩
    simp only [true_and]
    omega

/-- The tile of a quadrant begins at an edge or at the middle of its region. -/
theorem tile_eq {q : Quadrant} {region : RegionCoord} (hq : q ∈ all region) :
    q.tile = ⟨q.offsetX * 16, q.offsetZ * 16, 16, 16⟩ :=
  TileSpec.quadrant_eq (mem_all.1 hq).2.1 (mem_all.1 hq).2.2

/-- Every quadrant is as wide and as high as all others. -/
theorem tile_size (q : Quadrant) : q.tile.width = 256 ∧ q.tile.height = 256 := ⟨rfl, rfl⟩

theorem fits_tile {q : Quadrant} {region : RegionCoord} (hq : q ∈ all region) : q.tile.Fits :=
  TileSpec.fits_quadrant (mem_all.1 hq).2.1 (mem_all.1 hq).2.2

/-- The quadrant whose tile stands at a position of the grid. -/
def ofTileCoord (t : Int × Int) : Quadrant :=
  ⟨⟨t.1 / 2, t.2 / 2⟩, (t.1 % 2).toNat, (t.2 % 2).toNat⟩

/-- Where its words hold the place of a tile, nothing wraps around. -/
theorem tileCoord_eq {q : Quadrant} (hgrid : q.region.FitsGrid) (hx : q.offsetX < 2)
    (hz : q.offsetZ < 2) :
    q.tileCoord = (q.region.x * 2 + q.offsetX, q.region.z * 2 + q.offsetZ) := by
  obtain ⟨⟨hleft, hright⟩, htop, hbottom⟩ := hgrid
  rw [tileCoord, Word.signed_of_mem (by omega) (by omega), Word.signed_of_mem (by omega) (by omega)]

theorem ofTileCoord_tileCoord {q : Quadrant} (hgrid : q.region.FitsGrid) (hx : q.offsetX < 2)
    (hz : q.offsetZ < 2) : ofTileCoord q.tileCoord = q := by
  rw [tileCoord_eq hgrid hx hz]
  obtain ⟨⟨x, z⟩, ox, oz⟩ := q
  simp only [ofTileCoord, Quadrant.mk.injEq, RegionCoord.mk.injEq] at hx hz ⊢
  omega

/-- The quadrants of a place are those of a region. -/
theorem ofTileCoord_mem_all (t : Int × Int) :
    ofTileCoord t ∈ all (ofTileCoord t).region := by
  rw [mem_all]
  simp only [ofTileCoord, true_and]
  omega

theorem tileCoord_ofTileCoord {t : Int × Int} (hgrid : (ofTileCoord t).region.FitsGrid) :
    (ofTileCoord t).tileCoord = t := by
  obtain ⟨-, hx, hz⟩ := mem_all.1 (ofTileCoord_mem_all t)
  rw [tileCoord_eq hgrid hx hz]
  obtain ⟨x, z⟩ := t
  simp only [ofTileCoord, Prod.mk.injEq]
  omega

theorem tileCoord_inj {q q' : Quadrant} (hq : q ∈ all q.region) (hq' : q' ∈ all q'.region)
    (hgrid : q.region.FitsGrid) (hgrid' : q'.region.FitsGrid)
    (h : q.tileCoord = q'.tileCoord) : q = q' := by
  obtain ⟨-, hx, hz⟩ := mem_all.mp hq
  obtain ⟨-, hx', hz'⟩ := mem_all.mp hq'
  rw [← ofTileCoord_tileCoord hgrid hx hz, h, ofTileCoord_tileCoord hgrid' hx' hz']

/-- How the tile at a position of the grid is named. -/
def tileName (x z : Int) : String := Decimal.ofInt x ++ "," ++ Decimal.ofInt z ++ ".png"

theorem toList_tileName (x z : Int) :
    (tileName x z).toList =
      Decimal.signedDigits x ++ ',' :: (Decimal.signedDigits z ++ ".png".toList) := by
  simp [tileName]

theorem tileName_inj {x z x' z' : Int} (h : tileName x z = tileName x' z') : x = x' ∧ z = z' := by
  -- the comma parts the numbers, for no number holds one
  have hcomma (n : Int) : ',' ∉ Decimal.signedDigits n :=
    Decimal.not_mem_signedDigits (by decide) (by decide) n
  have hsplit := congrArg (List.splitOn ',' ·.toList) h
  simp only [toList_tileName, List.splitOn_append_cons_self_of_not_mem (hcomma _)] at hsplit
  obtain ⟨hx, -⟩ := List.cons.inj hsplit
  have hrest := congrArg String.toList h
  rw [toList_tileName, toList_tileName, hx] at hrest
  refine ⟨Decimal.signedDigits_injective hx, ?_⟩
  have htail := List.append_cancel_left hrest
  exact Decimal.signedDigits_injective (List.append_cancel_right (List.cons.inj htail).2)

theorem slash_not_mem_tileName (x z : Int) : '/' ∉ (tileName x z).toList := by
  have hslash (n : Int) : '/' ∉ Decimal.signedDigits n :=
    Decimal.not_mem_signedDigits (by decide) (by decide) n
  rw [toList_tileName]
  simp [hslash]

end Quadrant

end TerrainMap
