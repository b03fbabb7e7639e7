import Mathlib.Order.Bounds.Basic
import Mathlib.Order.Lattice
import TerrainMap.Proofs.Region.FileName
import TerrainMap.Proofs.RegionRange

/-!
The bounds of a list of regions as a least upper bound. Boxes are ordered by
inclusion, and a box holds a region just if it includes the box of that region
alone. So a box includes the bounds of a list just if it holds every region of
the list, and this is all there is to know about them: it does not speak of the
order of the list or of repetitions, and it says where each side lies.
-/

namespace TerrainMap.RegionRange

/-- The region lies in the box. The upper ends are left out. -/
structure Holds (box : RegionRange) (r : RegionCoord) : Prop where
  minX : box.minX ≤ r.x
  maxX : r.x < box.maxX
  minZ : box.minZ ≤ r.z
  maxZ : r.z < box.maxZ

/-- Boxes are ordered by inclusion, side by side. -/
instance : PartialOrder RegionRange where
  le a b := (b.minX ≤ a.minX ∧ a.maxX ≤ b.maxX) ∧ b.minZ ≤ a.minZ ∧ a.maxZ ≤ b.maxZ
  le_refl _ := ⟨⟨le_rfl, le_rfl⟩, le_rfl, le_rfl⟩
  le_trans _ _ _ hab hbc :=
    ⟨⟨hbc.1.1.trans hab.1.1, hab.1.2.trans hbc.1.2⟩,
      hbc.2.1.trans hab.2.1, hab.2.2.trans hbc.2.2⟩
  le_antisymm a b hab hba := by
    cases a
    cases b
    simp only [RegionRange.mk.injEq]
    exact ⟨hba.1.1.antisymm hab.1.1, hba.2.1.antisymm hab.2.1,
      hab.1.2.antisymm hba.1.2, hab.2.2.antisymm hba.2.2⟩

instance : SemilatticeSup RegionRange where
  sup := union
  le_sup_left _ _ := ⟨⟨min_le_left _ _, le_max_left _ _⟩, min_le_left _ _, le_max_left _ _⟩
  le_sup_right _ _ := ⟨⟨min_le_right _ _, le_max_right _ _⟩, min_le_right _ _, le_max_right _ _⟩
  sup_le _ _ _ hac hbc :=
    ⟨⟨le_min hac.1.1 hbc.1.1, max_le hac.1.2 hbc.1.2⟩,
      le_min hac.2.1 hbc.2.1, max_le hac.2.2 hbc.2.2⟩

variable {regions regions' : List RegionCoord} {range range' box : RegionRange}

theorem union_le_iff (a b : RegionRange) : a.union b ≤ box ↔ a ≤ box ∧ b ≤ box := sup_le_iff

theorem ofRegion_le_iff (r : RegionCoord) : ofRegion r ≤ box ↔ box.Holds r := by
  constructor
  · rintro ⟨⟨hminX, hmaxX⟩, hminZ, hmaxZ⟩
    exact ⟨hminX, Int.lt_of_add_one_le hmaxX, hminZ, Int.lt_of_add_one_le hmaxZ⟩
  · intro h
    exact ⟨⟨h.minX, h.maxX⟩, h.minZ, h.maxZ⟩

theorem foldl_union_le_iff (regions : List RegionCoord) (seed : RegionRange) :
    regions.foldl (fun range r => range.union (ofRegion r)) seed ≤ box ↔
      seed ≤ box ∧ ∀ r ∈ regions, box.Holds r := by
  induction regions generalizing seed with
  | nil => simp
  | cons r rest ih =>
      rw [List.foldl_cons, ih, union_le_iff, ofRegion_le_iff, List.forall_mem_cons, and_assoc]

/-- A box includes the bounds of a list just if it holds every region of it. -/
theorem ofRegions?_le_iff (h : ofRegions? regions = some range) :
    range ≤ box ↔ ∀ r ∈ regions, box.Holds r := by
  cases regions with
  | nil => cases h
  | cons first rest =>
      obtain rfl := Option.some.inj h
      rw [foldl_union_le_iff, ofRegion_le_iff, List.forall_mem_cons]

theorem exists_ofRegions? (h : regions ≠ []) : ∃ range, ofRegions? regions = some range :=
  Option.ne_none_iff_exists'.1 (mt ofRegions?_eq_none_iff.1 h)

theorem isLeast_ofRegions? (h : ofRegions? regions = some range) :
    IsLeast {box : RegionRange | ∀ r ∈ regions, box.Holds r} range :=
  ⟨(ofRegions?_le_iff h).1 le_rfl, fun _ hbox => (ofRegions?_le_iff h).2 hbox⟩

/-- Which regions there are decides, and not how often or where they stand. -/
theorem ofRegions?_congr (h : ∀ r, r ∈ regions' ↔ r ∈ regions) :
    ofRegions? regions' = ofRegions? regions := by
  by_cases hempty : regions = []
  · have hempty' : regions' = [] := by
      rw [List.eq_nil_iff_forall_not_mem]
      intro r hr
      rw [h, hempty] at hr
      exact List.not_mem_nil hr
    rw [hempty, hempty']
  · have hempty' : regions' ≠ [] := by
      obtain ⟨r, hr⟩ := List.exists_mem_of_ne_nil regions hempty
      exact List.ne_nil_of_mem ((h r).2 hr)
    obtain ⟨range, hrange⟩ := exists_ofRegions? hempty
    obtain ⟨range', hrange'⟩ := exists_ofRegions? hempty'
    have hleast := isLeast_ofRegions? hrange'
    simp only [h] at hleast
    rw [hrange, hrange', hleast.unique (isLeast_ofRegions? hrange)]

theorem ofRegions?_append (h : ofRegions? regions = some range)
    (h' : ofRegions? regions' = some range') :
    ofRegions? (regions ++ regions') = some (range.union range') := by
  have hsome : regions ++ regions' ≠ [] := by
    rintro heq
    rw [(List.append_eq_nil_iff.1 heq).1] at h
    cases h
  obtain ⟨both, hboth⟩ := exists_ofRegions? hsome
  have hunion : ∀ box, both ≤ box ↔ range.union range' ≤ box := by
    intro box
    rw [ofRegions?_le_iff hboth, union_le_iff, ofRegions?_le_iff h, ofRegions?_le_iff h',
      List.forall_mem_append]
  rw [hboth, eq_of_forall_ge_iff hunion]

/-! ### The sides -/

/-- Each side of the box lies at a region of the list. -/
structure Touches (range : RegionRange) (regions : List RegionCoord) : Prop where
  minX : ∃ r ∈ regions, r.x = range.minX
  minZ : ∃ r ∈ regions, r.z = range.minZ
  maxX : ∃ r ∈ regions, r.x + 1 = range.maxX
  maxZ : ∃ r ∈ regions, r.z + 1 = range.maxZ

/-- A box that does not include the least one leaves out a region. -/
theorem exists_not_holds (h : IsLeast {box : RegionRange | ∀ r ∈ regions, box.Holds r} range)
    (box : RegionRange) (hbox : ¬ range ≤ box) : ∃ r ∈ regions, ¬ box.Holds r := by
  by_contra hall
  push Not at hall
  exact hbox (h.2 hall)

/-- If a side is moved inward by one, a region that was at that side is left
out. -/
theorem touches_of_isLeast (h : IsLeast {box : RegionRange | ∀ r ∈ regions, box.Holds r} range) :
    range.Touches regions := by
  constructor
  case minX =>
    obtain ⟨r, hr, hout⟩ := exists_not_holds h { range with minX := range.minX + 1 }
      fun hle => Int.not_le.2 (Int.lt_succ range.minX) hle.1.1
    have hin := h.1 r hr
    refine ⟨r, hr, ?_⟩
    by_contra hne
    exact hout { hin with minX := Int.add_one_le_of_lt (lt_of_le_of_ne' hin.minX hne) }
  case minZ =>
    obtain ⟨r, hr, hout⟩ := exists_not_holds h { range with minZ := range.minZ + 1 }
      fun hle => Int.not_le.2 (Int.lt_succ range.minZ) hle.2.1
    have hin := h.1 r hr
    refine ⟨r, hr, ?_⟩
    by_contra hne
    exact hout { hin with minZ := Int.add_one_le_of_lt (lt_of_le_of_ne' hin.minZ hne) }
  case maxX =>
    obtain ⟨r, hr, hout⟩ := exists_not_holds h { range with maxX := range.maxX - 1 }
      fun hle => Int.not_le.2 (Int.sub_lt_self range.maxX Int.one_pos) hle.1.2
    have hin := h.1 r hr
    refine ⟨r, hr, ?_⟩
    by_contra hne
    exact hout { hin with maxX := Int.lt_sub_right_of_add_lt (lt_of_le_of_ne hin.maxX hne) }
  case maxZ =>
    obtain ⟨r, hr, hout⟩ := exists_not_holds h { range with maxZ := range.maxZ - 1 }
      fun hle => Int.not_le.2 (Int.sub_lt_self range.maxZ Int.one_pos) hle.2.2
    have hin := h.1 r hr
    refine ⟨r, hr, ?_⟩
    by_contra hne
    exact hout { hin with maxZ := Int.lt_sub_right_of_add_lt (lt_of_le_of_ne hin.maxZ hne) }

/-- All four numbers fit a signed word of 32 bits. -/
def InRange (range : RegionRange) : Prop :=
  (Decimal.inInt32 range.minX = true ∧ Decimal.inInt32 range.maxX = true) ∧
    Decimal.inInt32 range.minZ = true ∧ Decimal.inInt32 range.maxZ = true

/-- Only a region in the last place that a word can name would have an upper end
that no word can. -/
theorem Touches.inRange (h : range.Touches regions)
    (hregions : ∀ r ∈ regions, r.InRange ∧ r.x < 2147483647 ∧ r.z < 2147483647) :
    range.InRange := by
  obtain ⟨west, hwest, hminX⟩ := h.minX
  obtain ⟨north, hnorth, hminZ⟩ := h.minZ
  obtain ⟨east, heast, hmaxX⟩ := h.maxX
  obtain ⟨south, hsouth, hmaxZ⟩ := h.maxZ
  obtain ⟨⟨hwest', -⟩, -⟩ := hregions west hwest
  obtain ⟨⟨-, hnorth'⟩, -⟩ := hregions north hnorth
  obtain ⟨⟨heast', -⟩, hlast, -⟩ := hregions east heast
  obtain ⟨⟨-, hsouth'⟩, -, hlast'⟩ := hregions south hsouth
  rw [Decimal.inInt32_iff] at heast' hsouth'
  rw [InRange, ← hminX, ← hminZ, Decimal.inInt32_iff (n := range.maxX),
    Decimal.inInt32_iff (n := range.maxZ)]
  exact ⟨⟨hwest', by omega⟩, hnorth', by omega⟩

/-- **The bounds of a list of regions are the least box that holds them.** Every
list but the empty one has bounds. They hold all its regions, every box that
does so includes them, and each side lies at a region. So neither the order of
the list nor repetitions change them, and the bounds of two lists together have
the outer ones of their sides. Unless a region lies in the last place that a
word of 32 bits can name, all four numbers fit such a word. -/
theorem bounds_are_least_box (regions : List RegionCoord) :
    (ofRegions? regions = none ↔ regions = []) ∧
    (regions ≠ [] → ∃ range, ofRegions? regions = some range ∧
      IsLeast {box : RegionRange | ∀ r ∈ regions, box.Holds r} range ∧
      range.Touches regions ∧
      ((∀ r ∈ regions, r.InRange ∧ r.x < 2147483647 ∧ r.z < 2147483647) → range.InRange)) ∧
    (∀ regions', (∀ r, r ∈ regions' ↔ r ∈ regions) →
      ofRegions? regions' = ofRegions? regions) ∧
    ∀ regions' range range',
      ofRegions? regions = some range → ofRegions? regions' = some range' →
      ofRegions? (regions ++ regions') =
        some ⟨min range.minX range'.minX, min range.minZ range'.minZ,
          max range.maxX range'.maxX, max range.maxZ range'.maxZ⟩ := by
  refine ⟨ofRegions?_eq_none_iff, ?_, fun _ h => ofRegions?_congr h,
    fun _ _ _ h h' => ofRegions?_append h h'⟩
  intro hsome
  obtain ⟨range, hrange⟩ := exists_ofRegions? hsome
  have hleast := isLeast_ofRegions? hrange
  have htouches := touches_of_isLeast hleast
  exact ⟨range, hrange, hleast, htouches, htouches.inRange⟩

/-- Three regions on both sides of the origin. -/
def scattered : List RegionCoord := [⟨-2, 5⟩, ⟨3, -1⟩, ⟨0, 0⟩]

/-- The bounds reach from the first of them to the second, also when the list is
turned round and has one of them twice, and a region in the far south moves only
the one side. -/
theorem scattered_regions_bounded :
    IsLeast {box : RegionRange | ∀ r ∈ scattered, box.Holds r} ⟨-2, -1, 4, 6⟩ ∧
      Touches ⟨-2, -1, 4, 6⟩ scattered ∧ InRange ⟨-2, -1, 4, 6⟩ ∧
      ofRegions? [⟨0, 0⟩, ⟨3, -1⟩, ⟨-2, 5⟩, ⟨3, -1⟩] = some ⟨-2, -1, 4, 6⟩ ∧
      ofRegions? (scattered ++ [⟨1, 40⟩]) = some ⟨-2, -1, 4, 41⟩ := by
  obtain ⟨-, hbounds, hcongr, happend⟩ := bounds_are_least_box scattered
  have hscattered : ofRegions? scattered = some ⟨-2, -1, 4, 6⟩ := rfl
  obtain ⟨range, hrange, hleast, htouches, hwords⟩ := hbounds (List.cons_ne_nil _ _)
  obtain rfl := Option.some.inj (hrange.symm.trans hscattered)
  refine ⟨hleast, htouches, hwords ?_, ?_, happend [⟨1, 40⟩] _ _ hscattered rfl⟩
  · simp [scattered, RegionCoord.InRange, Decimal.inInt32]
  · rw [hcongr, hscattered]
    intro r
    simp only [scattered, List.mem_cons, List.not_mem_nil, or_false]
    tauto

end TerrainMap.RegionRange
