import TerrainMap.Proofs.Palette
import TerrainMap.Proofs.Tile.Accounting

/-!
Which pixels of a tile are blank. Blank is black. A pixel is left black where
nothing is known: under an absent chunk, in an empty column, on a block without
a colour. A known colour can turn black as well, if it is dark and the ground
falls, and with the built-in palette this happens to obsidian and to no other
block.
-/

namespace TerrainMap

namespace Color

/-- A moved colour is black if none of its channels is left anything. -/
theorem isMoved_blank_iff {base : Color} {delta : Int} :
    base.IsMoved delta blank ↔
      base.r.toNat + delta ≤ 0 ∧ base.g.toNat + delta ≤ 0 ∧ base.b.toNat + delta ≤ 0 := by
  simp only [IsMoved, blank, UInt8.toNat_zero]
  omega

theorem shade_eq_blank_iff {base : Color} {nearest : Option Int} {elevation : Int} :
    base.shade nearest elevation = blank ↔
      base.AtMost 0 ∧ relief nearest elevation = 0 ∨
        base.AtMost 30 ∧ relief nearest elevation = -30 := by
  have hmoved := base.isMoved_shade nearest elevation
  have hblank : base.shade nearest elevation = blank ↔
      base.IsMoved (relief nearest elevation) blank :=
    ⟨fun h => h ▸ hmoved, fun h => hmoved.unique h⟩
  rw [hblank, isMoved_blank_iff]
  simp only [AtMost]
  rcases relief_cases nearest elevation with h | h | h <;> rw [h] <;> omega

end Color

/-- A slope darkens where it falls. -/
theorem relief_eq_neg_iff {nearest : Option Int} {elevation : Int} :
    relief nearest elevation = -30 ↔ ∃ before, nearest = some before ∧ elevation < before := by
  cases nearest with
  | none => simp [relief]
  | some before =>
      simp only [relief, Option.some.injEq, exists_eq_left']
      split
      · omega
      · split <;> omega

namespace Tile

variable {region : RegionHandle} {palette : Palette} {tile : TileSpec} {policy : ScanPolicy}

theorem IsNearest.unique {chunk : ChunkView} {x z : Nat} {nearest nearest' : Option Int}
    (h : IsNearest chunk palette policy x z nearest)
    (h' : IsNearest chunk palette policy x z nearest') : nearest = nearest' := by
  match nearest, nearest', h, h' with
  | none, none, _, _ => rfl
  | none, some _, h, ⟨x', hx', hbefore, _⟩ => cases (h x' hx').symm.trans hbefore
  | some _, none, ⟨x', hx', hbefore, _⟩, h => cases (h x' hx').symm.trans hbefore
  | some before, some before', ⟨x₁, hx₁, hbefore, hgap⟩, ⟨x₂, hx₂, hbefore', hgap'⟩ =>
      -- of two different columns the earlier one has the other behind it
      rcases Nat.lt_trichotomy x₁ x₂ with hlt | rfl | hlt
      · cases (hgap x₂ hx₂ hlt).symm.trans hbefore'
      · exact hbefore.symm.trans hbefore'
      · cases (hgap' x₁ hx₁ hlt).symm.trans hbefore

/-- Nothing is known about what the pixel `p` shows. -/
inductive Anomaly (region : RegionHandle) (palette : Palette) (tile : TileSpec)
    (policy : ScanPolicy) (p : Nat × Nat) : Prop
  | absent (hread : region.chunk (tile.chunkX + p.1 / 16) (tile.chunkZ + p.2 / 16) = .ok none)
  | empty (hcolumn : columnAt? region tile policy p = some .empty)
  | unknown {id : String} {elevation : Int}
      (hcolumn : columnAt? region tile policy p = some (.block id elevation))
      (hid : palette.lookup id = none)

/-- A column of obsidian that ends lower than the nearest coloured column. -/
def IsDarkObsidian (chunk : ChunkView) (policy : ScanPolicy) (x z : Nat) : Prop :=
  ∃ id elevation before, Column.resolve chunk x z policy = .block id elevation ∧
    Block.normalize id = "obsidian" ∧
    IsNearest chunk Palette.builtin policy x z (some before) ∧ elevation < before

theorem columnAt?_of_chunk {p : Nat × Nat} {chunk : ChunkView}
    (hread : region.chunk (tile.chunkX + p.1 / 16) (tile.chunkZ + p.2 / 16) = .ok (some chunk)) :
    columnAt? region tile policy p = some (Column.resolve chunk (p.1 % 16) (p.2 % 16) policy) := by
  simp only [columnAt?, hread]

/-- With the built-in palette a block turns black just where it is obsidian and
lies lower than the nearest coloured column. -/
theorem shade_builtin_eq_blank_iff {id : String} {base : Color}
    (hid : Palette.builtin.lookup id = some base) {nearest : Option Int} {elevation : Int} :
    base.shade nearest elevation = Color.blank ↔
      Block.normalize id = "obsidian" ∧ ∃ before, nearest = some before ∧ elevation < before := by
  obtain ⟨hblack, hdark⟩ := Palette.builtin_dark hid
  rw [Color.shade_eq_blank_iff, relief_eq_neg_iff]
  constructor
  · rintro (⟨h, -⟩ | ⟨h, hfalls⟩)
    · exact absurd h hblack
    · exact ⟨hdark h, hfalls⟩
  · rintro ⟨hname, hfalls⟩
    rw [Palette.lookup_builtin_of_obsidian hname, Option.some.injEq] at hid
    subst hid
    exact .inr ⟨by decide, hfalls⟩

theorem columnPixel_builtin_eq_blank_iff (chunk : ChunkView) (policy : ScanPolicy) (x z : Nat) :
    (columnPixel chunk Palette.builtin policy x z).color = Color.blank ↔
      Column.resolve chunk x z policy = .empty ∨
        (∃ id elevation, Column.resolve chunk x z policy = .block id elevation ∧
          Palette.builtin.lookup id = none) ∨
        IsDarkObsidian chunk policy x z := by
  have hnearest := isNearest_rowBefore chunk Palette.builtin policy x z
  rw [columnPixel, IsDarkObsidian]
  cases Column.resolve chunk x z policy with
  | empty => simp [RowScan.step, ColumnPixel.color]
  | block id elevation =>
      cases hid : Palette.builtin.lookup id with
      | none => simp [RowScan.step, ColumnPixel.color, hid]
      | some base =>
          simp only [RowScan.step, hid, ColumnPixel.color, shade_builtin_eq_blank_iff hid]
          constructor
          · rintro ⟨hname, before, hbefore, hlt⟩
            exact .inr (.inr ⟨id, elevation, before, rfl, hname, hbefore ▸ hnearest, hlt⟩)
          · rintro (h | ⟨_, _, h, hid'⟩ | ⟨_, _, before, h, hname, hbefore, hlt⟩)
            · cases h
            · cases h
              cases hid.symm.trans hid'
            · cases h
              exact ⟨hname, before, hnearest.unique hbefore, hlt⟩

theorem pixel?_builtin_eq_blank_iff (hfits : tile.Fits)
    (hloads : ∀ place ∈ tile.places, Loads region tile place) {px pz : Nat}
    (hx : px < tile.chunksX * chunkPixels) (hz : pz < tile.chunksZ * chunkPixels) :
    (finalCanvas region Palette.builtin tile policy).surface.pixel? px pz = some Color.blank ↔
      Anomaly region Palette.builtin tile policy (px, pz) ∨
        ∃ chunk, region.chunk (tile.chunkX + px / 16) (tile.chunkZ + pz / 16) = .ok (some chunk) ∧
          IsDarkObsidian chunk policy (px % 16) (pz % 16) := by
  obtain ⟨found, hread⟩ : ∃ found,
    region.chunk (tile.chunkX + px / 16) (tile.chunkZ + pz / 16) = .ok found :=
      hloads _ (div_mem_places hx hz)
  rw [pixel?_finalCanvas hfits hx hz hread, Option.some.injEq]
  cases found with
  | none => exact ⟨fun _ => .inl (.absent hread), fun _ => rfl⟩
  | some chunk =>
      have hcolumn : columnAt? region tile policy (px, pz) = _ := columnAt?_of_chunk hread
      rw [placeColor, columnPixel_builtin_eq_blank_iff]
      constructor
      · rintro (h | ⟨id, elevation, h, hid⟩ | h)
        · exact .inl (.empty (hcolumn.trans (congrArg some h)))
        · exact .inl (.unknown (hcolumn.trans (congrArg some h)) hid)
        · exact .inr ⟨chunk, hread, h⟩
      · rintro ((h | h | ⟨h, hid⟩) | ⟨chunk', h, hdark⟩)
        · cases hread.symm.trans h
        · exact .inl (Option.some.inj (hcolumn.symm.trans h))
        · exact .inr (.inl ⟨_, _, Option.some.inj (hcolumn.symm.trans h), hid⟩)
        · cases hread.symm.trans h
          exact .inr (.inr hdark)

/-! ### Reports without anomalies -/

/-- No event of a tile is of some kind if none is at any of its pixels. -/
theorem countP_events_eq_zero_iff {kind : Event → Bool} {p : Nat × Nat → Prop}
    (hplace : ∀ place, (readEvents region palette tile policy place).countP kind = 0 ↔
      ∀ q ∈ placePixels place, p q) :
    (events region palette tile policy).countP kind = 0 ↔ ∀ q ∈ visited tile, p q := by
  simp only [events, visited, List.countP_eq_zero, List.forall_mem_flatMap] at hplace ⊢
  exact forall₂_congr fun place _ => hplace place

theorem absentChunks_eq_zero_iff :
    (finalCanvas region palette tile policy).report.absentChunks = 0 ↔
      ∀ q ∈ visited tile,
        region.chunk (tile.chunkX + q.1 / 16) (tile.chunkZ + q.2 / 16) ≠ .ok none := by
  rw [finalCanvas_report]
  refine countP_events_eq_zero_iff fun place => ?_
  rw [countP_isAbsent_readEvents, isAbsentAt]
  constructor
  · intro hzero q hq hread
    obtain rfl := mem_placePixels.1 hq
    simp [hread] at hzero
  · intro hpresent
    have hcorner : (place.1 * 16, place.2 * 16) ∈ placePixels place :=
      mem_placePixels.2 (Prod.ext (by simp) (by simp))
    have hread : region.chunk (tile.chunkX + place.1) (tile.chunkZ + place.2) ≠ .ok none := by
      simpa using hpresent _ hcorner
    split
    · next habsent => simp [hread] at habsent
    · rfl

theorem emptyColumns_eq_zero_iff :
    (finalCanvas region palette tile policy).report.emptyColumns = 0 ↔
      ∀ q ∈ visited tile, columnAt? region tile policy q ≠ some .empty := by
  rw [finalCanvas_report]
  refine countP_events_eq_zero_iff fun place => ?_
  rw [countP_isEmpty_readEvents, List.countP_eq_zero]
  simp only [decide_eq_true_eq, ne_eq]

theorem unknownBlocks_eq_empty_iff :
    (finalCanvas region palette tile policy).report.unknownBlocks = #[] ↔
      ∀ q ∈ visited tile, ∀ id elevation,
        columnAt? region tile policy q = some (.block id elevation) →
          palette.lookup id ≠ none := by
  rw [← Array.toList_eq_nil_iff, unknownBlocks_eq, List.filterMap_eq_nil_iff]
  refine forall₂_congr fun q _ => ?_
  rw [unknownAt?, Option.map_eq_none_iff, Option.eq_none_iff_forall_ne_some]
  refine forall_congr' fun id => ?_
  rw [ne_eq, unknownId?_eq_some_iff, not_exists]
  exact forall_congr' fun elevation => not_and

theorem report_clean_iff :
    ((finalCanvas region palette tile policy).report.absentChunks = 0 ∧
      (finalCanvas region palette tile policy).report.emptyColumns = 0 ∧
      (finalCanvas region palette tile policy).report.unknownBlocks = #[]) ↔
      ∀ px < tile.chunksX * chunkPixels, ∀ pz < tile.chunksZ * chunkPixels,
        ¬ Anomaly region palette tile policy (px, pz) := by
  rw [absentChunks_eq_zero_iff, emptyColumns_eq_zero_iff, unknownBlocks_eq_empty_iff]
  constructor
  · rintro ⟨hpresent, hfull, hknown⟩ px hx pz hz hanomaly
    have hvisited : (px, pz) ∈ visited tile := mem_visited.2 ⟨hx, hz⟩
    cases hanomaly with
    | absent hread => exact hpresent _ hvisited hread
    | empty hcolumn => exact hfull _ hvisited hcolumn
    | unknown hcolumn hid => exact hknown _ hvisited _ _ hcolumn hid
  · intro hnone
    have hclean (q : Nat × Nat) (hq : q ∈ visited tile) :
        ¬ Anomaly region palette tile policy q :=
      hnone q.1 (mem_visited.1 hq).1 q.2 (mem_visited.1 hq).2
    exact ⟨fun q hq hread => hclean q hq (.absent hread),
      fun q hq hcolumn => hclean q hq (.empty hcolumn),
      fun q hq _ _ hcolumn hid => hclean q hq (.unknown hcolumn hid)⟩

/-- Dark obsidian on known ground leaves a blank pixel that no report tells of. -/
theorem exists_unreported_blank (hfits : tile.Fits)
    (hloads : ∀ place ∈ tile.places, Loads region tile place)
    (hclean : ∀ px < tile.chunksX * chunkPixels, ∀ pz < tile.chunksZ * chunkPixels,
      ¬ Anomaly region Palette.builtin tile policy (px, pz))
    {px pz : Nat} (hx : px < tile.chunksX * chunkPixels) (hz : pz < tile.chunksZ * chunkPixels)
    {chunk : ChunkView}
    (hread : region.chunk (tile.chunkX + px / 16) (tile.chunkZ + pz / 16) = .ok (some chunk))
    (hdark : IsDarkObsidian chunk policy (px % 16) (pz % 16)) :
    ∃ rendered, (render region Palette.builtin tile policy).outcome = .ok rendered ∧
      (rendered.report.absentChunks = 0 ∧ rendered.report.emptyColumns = 0 ∧
        rendered.report.unknownBlocks = #[]) ∧
      rendered.raster.pixel? px pz = some Color.blank :=
  ⟨_, (outcome_eq_ok_iff hfits).2 ⟨hloads, rfl⟩, report_clean_iff.2 hclean,
    (pixel?_builtin_eq_blank_iff hfits hloads hx hz).2 (.inr ⟨chunk, hread, hdark⟩)⟩

/-- **Known ground is blank only as dark obsidian.** A tile that fits and whose
chunks load, rendered with the built-in palette, is blank where nothing is known and where
obsidian lies lower than the nearest coloured column before it, and nowhere
else. A report is free of anomalies just where no pixel has one; of such a tile
only the dark obsidian is blank. -/
theorem blank_pixels_of_builtin (region : RegionHandle) (tile : TileSpec) (policy : ScanPolicy)
    (hfits : tile.Fits)
    (hloads : ∀ x < tile.chunksX, ∀ z < tile.chunksZ, ∃ found,
      region.chunk (tile.chunkX + x) (tile.chunkZ + z) = .ok found) :
    ∃ rendered, (render region Palette.builtin tile policy).outcome = .ok rendered ∧
      (rendered.raster.width = tile.chunksX * chunkPixels ∧
        rendered.raster.height = tile.chunksZ * chunkPixels) ∧
      (∀ px < rendered.raster.width, ∀ pz < rendered.raster.height,
        rendered.raster.pixel? px pz = some Color.blank ↔
          Anomaly region Palette.builtin tile policy (px, pz) ∨
            ∃ chunk,
              region.chunk (tile.chunkX + px / 16) (tile.chunkZ + pz / 16) = .ok (some chunk) ∧
              IsDarkObsidian chunk policy (px % 16) (pz % 16)) ∧
      ((rendered.report.absentChunks = 0 ∧ rendered.report.emptyColumns = 0 ∧
          rendered.report.unknownBlocks = #[]) ↔
        ∀ px < rendered.raster.width, ∀ pz < rendered.raster.height,
          ¬ Anomaly region Palette.builtin tile policy (px, pz)) ∧
      (rendered.report.absentChunks = 0 → rendered.report.emptyColumns = 0 →
        rendered.report.unknownBlocks = #[] →
        ∀ px < rendered.raster.width, ∀ pz < rendered.raster.height,
          rendered.raster.pixel? px pz = some Color.blank ↔
            ∃ chunk,
              region.chunk (tile.chunkX + px / 16) (tile.chunkZ + pz / 16) = .ok (some chunk) ∧
              IsDarkObsidian chunk policy (px % 16) (pz % 16)) := by
  have hall := loads_of_forall hloads
  have hcanvas := fits_finalCanvas region Palette.builtin hfits policy
  refine ⟨_, (outcome_eq_ok_iff hfits).2 ⟨hall, rfl⟩, ⟨hcanvas.width, hcanvas.height⟩, ?_⟩
  simp only [hcanvas.width, hcanvas.height]
  refine ⟨fun px hx pz hz => pixel?_builtin_eq_blank_iff hfits hall hx hz, report_clean_iff, ?_⟩
  intro habsent hempty hunknown px hx pz hz
  have hclean := report_clean_iff.1 ⟨habsent, hempty, hunknown⟩ px hx pz hz
  rw [pixel?_builtin_eq_blank_iff hfits hall hx hz, or_iff_right hclean]

/-- Obsidian in which every second column is one block higher than the one
before it. -/
def obsidianChunk : ChunkView := ⟨fun x y _ => if y ≤ 250 + x % 2 then "obsidian" else "air"⟩

def obsidianRegion : RegionHandle := ⟨⟨0, 0⟩, fun _ _ => .ok (some obsidianChunk)⟩

theorem isClear_obsidianChunk_iff {x z y : Nat} :
    Column.IsClear obsidianChunk x z y ↔ 250 + x % 2 < y := by
  simp only [Column.IsClear, obsidianChunk]
  split
  · exact iff_of_false (by decide) (by omega)
  · exact iff_of_true (by decide) (by omega)

theorem resolve_obsidianChunk (x z : Nat) :
    Column.resolve obsidianChunk x z .overworld = .block "obsidian" (250 + x % 2 : Nat) := by
  refine ((Column.shows_overworld _ x z).block_iff _ _).2 ⟨250 + x % 2, ⟨?_, ?_⟩, rfl, ?_⟩
  · exact ⟨by omega, by simp [isClear_obsidianChunk_iff]⟩
  · rintro y ⟨-, hsolid⟩
    rw [isClear_obsidianChunk_iff] at hsolid
    omega
  · simp [obsidianChunk]

theorem lookup_obsidian : Palette.builtin.lookup "obsidian" = some ⟨15, 10, 24⟩ :=
  Palette.lookup_builtin_of_obsidian (by decide)

theorem not_anomaly_obsidian (p : Nat × Nat) :
    ¬ Anomaly obsidianRegion Palette.builtin ⟨0, 0, 1, 1⟩ .overworld p := by
  have hcolumn : columnAt? obsidianRegion ⟨0, 0, 1, 1⟩ .overworld p =
      some (.block "obsidian" (250 + p.1 % 16 % 2 : Nat)) :=
    congrArg some (resolve_obsidianChunk _ _)
  rintro (hread | hempty | ⟨hunknown, hid⟩)
  · cases hread
  · cases hcolumn.symm.trans hempty
  · cases hcolumn.symm.trans hunknown
    cases lookup_obsidian.symm.trans hid

theorem isDarkObsidian_obsidianChunk : IsDarkObsidian obsidianChunk .overworld 2 0 := by
  have hbefore : elevation? obsidianChunk Palette.builtin .overworld 1 0 = some 251 := by
    rw [elevation?, resolve_obsidianChunk]
    simp [Column.coloured?, lookup_obsidian]
  exact ⟨"obsidian", 250, 251, resolve_obsidianChunk 2 0, by decide,
    ⟨1, by decide, hbefore, fun x hx hx' => absurd hx (by omega)⟩, by decide⟩

/-- The third column of the obsidian is blank, the first one is not. -/
theorem obsidian_pixels :
    TileSpec.Fits ⟨0, 0, 1, 1⟩ ∧
    (∀ x < 1, ∀ z < 1, ∃ found, obsidianRegion.chunk (0 + x) (0 + z) = .ok found) ∧
    ∃ rendered,
      (render obsidianRegion Palette.builtin ⟨0, 0, 1, 1⟩ .overworld).outcome = .ok rendered ∧
      rendered.raster.pixel? 2 0 = some Color.blank ∧
      rendered.raster.pixel? 0 0 ≠ some Color.blank := by
  have hloads : ∀ x < 1, ∀ z < 1, ∃ found, obsidianRegion.chunk (0 + x) (0 + z) = .ok found :=
    fun x _ z _ => ⟨_, rfl⟩
  have hfits : TileSpec.Fits ⟨0, 0, 1, 1⟩ := TileSpec.fits_of_le (by decide) (by decide)
  obtain ⟨rendered, hrendered, ⟨hwidth, hheight⟩, hblank, -, -⟩ :=
    blank_pixels_of_builtin obsidianRegion ⟨0, 0, 1, 1⟩ .overworld hfits hloads
  rw [hwidth, hheight] at hblank
  refine ⟨hfits, hloads, rendered, hrendered, ?_, ?_⟩
  · exact (hblank 2 (by decide) 0 (by decide)).2 (.inr ⟨_, rfl, isDarkObsidian_obsidianChunk⟩)
  · intro hfirst
    rcases (hblank 0 (by decide) 0 (by decide)).1 hfirst with hanomaly | ⟨chunk, hread, hdark⟩
    · exact not_anomaly_obsidian _ hanomaly
    -- nothing comes before the first column of a row
    · obtain ⟨-, -, -, -, -, ⟨x, hx, -⟩, -⟩ := hdark
      exact absurd hx (Nat.not_lt_zero x)

/-- Every block of the tile is found and has a colour, its report names no
anomaly, and still one of its pixels is blank. -/
theorem blank_on_known_ground :
    ∃ rendered,
      (render obsidianRegion Palette.builtin ⟨0, 0, 1, 1⟩ .overworld).outcome = .ok rendered ∧
      (rendered.report.absentChunks = 0 ∧ rendered.report.emptyColumns = 0 ∧
        rendered.report.unknownBlocks = #[]) ∧
      columnAt? obsidianRegion ⟨0, 0, 1, 1⟩ .overworld (2, 0) = some (.block "obsidian" 250) ∧
      Palette.builtin.lookup "obsidian" = some ⟨15, 10, 24⟩ ∧
      rendered.raster.pixel? 2 0 = some Color.blank := by
  obtain ⟨rendered, hrendered, hreport, hblank⟩ :=
    exists_unreported_blank (TileSpec.fits_of_le (by decide) (by decide))
      (fun _ _ => ⟨_, rfl⟩) (fun px _ pz _ => not_anomaly_obsidian (px, pz))
      (show 2 < 1 * chunkPixels by decide) (show 0 < 1 * chunkPixels by decide) rfl
      isDarkObsidian_obsidianChunk
  exact ⟨rendered, hrendered, hreport, congrArg some (resolve_obsidianChunk 2 0), lookup_obsidian,
    hblank⟩

end Tile

end TerrainMap
