import Mathlib.Data.List.Nodup
import Mathlib.Data.List.Perm.Basic
import Mathlib.Data.Prod.Lex
import TerrainMap.Proofs.Tile.PixelLaw
import TerrainMap.Proofs.Tile.Report

/-!
How a report and a log account for the pixels of a tile. Under every pixel
there is a column of a chunk that is absent, or one in which a scan finds
nothing, a block without a colour, or a block that has one. Chunks are visited
row by row, and the columns of each are, too; in that order the report counts
what it met and lists the blocks without a colour, and the log names them.
-/

namespace TerrainMap

/-- The pixels of a tile, row by row. -/
def TileSpec.pixels (tile : TileSpec) : List (Nat × Nat) :=
  (List.range (tile.chunksZ * chunkPixels)).flatMap fun pz =>
    (List.range (tile.chunksX * chunkPixels)).map fun px => (px, pz)

namespace Tile

variable {region : RegionHandle} {palette : Palette} {tile : TileSpec} {policy : ScanPolicy}

/-- What a scan finds under a pixel of the tile, unless the chunk is absent. -/
def columnAt? (region : RegionHandle) (tile : TileSpec) (policy : ScanPolicy) (p : Nat × Nat) :
    Option Column :=
  match region.chunk (tile.chunkX + p.1 / 16) (tile.chunkZ + p.2 / 16) with
  | .ok (some chunk) => some (Column.resolve chunk (p.1 % 16) (p.2 % 16) policy)
  | _ => none

def isAbsentAt (region : RegionHandle) (tile : TileSpec) (place : Nat × Nat) : Bool :=
  match region.chunk (tile.chunkX + place.1) (tile.chunkZ + place.2) with
  | .ok none => true
  | _ => false

/-- The block that is found has no colour. -/
def unknownId? (palette : Palette) : Option Column → Option String
  | some (.block id _) => if (palette.lookup id).isNone then some id else none
  | _ => none

/-- The block that is found has a colour. -/
def isShaded (palette : Palette) : Option Column → Bool
  | some (.block id _) => (palette.lookup id).isSome
  | _ => false

/-- Pixels are visited by the rows of their chunks, by their chunks, by their
rows inside the chunk, and from left to right. -/
def visitKey (x z : Nat) : Nat ×ₗ Nat ×ₗ Nat ×ₗ Nat :=
  toLex (z / 16, toLex (x / 16, toLex (z % 16, x % 16)))

/-- How the log names an entry of the report: by its id and the chunk its pixel
lies in. -/
def entryLine (coord : RegionCoord) (tile : TileSpec) (u : UnknownBlock) : LogLine :=
  unknownLine u.id coord (tile.chunkX + u.x / 16) (tile.chunkZ + u.z / 16)

/-- A report and a log agree with what there is under the pixels of a tile. -/
structure Accounts (region : RegionHandle) (palette : Palette) (tile : TileSpec)
    (policy : ScanPolicy) (rendered : RenderedTile) (log : List LogLine) : Prop where
  width : rendered.raster.width = tile.chunksX * chunkPixels
  height : rendered.raster.height = tile.chunksZ * chunkPixels
  chunks : rendered.report.renderedChunks + rendered.report.absentChunks =
    tile.chunksX * tile.chunksZ
  absent : rendered.report.absentChunks = tile.places.countP (isAbsentAt region tile)
  empty : rendered.report.emptyColumns =
    tile.pixels.countP fun p => columnAt? region tile policy p = some .empty
  unknown : ∀ u, u ∈ rendered.report.unknownBlocks ↔
    u.x < rendered.raster.width ∧ u.z < rendered.raster.height ∧
      ∃ e, columnAt? region tile policy (u.x, u.z) = some (.block u.id e) ∧
        palette.lookup u.id = none
  inOrder : rendered.report.unknownBlocks.toList.Pairwise
    fun u v => visitKey u.x u.z < visitKey v.x v.z
  blank : ∀ u ∈ rendered.report.unknownBlocks, rendered.raster.pixel? u.x u.z = some ⟨0, 0, 0⟩
  total : 256 * rendered.report.absentChunks + rendered.report.emptyColumns +
      rendered.report.unknownBlocks.size +
      tile.pixels.countP (fun p => isShaded palette (columnAt? region tile policy p)) =
    rendered.raster.width * rendered.raster.height
  log : log = tile.places.flatMap fun place =>
    if isAbsentAt region tile place then
      [absentLine region.coord (tile.chunkX + place.1) (tile.chunkZ + place.2)]
    else (rendered.report.unknownBlocks.toList.filter fun u => (u.x / 16, u.z / 16) = place).map
      (entryLine region.coord tile)

/-! ### Pixels in the order of the visit -/

/-- The columns of a chunk, row by row. -/
def squareColumns : List (Nat × Nat) :=
  (List.range chunkEdge).flatMap fun z => (List.range chunkEdge).map fun x => (x, z)

def placePixels (place : Nat × Nat) : List (Nat × Nat) :=
  squareColumns.map fun c => (place.1 * 16 + c.1, place.2 * 16 + c.2)

def visited (tile : TileSpec) : List (Nat × Nat) := tile.places.flatMap placePixels

theorem mem_squareColumns {c : Nat × Nat} : c ∈ squareColumns ↔ c.1 < 16 ∧ c.2 < 16 := by
  obtain ⟨x, z⟩ := c
  simp [squareColumns, chunkEdge, and_comm]

theorem length_squareColumns : squareColumns.length = 256 := by
  simp [squareColumns, chunkEdge]

theorem mem_placePixels {place p : Nat × Nat} :
    p ∈ placePixels place ↔ (p.1 / 16, p.2 / 16) = place := by
  obtain ⟨x, z⟩ := p
  obtain ⟨px, pz⟩ := place
  simp only [placePixels, List.mem_map, mem_squareColumns, Prod.mk.injEq]
  constructor
  · rintro ⟨c, hc, rfl, rfl⟩
    omega
  · rintro ⟨rfl, rfl⟩
    exact ⟨(x % 16, z % 16), by omega, by omega⟩

theorem mem_visited {p : Nat × Nat} :
    p ∈ visited tile ↔
      p.1 < tile.chunksX * chunkPixels ∧ p.2 < tile.chunksZ * chunkPixels := by
  simp only [visited, List.mem_flatMap, mem_placePixels, TileSpec.mem_places, chunkPixels]
  constructor
  · rintro ⟨place, hplace, rfl⟩
    omega
  · rintro hp
    exact ⟨_, by omega, rfl⟩

theorem mem_pixels {p : Nat × Nat} :
    p ∈ tile.pixels ↔
      p.1 < tile.chunksX * chunkPixels ∧ p.2 < tile.chunksZ * chunkPixels := by
  obtain ⟨x, z⟩ := p
  simp [TileSpec.pixels, and_comm]

theorem visitKey_lt_iff {x z x' z' : Nat} :
    visitKey x z < visitKey x' z' ↔
      z / 16 < z' / 16 ∨ z / 16 = z' / 16 ∧ (x / 16 < x' / 16 ∨ x / 16 = x' / 16 ∧
        (z % 16 < z' % 16 ∨ z % 16 = z' % 16 ∧ x % 16 < x' % 16)) := by
  simp only [visitKey, Prod.Lex.toLex_lt_toLex]

theorem pairwise_placePixels (place : Nat × Nat) :
    (placePixels place).Pairwise fun p q => visitKey p.1 p.2 < visitKey q.1 q.2 := by
  rw [placePixels, List.pairwise_map]
  have hsquare : squareColumns.Pairwise fun c d => c.2 < d.2 ∨ c.2 = d.2 ∧ c.1 < d.1 := by
    rw [squareColumns, List.pairwise_flatMap]
    constructor
    · intro z _
      rw [List.pairwise_map]
      exact List.pairwise_lt_range.imp fun h => .inr ⟨rfl, h⟩
    · refine List.pairwise_lt_range.imp fun h c hc d hd => ?_
      obtain ⟨_, _, rfl⟩ := List.mem_map.1 hc
      obtain ⟨_, _, rfl⟩ := List.mem_map.1 hd
      exact .inl h
  refine hsquare.imp_of_mem fun {c d} hc hd h => ?_
  rw [mem_squareColumns] at hc hd
  rw [visitKey_lt_iff]
  omega

theorem pairwise_visited (tile : TileSpec) :
    (visited tile).Pairwise fun p q => visitKey p.1 p.2 < visitKey q.1 q.2 := by
  rw [visited, List.pairwise_flatMap]
  refine ⟨fun place _ => pairwise_placePixels place, ?_⟩
  refine (places_pairwise tile).imp fun {place place'} h p hp q hq => ?_
  rw [mem_placePixels] at hp hq
  subst hp hq
  rw [visitKey_lt_iff]
  simp only [Before] at h
  omega

/-- A visit meets every pixel of the tile once. -/
theorem visited_perm_pixels (tile : TileSpec) : (visited tile).Perm tile.pixels := by
  have hvisited : (visited tile).Nodup := (pairwise_visited tile).imp fun h heq => by
    subst heq
    exact lt_irrefl _ h
  have hpixels : tile.pixels.Nodup := by
    rw [TileSpec.pixels, List.nodup_flatMap]
    constructor
    · intro pz _
      exact List.nodup_range.map fun px px' h => (Prod.mk.inj h).1
    · refine List.nodup_range.imp fun {z z'} hne p hp hp' => ?_
      obtain ⟨_, _, rfl⟩ := List.mem_map.1 hp
      obtain ⟨_, _, heq⟩ := List.mem_map.1 hp'
      exact hne (Prod.mk.inj heq).2.symm
  rw [List.perm_ext_iff_of_nodup hvisited hpixels]
  intro p
  rw [mem_visited, mem_pixels]

/-! ### What the events of a place contribute -/

/-- The entry of the report for a pixel, if the block under it has no colour. -/
def unknownAt? (region : RegionHandle) (palette : Palette) (tile : TileSpec) (policy : ScanPolicy)
    (p : Nat × Nat) : Option UnknownBlock :=
  (unknownId? palette (columnAt? region tile policy p)).map fun id => ⟨id, p.1, p.2⟩

theorem rowsEvents_eq_map (chunk : ChunkView) (palette : Palette) (policy : ScanPolicy)
    (place : Nat × Nat) :
    rowsEvents chunk palette policy place 0 chunkEdge =
      squareColumns.map fun c =>
        .column place c.1 c.2 (columnPixel chunk palette policy c.1 c.2) := by
  simp only [rowsEvents, rowEvents, squareColumns, List.map_flatMap, List.map_map,
    List.range_eq_range', Function.comp_def]

theorem columnAt?_place (region : RegionHandle) (tile : TileSpec) (policy : ScanPolicy)
    (place : Nat × Nat) {c : Nat × Nat} (hc : c ∈ squareColumns) :
    columnAt? region tile policy (place.1 * 16 + c.1, place.2 * 16 + c.2) =
      match region.chunk (tile.chunkX + place.1) (tile.chunkZ + place.2) with
      | .ok (some chunk) => some (Column.resolve chunk c.1 c.2 policy)
      | _ => none := by
  obtain ⟨hx, hz⟩ := mem_squareColumns.1 hc
  have hplace : (place.1 * 16 + c.1) / 16 = place.1 ∧ (place.2 * 16 + c.2) / 16 = place.2 := by
    omega
  have hcolumn : (place.1 * 16 + c.1) % 16 = c.1 ∧ (place.2 * 16 + c.2) % 16 = c.2 := by omega
  simp only [columnAt?, hplace, hcolumn]

section Column

variable (chunk : ChunkView) (palette : Palette) (policy : ScanPolicy) (place : Nat × Nat)
  (x z : Nat)

theorem isEmpty_column :
    (Event.column place x z (columnPixel chunk palette policy x z)).isEmpty =
      decide (Column.resolve chunk x z policy = .empty) := by
  rw [columnPixel]
  cases Column.resolve chunk x z policy with
  | empty => rfl
  | block id e => cases hid : palette.lookup id <;> simp [RowScan.step, hid, Event.isEmpty]

theorem unknown?_column :
    (Event.column place x z (columnPixel chunk palette policy x z)).unknown? =
      (unknownId? palette (some (Column.resolve chunk x z policy))).map
        fun id => ⟨id, place.1 * 16 + x, place.2 * 16 + z⟩ := by
  rw [columnPixel]
  cases Column.resolve chunk x z policy with
  | empty => rfl
  | block id e =>
      cases hid : palette.lookup id <;>
        simp [RowScan.step, hid, Event.unknown?, unknownId?, chunkPixels]

theorem line?_column (coord : RegionCoord) (tile : TileSpec) :
    (Event.column place x z (columnPixel chunk palette policy x z)).line? coord tile =
      (unknownId? palette (some (Column.resolve chunk x z policy))).map
        (placeLine coord tile place) := by
  rw [columnPixel]
  cases Column.resolve chunk x z policy with
  | empty => rfl
  | block id e =>
      cases hid : palette.lookup id <;>
        simp [RowScan.step, hid, Event.line?, unknownId?, placeLine]

end Column

section Place

variable (region : RegionHandle) (palette : Palette) (tile : TileSpec) (policy : ScanPolicy)
  (place : Nat × Nat)

/-- What the events of a place contribute its columns do, if `f` sees nothing
else. -/
theorem filterMap_readEvents {β : Type} {f : Event → Option β} {g : Nat × Nat → Option β}
    (habsent : isAbsentAt region tile place → f (.absent place) = none)
    (hfinished : f .finished = none)
    (hnone : ∀ p, columnAt? region tile policy p = none → g p = none)
    (hcolumn : ∀ chunk x z, columnAt? region tile policy (place.1 * 16 + x, place.2 * 16 + z) =
        some (Column.resolve chunk x z policy) → x < 16 → z < 16 →
      f (.column place x z (columnPixel chunk palette policy x z)) =
        g (place.1 * 16 + x, place.2 * 16 + z)) :
    (readEvents region palette tile policy place).filterMap f =
      (placePixels place).filterMap g := by
  have hplace := fun c hc => columnAt?_place region tile policy place (c := c) hc
  rw [placePixels, List.filterMap_map, readEvents]
  cases hread : region.chunk (tile.chunkX + place.1) (tile.chunkZ + place.2) with
  | error halt =>
      refine (List.filterMap_eq_nil_iff.2 fun c hc => hnone _ ?_).symm
      simp only [hplace c hc, hread]
  | ok found =>
      cases found with
      | none =>
          have hclear := habsent (by simp only [isAbsentAt, hread])
          simp only [placeEvents]
          rw [List.filterMap_cons_none hclear, List.filterMap_nil]
          refine (List.filterMap_eq_nil_iff.2 fun c hc => hnone _ ?_).symm
          simp only [hplace c hc, hread]
      | some chunk =>
          simp only [placeEvents, rowsEvents_eq_map]
          rw [List.filterMap_append, List.filterMap_cons_none hfinished, List.filterMap_nil,
            List.append_nil, List.filterMap_map]
          refine List.filterMap_congr fun c hc => ?_
          obtain ⟨hx, hz⟩ := mem_squareColumns.1 hc
          exact hcolumn chunk c.1 c.2 (by simp only [hplace c hc, hread]) hx hz

theorem filterMap_unknown?_readEvents :
    (readEvents region palette tile policy place).filterMap Event.unknown? =
      (placePixels place).filterMap (unknownAt? region palette tile policy) := by
  refine filterMap_readEvents region palette tile policy place (fun _ => rfl) rfl ?_ ?_
  · intro p hp
    simp [unknownAt?, hp, unknownId?]
  · intro chunk x z hresolve _ _
    rw [unknown?_column, unknownAt?, hresolve]

theorem countP_isEmpty_readEvents :
    (readEvents region palette tile policy place).countP Event.isEmpty =
      (placePixels place).countP fun p => columnAt? region tile policy p = some .empty := by
  have hmarks : (readEvents region palette tile policy place).filterMap
        (fun event => if event.isEmpty then some () else none) =
      (placePixels place).filterMap fun p =>
        if columnAt? region tile policy p = some .empty then some () else none := by
    refine filterMap_readEvents region palette tile policy place (fun _ => rfl) rfl ?_ ?_
    · intro p hp
      simp [hp]
    · intro chunk x z hresolve _ _
      simp [isEmpty_column, hresolve]
  have hlength := congrArg List.length hmarks
  rw [List.length_filterMap_eq_countP, List.length_filterMap_eq_countP] at hlength
  simpa [apply_ite] using hlength

/-- The lines of a place. -/
theorem filterMap_line?_readEvents :
    (readEvents region palette tile policy place).filterMap (Event.line? region.coord tile) =
      if isAbsentAt region tile place then
        [absentLine region.coord (tile.chunkX + place.1) (tile.chunkZ + place.2)]
      else ((placePixels place).filterMap (unknownAt? region palette tile policy)).map
        (entryLine region.coord tile) := by
  split
  · next habsent =>
      rw [isAbsentAt] at habsent
      split at habsent
      · next hread => simp [readEvents, hread, placeEvents, Event.line?]
      · cases habsent
  · next hpresent =>
      rw [List.map_filterMap]
      refine filterMap_readEvents region palette tile policy place (fun h => absurd h hpresent)
        rfl ?_ ?_
      · intro p hp
        simp [unknownAt?, hp, unknownId?]
      · intro chunk x z hresolve hx hz
        have hplace : (place.1 * 16 + x) / 16 = place.1 ∧ (place.2 * 16 + z) / 16 = place.2 := by
          omega
        rw [line?_column, unknownAt?, hresolve, Option.map_map]
        simp only [Function.comp_def, entryLine, hplace]
        rfl

theorem countP_isAbsent_readEvents :
    (readEvents region palette tile policy place).countP Event.isAbsent =
      if isAbsentAt region tile place then 1 else 0 := by
  rw [readEvents, isAbsentAt]
  cases region.chunk (tile.chunkX + place.1) (tile.chunkZ + place.2) with
  | error halt => rfl
  | ok found =>
      cases found with
      | none => rfl
      | some chunk =>
          simp [placeEvents, rowsEvents_eq_map, List.countP_map, Function.comp_def, Event.isAbsent]

variable {region tile place}

theorem countP_isFinished_readEvents (hloads : Loads region tile place) :
    (readEvents region palette tile policy place).countP Event.isFinished =
      if isAbsentAt region tile place then 0 else 1 := by
  obtain ⟨found, hread⟩ := hloads
  rw [readEvents, isAbsentAt, hread]
  cases found with
  | none => rfl
  | some chunk =>
      simp [placeEvents, rowsEvents_eq_map, List.countP_map, Function.comp_def, Event.isFinished]

theorem countP_none_placePixels (hloads : Loads region tile place) :
    ((placePixels place).countP fun p => columnAt? region tile policy p = none) =
      if isAbsentAt region tile place then 256 else 0 := by
  obtain ⟨found, hread⟩ := hloads
  have hplace := fun c hc => columnAt?_place region tile policy place (c := c) hc
  rw [placePixels, List.countP_map, isAbsentAt, hread]
  cases found with
  | none =>
      rw [if_pos rfl, ← length_squareColumns]
      refine List.countP_eq_length.2 fun c hc => ?_
      simp [hplace c hc, hread]
  | some chunk =>
      refine List.countP_eq_zero.2 fun c hc => ?_
      simp [hplace c hc, hread]

end Place

/-! ### Sums over the places of a tile -/

theorem countP_flatMap_eq_mul {α β : Type} {f : α → List β} {q : β → Bool} {p : α → Bool} (n : Nat)
    {l : List α} (h : ∀ a ∈ l, (f a).countP q = if p a then n else 0) :
    (l.flatMap f).countP q = n * l.countP p := by
  induction l with
  | nil => rfl
  | cons a l ih =>
      rw [List.flatMap_cons, List.countP_append, h a List.mem_cons_self,
        ih fun a ha => h a (List.mem_cons_of_mem _ ha), List.countP_cons]
      split <;> simp [Nat.mul_add, Nat.add_comm]

/-- A column is absent, empty, or a block with or without a colour. -/
theorem length_eq_counts {α : Type} (palette : Palette) (f : α → Option Column) (l : List α) :
    (l.countP fun a => f a = none) + (l.countP fun a => f a = some .empty) +
        (l.countP fun a => (unknownId? palette (f a)).isSome) +
        l.countP (fun a => isShaded palette (f a)) = l.length := by
  induction l with
  | nil => rfl
  | cons a l ih =>
      have hone : (if f a = none then 1 else 0) + (if f a = some .empty then 1 else 0) +
          (if (unknownId? palette (f a)).isSome then 1 else 0) +
          (if isShaded palette (f a) then 1 else 0) = 1 := by
        match f a with
        | none => rfl
        | some .empty => rfl
        | some (.block id e) =>
            cases hid : palette.lookup id <;> simp [unknownId?, isShaded, hid]
      simp only [List.countP_cons, List.length_cons, decide_eq_true_eq]
      omega

theorem length_visited (tile : TileSpec) :
    (visited tile).length = tile.chunksX * chunkPixels * (tile.chunksZ * chunkPixels) := by
  rw [(visited_perm_pixels tile).length_eq, TileSpec.pixels]
  simp [Nat.mul_comm]

theorem length_places (tile : TileSpec) : tile.places.length = tile.chunksX * tile.chunksZ := by
  simp [TileSpec.places, Nat.mul_comm]

/-- The pixels of a place are those of a visit that lie in it. -/
theorem filter_visited {place : Nat × Nat} (h : place ∈ tile.places) :
    (visited tile).filter (fun p => (p.1 / 16, p.2 / 16) = place) = placePixels place := by
  have hirrefl : ∀ p q : Nat × Nat, visitKey p.1 p.2 < visitKey q.1 q.2 → p ≠ q := by
    rintro p q hlt rfl
    exact lt_irrefl _ hlt
  have hfilter := (pairwise_visited tile).filter fun p => (p.1 / 16, p.2 / 16) = place
  have hplace := pairwise_placePixels place
  refine List.Perm.eq_of_pairwise (fun p q _ _ hlt hgt => absurd hlt hgt.asymm) hfilter hplace ?_
  rw [List.perm_ext_iff_of_nodup (hfilter.imp (hirrefl _ _)) (hplace.imp (hirrefl _ _))]
  intro p
  rw [List.mem_filter, decide_eq_true_eq, mem_placePixels, and_iff_right_iff_imp]
  rintro rfl
  obtain ⟨hx, hz⟩ := TileSpec.mem_places.1 h
  rw [mem_visited, chunkPixels]
  omega

/-! ### The account of a tile -/

theorem unknownBlocks_eq (region : RegionHandle) (palette : Palette) (tile : TileSpec)
    (policy : ScanPolicy) :
    (finalCanvas region palette tile policy).report.unknownBlocks.toList =
      (visited tile).filterMap (unknownAt? region palette tile policy) := by
  rw [finalCanvas_report]
  show (events region palette tile policy).filterMap Event.unknown? = _
  rw [events, visited, List.filterMap_flatMap, List.filterMap_flatMap]
  exact List.flatMap_congr fun place _ => filterMap_unknown?_readEvents ..

theorem unknownId?_eq_some_iff {column : Option Column} {id : String} :
    unknownId? palette column = some id ↔
      ∃ e, column = some (.block id e) ∧ palette.lookup id = none := by
  match column with
  | none => simp [unknownId?]
  | some .empty => simp [unknownId?]
  | some (.block id' e) =>
      simp only [unknownId?, Option.ite_none_right_eq_some, Option.isNone_iff_eq_none,
        Option.some.injEq, Column.block.injEq]
      constructor
      · rintro ⟨hid, rfl⟩
        exact ⟨e, ⟨rfl, rfl⟩, hid⟩
      · rintro ⟨e', ⟨rfl, -⟩, hid⟩
        exact ⟨hid, rfl⟩

theorem unknownAt?_eq_some_iff {p : Nat × Nat} {u : UnknownBlock} :
    unknownAt? region palette tile policy p = some u ↔
      p = (u.x, u.z) ∧ ∃ e, columnAt? region tile policy p = some (.block u.id e) ∧
        palette.lookup u.id = none := by
  rw [unknownAt?, Option.map_eq_some_iff]
  constructor
  · rintro ⟨id, hid, rfl⟩
    exact ⟨rfl, unknownId?_eq_some_iff.1 hid⟩
  · rintro ⟨rfl, hcolumn⟩
    exact ⟨u.id, unknownId?_eq_some_iff.2 hcolumn, rfl⟩

theorem mem_unknownBlocks {u : UnknownBlock} :
    u ∈ (finalCanvas region palette tile policy).report.unknownBlocks ↔
      u.x < tile.chunksX * chunkPixels ∧ u.z < tile.chunksZ * chunkPixels ∧
        ∃ e, columnAt? region tile policy (u.x, u.z) = some (.block u.id e) ∧
          palette.lookup u.id = none := by
  rw [← Array.mem_toList_iff, unknownBlocks_eq, List.mem_filterMap]
  simp only [unknownAt?_eq_some_iff]
  constructor
  · rintro ⟨p, hp, rfl, hcolumn⟩
    obtain ⟨hx, hz⟩ := mem_visited.1 hp
    exact ⟨hx, hz, hcolumn⟩
  · rintro ⟨hx, hz, hcolumn⟩
    exact ⟨(u.x, u.z), mem_visited.2 ⟨hx, hz⟩, rfl, hcolumn⟩

theorem blank_of_unknown (hfits : tile.Fits) {u : UnknownBlock}
    (h : u ∈ (finalCanvas region palette tile policy).report.unknownBlocks) :
    (finalCanvas region palette tile policy).surface.pixel? u.x u.z = some Color.blank := by
  obtain ⟨hx, hz, e, hcolumn, hid⟩ := mem_unknownBlocks.1 h
  rw [columnAt?] at hcolumn
  split at hcolumn
  · next chunk hread =>
      rw [pixel?_finalCanvas hfits hx hz hread]
      simp only [Option.some.injEq] at hcolumn
      simp only [placeColor, columnPixel, chunkPixels, hcolumn, RowScan.step, hid,
        ColumnPixel.color]
  · cases hcolumn

/-- The numbers of the report add up to the pixels of the tile. -/
theorem total_finalCanvas (hloads : ∀ place ∈ tile.places, Loads region tile place) :
    256 * tile.places.countP (isAbsentAt region tile) +
        (tile.pixels.countP fun p => columnAt? region tile policy p = some .empty) +
        (finalCanvas region palette tile policy).report.unknownBlocks.size +
        tile.pixels.countP (fun p => isShaded palette (columnAt? region tile policy p)) =
      tile.chunksX * chunkPixels * (tile.chunksZ * chunkPixels) := by
  have hperm := visited_perm_pixels tile
  have hunknown : (finalCanvas region palette tile policy).report.unknownBlocks.size =
      (visited tile).countP
        fun p => (unknownId? palette (columnAt? region tile policy p)).isSome := by
    rw [← Array.length_toList, unknownBlocks_eq, List.length_filterMap_eq_countP]
    simp only [unknownAt?, Option.isSome_map]
  have hnone : ((visited tile).countP fun p => columnAt? region tile policy p = none) =
      256 * tile.places.countP (isAbsentAt region tile) :=
    countP_flatMap_eq_mul 256 fun place hplace =>
      countP_none_placePixels policy (hloads place hplace)
  rw [hunknown, ← hnone, ← hperm.countP_eq, ← hperm.countP_eq, ← length_visited]
  exact length_eq_counts palette (columnAt? region tile policy) (visited tile)

theorem filter_unknownBlocks {place : Nat × Nat} (h : place ∈ tile.places) :
    ((finalCanvas region palette tile policy).report.unknownBlocks.toList.filter
        fun u => (u.x / 16, u.z / 16) = place) =
      (placePixels place).filterMap (unknownAt? region palette tile policy) := by
  rw [unknownBlocks_eq, ← filter_visited h, List.filter_filterMap, List.filterMap_filter]
  refine List.filterMap_congr fun p _ => ?_
  cases hu : unknownAt? region palette tile policy p with
  | none => simp
  | some u =>
      obtain ⟨rfl, -⟩ := unknownAt?_eq_some_iff.1 hu
      simp [Option.filter]

theorem log_finalCanvas (region : RegionHandle) (palette : Palette) (tile : TileSpec)
    (policy : ScanPolicy) :
    (finalCanvas region palette tile policy).log.toList = tile.places.flatMap fun place =>
      if isAbsentAt region tile place then
        [absentLine region.coord (tile.chunkX + place.1) (tile.chunkZ + place.2)]
      else ((finalCanvas region palette tile policy).report.unknownBlocks.toList.filter
        fun u => (u.x / 16, u.z / 16) = place).map (entryLine region.coord tile) := by
  have hlog : (finalCanvas region palette tile policy).log.toList =
      (events region palette tile policy).filterMap (Event.line? region.coord tile) :=
    congrArg Array.toList (Array.empty_append ..)
  rw [hlog, events, List.filterMap_flatMap]
  refine List.flatMap_congr fun place hplace => ?_
  rw [filterMap_line?_readEvents, filter_unknownBlocks hplace]

/-- **A report and a log account for every column.** Once its chunks all load a
tile that fits is rendered, and its report and its log agree with what there is under
its pixels: each pixel belongs to an absent chunk, an empty column, a block
without a colour or a block that has one, and all but the last kind are
counted, those without a colour also listed and logged where they are met. -/
theorem report_accounts_for_columns (region : RegionHandle) (palette : Palette) (tile : TileSpec)
    (policy : ScanPolicy) (hfits : tile.Fits)
    (hloads : ∀ x < tile.chunksX, ∀ z < tile.chunksZ, ∃ found,
      region.chunk (tile.chunkX + x) (tile.chunkZ + z) = .ok found) :
    ∃ rendered, (render region palette tile policy).outcome = .ok rendered ∧
      Accounts region palette tile policy rendered
        (render region palette tile policy).log.toList := by
  have hall := loads_of_forall hloads
  have hcanvas := fits_finalCanvas region palette hfits policy
  have habsent : (finalCanvas region palette tile policy).report.absentChunks =
      tile.places.countP (isAbsentAt region tile) := by
    rw [finalCanvas_report, ← Nat.one_mul (List.countP _ _)]
    exact countP_flatMap_eq_mul 1 fun place _ =>
      countP_isAbsent_readEvents region palette tile policy place
  have hrendered : (finalCanvas region palette tile policy).report.renderedChunks =
      tile.places.countP fun place => !isAbsentAt region tile place := by
    rw [finalCanvas_report, ← Nat.one_mul (List.countP _ _)]
    refine countP_flatMap_eq_mul 1 fun place hplace => ?_
    rw [countP_isFinished_readEvents palette policy (hall place hplace)]
    cases isAbsentAt region tile place <;> rfl
  have hempty : (finalCanvas region palette tile policy).report.emptyColumns =
      tile.pixels.countP fun p => columnAt? region tile policy p = some .empty := by
    rw [finalCanvas_report, ← (visited_perm_pixels tile).countP_eq]
    show (events region palette tile policy).countP Event.isEmpty = _
    rw [events, visited, List.countP_flatMap, List.countP_flatMap]
    simp only [Function.comp_def, countP_isEmpty_readEvents]
  rw [render_of_loads palette hfits policy hall]
  refine ⟨_, rfl, ?_⟩
  constructor
  case width => exact hcanvas.width
  case height => exact hcanvas.height
  case chunks =>
    rw [hrendered, habsent, Nat.add_comm, ← length_places,
      List.length_eq_countP_add_countP (isAbsentAt region tile)]
    simp
  case absent => exact habsent
  case empty => exact hempty
  case unknown =>
    rw [hcanvas.width, hcanvas.height]
    exact fun u => mem_unknownBlocks
  case inOrder =>
    rw [unknownBlocks_eq, List.pairwise_filterMap]
    refine (pairwise_visited tile).imp fun h u hu v hv => ?_
    obtain ⟨rfl, -⟩ := unknownAt?_eq_some_iff.1 hu
    obtain ⟨rfl, -⟩ := unknownAt?_eq_some_iff.1 hv
    exact h
  case blank => exact fun u hu => blank_of_unknown hfits hu
  case total =>
    rw [habsent, hempty, hcanvas.width, hcanvas.height]
    exact total_finalCanvas hall
  case log => exact log_finalCanvas region palette tile policy

/-- Of a tile without a buffer no chunk is counted, and no absent one is named. -/
theorem long_tile_is_not_accounted :
    (∀ x < longTile.chunksX, ∀ z < longTile.chunksZ, ∃ found,
      voidRegion.chunk (longTile.chunkX + x) (longTile.chunkZ + z) = .ok found) ∧
    isAbsentAt voidRegion longTile (0, 0) = true ∧
    absentLine ⟨0, 0⟩ 0 0 ∉ (render voidRegion Palette.empty longTile .overworld).log.toList ∧
    ¬ ∃ rendered, (render voidRegion Palette.empty longTile .overworld).outcome = .ok rendered ∧
      rendered.report.renderedChunks + rendered.report.absentChunks =
        longTile.chunksX * longTile.chunksZ := by
  rw [render_of_no_buffer create?_longTile]
  refine ⟨fun _ _ _ _ => ⟨none, rfl⟩, rfl, List.not_mem_nil, ?_⟩
  exact fun ⟨_, hrendered, _⟩ => nomatch hrendered

/-- A ridge of unknown stone beside a chunk that is absent: one chunk is counted
as absent and its line is logged, and every column of the ridge is accounted
for without a colour. -/
theorem unknown_ridge_accounts :
    TileSpec.Fits ⟨0, 0, 2, 1⟩ ∧
    (∀ x < 2, ∀ z < 1, ∃ found, ridgeRegion.chunk (0 + x) (0 + z) = .ok found) ∧
    ∃ rendered,
      (render ridgeRegion (Palette.ofList []) ⟨0, 0, 2, 1⟩ .overworld).outcome = .ok rendered ∧
      rendered.report.absentChunks = 1 ∧
      rendered.report.emptyColumns + rendered.report.unknownBlocks.size = 256 ∧
      ⟨"stone", 3, 2⟩ ∈ rendered.report.unknownBlocks ∧
      rendered.raster.pixel? 3 2 = some ⟨0, 0, 0⟩ ∧
      absentLine ⟨0, 0⟩ 1 0 ∈
        (render ridgeRegion (Palette.ofList []) ⟨0, 0, 2, 1⟩ .overworld).log.toList := by
  have hloads : ∀ x < 2, ∀ z < 1, ∃ found, ridgeRegion.chunk (0 + x) (0 + z) = .ok found :=
    fun x _ z _ => ⟨_, rfl⟩
  have hfits : TileSpec.Fits ⟨0, 0, 2, 1⟩ := TileSpec.fits_of_le (by decide) (by decide)
  obtain ⟨rendered, hrendered, haccounts⟩ :=
    report_accounts_for_columns ridgeRegion (Palette.ofList []) ⟨0, 0, 2, 1⟩ .overworld hfits hloads
  have hpalette (id : String) : (Palette.ofList []).lookup id = none := by
    simp [Palette.ofList, Palette.insertAll, Palette.lookup, Palette.empty]
  have habsent : rendered.report.absentChunks = 1 := haccounts.absent
  have hstone : ⟨"stone", 3, 2⟩ ∈ rendered.report.unknownBlocks := by
    refine (haccounts.unknown _).2
      ⟨by rw [haccounts.width]; decide, by rw [haccounts.height]; decide, 251, ?_, hpalette "stone"⟩
    show some (Column.resolve ridgeChunk 3 2 .overworld) = _
    decide
  have hblank := haccounts.blank ⟨"stone", 3, 2⟩ hstone
  refine ⟨hfits, hloads, rendered, hrendered, habsent, ?_, hstone, hblank, ?_⟩
  · have htotal := haccounts.total
    have hshaded (p : Nat × Nat) : isShaded (Palette.ofList [])
        (columnAt? ridgeRegion ⟨0, 0, 2, 1⟩ .overworld p) = false := by
      rcases columnAt? ridgeRegion ⟨0, 0, 2, 1⟩ .overworld p with _ | ⟨id, e⟩ | _
      · rfl
      · simp [isShaded, hpalette]
      · rfl
    simp only [hshaded, habsent, haccounts.width, haccounts.height, chunkPixels,
      List.countP_false, Function.const_apply] at htotal
    omega
  · rw [haccounts.log, List.mem_flatMap]
    exact ⟨(1, 0), by decide, List.mem_singleton.2 rfl⟩

end Tile

end TerrainMap
