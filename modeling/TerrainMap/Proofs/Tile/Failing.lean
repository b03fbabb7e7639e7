import TerrainMap.Proofs.Tile.Accounting

/-!
How a tile fails, and what it depends on. The chunks of a tile are read row by
row until one of them does not load. The fault of that chunk ends the tile, and
what was logged by then are the lines of the chunks before it. Of a region
nothing else is seen: not the chunks after a fault, not the chunks outside the
tile, and of the others only their blocks.
-/

namespace TerrainMap

/-- Two chunks have the same block at every position inside them. -/
def ChunkView.Same (chunk chunk' : ChunkView) : Prop :=
  ∀ x < 16, ∀ z < 16, ∀ y < 256, chunk.blockId x y z = chunk'.blockId x y z

theorem Column.resolve_congr {chunk chunk' : ChunkView} (h : chunk.Same chunk') {x z : Nat}
    (hx : x < 16) (hz : z < 16) (policy : ScanPolicy) :
    resolve chunk x z policy = resolve chunk' x z policy := by
  refine scanBelow_congr fun y hy => h x hx z hz y ?_
  cases policy with
  | overworld => exact hy
  | nether => exact Nat.lt_trans hy (by decide)

namespace Tile

/-- The lines of a chunk: one to say that it is absent, or one for every column
that shows a block without a colour, row by row. -/
def chunkLines (coord : RegionCoord) (palette : Palette) (policy : ScanPolicy) (cx cz : Nat) :
    Option ChunkView → List LogLine
  | none => [absentLine coord cx cz]
  | some chunk => squareColumns.filterMap fun c =>
    (unknownId? palette (some (Column.resolve chunk c.1 c.2 policy))).map
      fun id => unknownLine id coord cx cz

/-- The lines of the chunk at a place of a tile, if it loads. -/
def placeLines (region : RegionHandle) (palette : Palette) (tile : TileSpec) (policy : ScanPolicy)
    (place : Nat × Nat) : List LogLine :=
  match region.chunk (tile.chunkX + place.1) (tile.chunkZ + place.2) with
  | .ok found =>
    chunkLines region.coord palette policy (tile.chunkX + place.1) (tile.chunkZ + place.2) found
  | .error _ => []

/-- The same fault, no chunk, or chunks with the same blocks. -/
inductive SameAnswer : (answer answer' : Attempt WorldError (Option ChunkView)) → Prop
  | fault (halt : Halt WorldError) : SameAnswer (.error halt) (.error halt)
  | absent : SameAnswer (.ok none) (.ok none)
  | chunk {chunk chunk' : ChunkView} (h : chunk.Same chunk') :
      SameAnswer (.ok (some chunk)) (.ok (some chunk'))

variable {region region' : RegionHandle} {palette : Palette} {tile : TileSpec}
  {policy : ScanPolicy}

/-! ### The log of a tile that fails -/

theorem filterMap_line?_eq_placeLines (region : RegionHandle) (palette : Palette) (tile : TileSpec)
    (policy : ScanPolicy) (place : Nat × Nat) :
    (readEvents region palette tile policy place).filterMap (Event.line? region.coord tile) =
      placeLines region palette tile policy place := by
  rw [readEvents, placeLines]
  cases region.chunk (tile.chunkX + place.1) (tile.chunkZ + place.2) with
  | error halt => rfl
  | ok found =>
      cases found with
      | none => rfl
      | some chunk =>
          simp only [placeEvents, rowsEvents_eq_map, chunkLines]
          rw [List.filterMap_append, List.filterMap_map, List.filterMap_cons_none rfl,
            List.filterMap_nil, List.append_nil]
          refine List.filterMap_congr fun c _ => ?_
          exact line?_column chunk palette policy place c.1 c.2 region.coord tile

/-- A tile that fails has logged the lines of the chunks before the first one
that does not load. -/
theorem log_of_firstFailure (hfits : tile.Fits) {place : Nat × Nat} {halt : Halt WorldError}
    (h : FirstFailure region tile place halt) :
    (render region palette tile policy).log.toList =
      (placesBefore tile place).flatMap (placeLines region palette tile policy) := by
  have hlog : (render region palette tile policy).log.toList =
      ((placesBefore tile place).flatMap (readEvents region palette tile policy)).filterMap
        (Event.line? region.coord tile) := by
    rw [render_of_firstFailure palette hfits policy h]
    exact congrArg Array.toList (Array.empty_append ..)
  rw [hlog, List.filterMap_flatMap]
  exact List.flatMap_congr fun p _ => filterMap_line?_eq_placeLines region palette tile policy p

/-! ### What a tile depends on -/

theorem placeEvents_congr {chunk chunk' : ChunkView} (h : chunk.Same chunk') (place : Nat × Nat) :
    placeEvents palette policy place (some chunk) =
      placeEvents palette policy place (some chunk') := by
  simp only [placeEvents, rowsEvents_eq_map]
  congr 1
  refine List.map_congr_left fun c hc => ?_
  obtain ⟨hx, hz⟩ := mem_squareColumns.1 hc
  have hrow : ∀ x ≤ c.1, Column.resolve chunk x c.2 policy = Column.resolve chunk' x c.2 policy :=
    fun x hle => Column.resolve_congr h (Nat.lt_of_le_of_lt hle hx) hz policy
  rw [columnPixel_congr hrow]

theorem SameAnswer.exists_ok {answer answer' : Attempt WorldError (Option ChunkView)}
    (h : SameAnswer answer answer') (hok : ∃ found, answer = .ok found) :
    ∃ found, answer' = .ok found := by
  cases h with
  | fault halt => simp at hok
  | absent => exact hok
  | chunk h => exact ⟨_, rfl⟩

theorem SameAnswer.error_iff {answer answer' : Attempt WorldError (Option ChunkView)}
    (h : SameAnswer answer answer') (halt : Halt WorldError) :
    answer = .error halt ↔ answer' = .error halt := by
  cases h with
  | fault halt' => rfl
  | absent => rfl
  | chunk h => simp

theorem readEvents_congr {place : Nat × Nat}
    (h : SameAnswer (region.chunk (tile.chunkX + place.1) (tile.chunkZ + place.2))
      (region'.chunk (tile.chunkX + place.1) (tile.chunkZ + place.2))) :
    readEvents region palette tile policy place = readEvents region' palette tile policy place := by
  rw [readEvents, readEvents]
  generalize region.chunk (tile.chunkX + place.1) (tile.chunkZ + place.2) = answer at h ⊢
  generalize region'.chunk (tile.chunkX + place.1) (tile.chunkZ + place.2) = answer' at h ⊢
  cases h with
  | fault halt => rfl
  | absent => rfl
  | chunk h => exact placeEvents_congr h place

/-- The two regions answer alike for every chunk of the tile that is read, which
are all up to the first one that does not load. -/
def ReadAlike (region region' : RegionHandle) (tile : TileSpec) : Prop :=
  ∀ place : Nat × Nat, place.1 < tile.chunksX → place.2 < tile.chunksZ →
    (∀ p : Nat × Nat, p.1 < tile.chunksX → p.2 < tile.chunksZ → Before p place →
      Loads region tile p) →
    SameAnswer (region.chunk (tile.chunkX + place.1) (tile.chunkZ + place.2))
      (region'.chunk (tile.chunkX + place.1) (tile.chunkZ + place.2))

theorem ReadAlike.firstFailure (h : ReadAlike region region' tile) {place : Nat × Nat}
    {halt : Halt WorldError} (hfirst : FirstFailure region tile place halt) :
    FirstFailure region' tile place halt where
  inside := hfirst.inside
  fails := ((h place hfirst.inside.1 hfirst.inside.2 hfirst.earlier).error_iff halt).1 hfirst.fails
  earlier p hx hz hp := by
    have hsame := h p hx hz fun q hqx hqz hq => hfirst.earlier q hqx hqz (hq.trans hp)
    exact hsame.exists_ok (hfirst.earlier p hx hz hp)

theorem ReadAlike.render_eq (hfits : tile.Fits) (h : ReadAlike region region' tile)
    (hcoord : region'.coord = region.coord) :
    render region' palette tile policy = render region palette tile policy := by
  by_cases hloads : ∀ place ∈ tile.places, Loads region tile place
  · have hsame (place) (hplace : place ∈ tile.places) :=
      h place (TileSpec.mem_places.1 hplace).1 (TileSpec.mem_places.1 hplace).2
        fun p hx hz _ => hloads p (TileSpec.mem_places.2 ⟨hx, hz⟩)
    have hevents : events region' palette tile policy = events region palette tile policy :=
      List.flatMap_congr fun place hplace => (readEvents_congr (hsame place hplace)).symm
    rw [render_of_loads palette hfits policy hloads,
      render_of_loads palette hfits policy fun place hplace =>
        (hsame place hplace).exists_ok (hloads place hplace)]
    simp only [finalCanvas, hcoord, hevents]
  · obtain ⟨place, halt, hfirst⟩ := exists_firstFailure hloads
    have hevents : (placesBefore tile place).flatMap (readEvents region' palette tile policy) =
        (placesBefore tile place).flatMap (readEvents region palette tile policy) := by
      refine List.flatMap_congr fun p hp => ?_
      obtain ⟨hmem, hbefore⟩ := mem_placesBefore.1 hp
      obtain ⟨hx, hz⟩ := TileSpec.mem_places.1 hmem
      exact (readEvents_congr (h p hx hz fun q hqx hqz hq =>
        hfirst.earlier q hqx hqz (hq.trans hbefore))).symm
    rw [render_of_firstFailure palette hfits policy hfirst,
      render_of_firstFailure palette hfits policy (h.firstFailure hfirst), hcoord, hevents]

/-- **A tile fails on its own chunks, and on the first of them that does not
load.** If it fits, it fails just where one of its chunks does not load, with
the fault of the first such chunk, and what was logged by then are the lines of
the chunks before that one. What a region answers for chunks outside the tile or
after the first fault makes no difference, and of the chunks before it only the
blocks do. -/
theorem fails_on_first_unloaded_chunk (region : RegionHandle) (palette : Palette) (tile : TileSpec)
    (policy : ScanPolicy) (hfits : tile.Fits) :
    ((∃ halt, (render region palette tile policy).outcome = .error halt) ↔
      ∃ cx cz halt, tile.chunkX ≤ cx ∧ cx < tile.chunkX + tile.chunksX ∧
        tile.chunkZ ≤ cz ∧ cz < tile.chunkZ + tile.chunksZ ∧ region.chunk cx cz = .error halt) ∧
      (∀ halt, (render region palette tile policy).outcome = .error halt ↔
        ∃ place, FirstFailure region tile place halt) ∧
      (∀ place halt, FirstFailure region tile place halt →
        (render region palette tile policy).log.toList =
          (placesBefore tile place).flatMap (placeLines region palette tile policy)) ∧
      ∀ region' : RegionHandle, region'.coord = region.coord → ReadAlike region region' tile →
        render region' palette tile policy = render region palette tile policy := by
  refine ⟨⟨?_, ?_⟩, fun halt => outcome_eq_error_iff hfits,
    fun place halt h => log_of_firstFailure hfits h,
    fun region' hcoord h => h.render_eq hfits hcoord⟩
  · rintro ⟨halt, h⟩
    obtain ⟨place, hfirst⟩ := (outcome_eq_error_iff hfits).1 h
    obtain ⟨hx, hz⟩ := hfirst.inside
    exact ⟨_, _, halt, by omega, by omega, by omega, by omega, hfirst.fails⟩
  · rintro ⟨cx, cz, halt, hx, hx', hz, hz', h⟩
    have hstuck : ¬ ∀ place ∈ tile.places, Loads region tile place := by
      intro hall
      obtain ⟨found, hfound⟩ := hall (cx - tile.chunkX, cz - tile.chunkZ)
        (TileSpec.mem_places.2
          ⟨show cx - tile.chunkX < _ by omega, show cz - tile.chunkZ < _ by omega⟩)
      rw [Nat.add_sub_cancel' hx, Nat.add_sub_cancel' hz, h] at hfound
      cases hfound
    obtain ⟨place, halt', hfirst⟩ := exists_firstFailure hstuck
    exact ⟨halt', (outcome_eq_error_iff hfits).2 ⟨place, hfirst⟩⟩

/-- A region in which no chunk can be read. -/
def ruinedRegion : RegionHandle := ⟨⟨0, 0⟩, fun cx cz => .fail (.decode cx cz .markedCorrupt)⟩

/-- A tile without a buffer does not fail on the first of its chunks, which it
does not come to read. -/
theorem long_tile_fails_unread :
    FirstFailure ruinedRegion longTile (0, 0) (.failure (.decode 0 0 .markedCorrupt)) ∧
    (render ruinedRegion Palette.empty longTile .overworld).outcome ≠
      .error (.failure (.decode 0 0 .markedCorrupt)) := by
  rw [render_of_no_buffer create?_longTile]
  refine ⟨⟨by decide, rfl, fun p _ _ hp => ?_⟩, nofun⟩
  simp [Before] at hp

/-- A region without chunks, but with marks of corruption from (18, 2) eastward
and southward. -/
def marredRegion : RegionHandle where
  coord := ⟨0, 0⟩
  chunk cx cz := if 18 ≤ cx ∧ 2 ≤ cz then .fail (.decode cx cz .markedCorrupt) else .ok none

/-- It is marred at (18, 2) as well. From (16, 0) up to there it has no chunks
either, but it breaks off over every other one. -/
def brokenRegion : RegionHandle where
  coord := ⟨0, 0⟩
  chunk cx cz :=
    if (cx, cz) = (18, 2) then .fail (.decode 18 2 .markedCorrupt)
    else if 16 ≤ cx ∧ cx < 20 ∧ Before (cx, cz) (18, 2) then .ok none else .error .crash

theorem marredRegion_firstFailure :
    FirstFailure marredRegion ⟨16, 0, 4, 4⟩ (2, 2) (.failure (.decode 18 2 .markedCorrupt)) where
  inside := by decide
  fails := rfl
  earlier p _ _ hp := by
    have hintact : ¬ (18 ≤ 16 + p.1 ∧ 2 ≤ 0 + p.2) := by
      simp only [Before] at hp
      omega
    exact ⟨none, if_neg hintact⟩

theorem marred_readAlike_broken : ReadAlike marredRegion brokenRegion ⟨16, 0, 4, 4⟩ := by
  intro p hx hz hearlier
  have hnot : ¬ Before (2, 2) p := by
    intro hp
    obtain ⟨found, hfound⟩ := hearlier (2, 2) (by decide) (by decide) hp
    cases hfound
  by_cases hp : p = (2, 2)
  · subst hp
    exact .fault _
  · have hbefore : Before p (2, 2) := (Before.total hp).resolve_right hnot
    simp only [Before] at hbefore hx
    have hmarred : marredRegion.chunk (16 + p.1) (0 + p.2) = .ok none := if_neg (by omega)
    have hbroken : brokenRegion.chunk (16 + p.1) (0 + p.2) = .ok none := by
      have hplace : ¬ (16 + p.1, 0 + p.2) = (18, 2) := by
        simp only [Prod.mk.injEq]
        omega
      have hkept : 16 ≤ 16 + p.1 ∧ 16 + p.1 < 20 ∧ Before (16 + p.1, 0 + p.2) (18, 2) := by
        simp only [Before]
        omega
      simp only [brokenRegion, if_neg hplace, if_pos hkept]
    rw [hmarred, hbroken]
    exact .absent

/-- Both regions end the tile with the mark at (18, 2), after a line for each of
the ten chunks before it. -/
theorem marred_tiles_fail_alike :
    TileSpec.Fits ⟨16, 0, 4, 4⟩ ∧
      (render marredRegion Palette.empty ⟨16, 0, 4, 4⟩ .overworld).outcome =
        .error (.failure (.decode 18 2 .markedCorrupt)) ∧
      (render marredRegion Palette.empty ⟨16, 0, 4, 4⟩ .overworld).log.toList =
        [(16, 0), (17, 0), (18, 0), (19, 0), (16, 1), (17, 1), (18, 1), (19, 1), (16, 2),
          (17, 2)].map (fun c => absentLine ⟨0, 0⟩ c.1 c.2) ∧
      brokenRegion.chunk 18 3 = .error .crash ∧ brokenRegion.chunk 15 0 = .error .crash ∧
      render brokenRegion Palette.empty ⟨16, 0, 4, 4⟩ .overworld =
        render marredRegion Palette.empty ⟨16, 0, 4, 4⟩ .overworld := by
  have hfits : TileSpec.Fits ⟨16, 0, 4, 4⟩ := TileSpec.fits_of_le (by decide) (by decide)
  obtain ⟨-, hfault, hlog, halike⟩ :=
    fails_on_first_unloaded_chunk marredRegion Palette.empty ⟨16, 0, 4, 4⟩ .overworld hfits
  refine ⟨hfits, (hfault _).2 ⟨_, marredRegion_firstFailure⟩, ?_, rfl, rfl,
    halike brokenRegion rfl marred_readAlike_broken⟩
  rw [hlog _ _ marredRegion_firstFailure]
  rfl

end Tile

end TerrainMap
