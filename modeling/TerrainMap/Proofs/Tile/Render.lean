import TerrainMap.Proofs.Tile.Events

/-!
Rendering as a list of events. On a canvas that has a place for their strokes,
every painting function adds its events and goes on to its end; so does a raster
of the size of the tile. A tile therefore comes out as its events on a blank
canvas, or ends at the first chunk that does not load.
-/

namespace TerrainMap.Tile

section Painting

variable {σ : Type} {painter : Painter σ} {tile : TileSpec} {canvas : Canvas σ}

/-- How the lines of a place name unknown blocks. -/
def placeLine (coord : RegionCoord) (tile : TileSpec) (place : Nat × Nat) (id : String) : LogLine :=
  unknownLine id coord (tile.chunkX + place.1) (tile.chunkZ + place.2)

theorem setPixel_note {coord : RegionCoord} {place : Nat × Nat} {x z : Nat} {pixel : ColumnPixel}
    (htakes : canvas.Takes painter [.column place x z pixel]) :
    setPixel painter
        (note (placeLine coord tile place) (place.1 * chunkPixels + x)
          (place.2 * chunkPixels + z) pixel canvas)
        (place.1 * chunkPixels + x) (place.2 * chunkPixels + z) pixel.color =
      (canvas.after painter coord tile [.column place x z pixel], true) := by
  have hstroke : strokesOf [.column place x z pixel] =
      [⟨place.1 * chunkPixels + x, place.2 * chunkPixels + z, pixel.color⟩] := rfl
  rw [Canvas.Takes, hstroke, Painter.paint_singleton] at htakes
  obtain ⟨surface, report, log⟩ := canvas
  cases pixel <;>
    simp_all [note, setPixel, Canvas.after, Event.count, Event.line?, placeLine]

variable (hfits : tile.Fits) {place : Nat × Nat} (hplace : place ∈ tile.places)
include hfits hplace

theorem paintRow_eq_after (coord : RegionCoord) (chunk : ChunkView) (palette : Palette)
    (policy : ScanPolicy) {z : Nat} (hz : z < chunkEdge) {x count : Nat}
    (hx : x + count ≤ chunkEdge)
    (htakes : canvas.Takes painter (rowEvents chunk palette policy place z x count)) :
    paintRow painter chunk palette policy (placeLine coord tile place)
        (Word.mul place.1 chunkPixels) (Word.mul place.2 chunkPixels) z count x
        (rowBefore chunk palette policy x z) canvas =
      (canvas.after painter coord tile (rowEvents chunk palette policy place z x count), true) := by
  induction count generalizing x canvas with
  | zero => simp [paintRow, rowEvents]
  | succ count ih =>
      obtain ⟨hpx, hpz⟩ := hfits.pixel_eq hplace (by omega : x < chunkEdge) hz
      rw [rowEvents_succ] at htakes ⊢
      obtain ⟨hfirst, hrest⟩ :=
        (Canvas.takes_append coord tile [_] _).1 htakes
      rw [paintRow, step_rowBefore, hpx, hpz]
      simp only [setPixel_note hfirst]
      rw [ih (by omega) hrest]
      exact congrArg (·, true) (Canvas.after_append hfirst).symm

theorem paintRows_eq_after (coord : RegionCoord) (chunk : ChunkView) (palette : Palette)
    (policy : ScanPolicy) {z count : Nat} (hz : z + count ≤ chunkEdge)
    (htakes : canvas.Takes painter (rowsEvents chunk palette policy place z count)) :
    paintRows painter chunk palette policy (placeLine coord tile place)
        (Word.mul place.1 chunkPixels) (Word.mul place.2 chunkPixels) count z canvas =
      (canvas.after painter coord tile (rowsEvents chunk palette policy place z count), true) := by
  induction count generalizing z canvas with
  | zero => simp [paintRows, rowsEvents]
  | succ count ih =>
      rw [rowsEvents_succ] at htakes ⊢
      obtain ⟨hfirst, hrest⟩ := (Canvas.takes_append coord tile _ _).1 htakes
      have hrow := paintRow_eq_after hfits hplace coord chunk palette policy
        (by omega : z < chunkEdge) (Nat.le_of_eq (Nat.zero_add chunkEdge)) hfirst
      -- every row starts a scan of its own
      rw [rowBefore_zero] at hrow
      rw [paintRows, hrow]
      simp only
      rw [ih (by omega) hrest, Canvas.after_append hfirst]

theorem paintPlace_eq_after (coord : RegionCoord) (palette : Palette) (policy : ScanPolicy)
    (found : Option ChunkView)
    (htakes : canvas.Takes painter (placeEvents palette policy place found)) :
    paintPlace painter coord palette tile policy place found canvas =
      (canvas.after painter coord tile (placeEvents palette policy place found), true) := by
  obtain ⟨hcx, hcz⟩ := hfits.chunk_eq hplace
  cases found with
  | none =>
      obtain ⟨⟨hleft, htop⟩, hright, hbottom⟩ := hfits.corner_eq hplace
      have hstrokes : strokesOf [.absent place] =
          Stroke.grid (place.1 * chunkPixels) (place.2 * chunkPixels) chunkPixels chunkPixels
            fun _ _ => Color.blank := List.flatMap_singleton ..
      rw [placeEvents, Canvas.Takes, hstrokes] at htakes
      obtain ⟨surface, report, log⟩ := canvas
      simp only [paintPlace, paintAbsent, hcx, hcz, hleft, htop]
      rw [Painter.fillRect_eq_paint painter surface _ hright hbottom]
      simp only [placeEvents, Canvas.after, hstrokes]
      revert htakes
      rcases painter.paint surface (Stroke.grid (place.1 * chunkPixels) (place.2 * chunkPixels)
        chunkPixels chunkPixels fun _ _ => Color.blank) with ⟨surface', _ | _⟩
      · exact fun h => absurd h Bool.false_ne_true
      · exact fun _ => by simp [countAbsent, Event.count, Event.line?]
  | some chunk =>
      obtain ⟨hrows, -⟩ := (Canvas.takes_append coord tile _ _).1 htakes
      have hpaint := paintRows_eq_after hfits hplace coord chunk palette policy
        (Nat.le_of_eq (Nat.zero_add chunkEdge)) hrows
      rw [paintPlace, hcx, hcz]
      change paintChunk painter chunk palette policy (placeLine coord tile place) _ _ canvas = _
      have hfinished (canvas : Canvas σ) :
          canvas.after painter coord tile [.finished] = countRendered canvas := by
        simp [countRendered, Canvas.after, strokesOf, Event.strokes, Event.count,
          List.filterMap_cons, Event.line?]
      rw [paintChunk, hpaint, placeEvents, Canvas.after_append hrows, hfinished]

end Painting

/-- The events of a place whose chunk loads. A place whose chunk does not load
has none. -/
def readEvents (region : RegionHandle) (palette : Palette) (tile : TileSpec) (policy : ScanPolicy)
    (place : Nat × Nat) : List Event :=
  match region.chunk (tile.chunkX + place.1) (tile.chunkZ + place.2) with
  | .ok found => placeEvents palette policy place found
  | .error _ => []

def Loads (region : RegionHandle) (tile : TileSpec) (place : Nat × Nat) : Prop :=
  ∃ found, region.chunk (tile.chunkX + place.1) (tile.chunkZ + place.2) = .ok found

theorem inside_of_mem_readEvents {region : RegionHandle} {palette : Palette} {tile : TileSpec}
    {policy : ScanPolicy} {places : List (Nat × Nat)} (hplaces : places ⊆ tile.places)
    {event : Event} (h : event ∈ places.flatMap (readEvents region palette tile policy)) :
    event.Inside tile := by
  obtain ⟨place, hplace, hevent⟩ := List.mem_flatMap.1 h
  rw [readEvents] at hevent
  split at hevent
  · exact inside_of_mem_placeEvents (TileSpec.mem_places.1 (hplaces hplace)) hevent
  · cases hevent

theorem paintPlaces_of_loads {σ : Type} {painter : Painter σ} {tile : TileSpec}
    {canvas : Canvas σ} {region : RegionHandle} (palette : Palette) (policy : ScanPolicy)
    (hfits : tile.Fits) {places : List (Nat × Nat)} (hplaces : places ⊆ tile.places)
    (hloads : ∀ place ∈ places, Loads region tile place)
    (htakes : canvas.Takes painter (places.flatMap (readEvents region palette tile policy)))
    (rest : List (Nat × Nat)) :
    paintPlaces painter region palette tile policy (places ++ rest) canvas =
      paintPlaces painter region palette tile policy rest
        (canvas.after painter region.coord tile
          (places.flatMap (readEvents region palette tile policy))) := by
  induction places generalizing canvas with
  | nil => rw [List.flatMap_nil, Canvas.after_nil, List.nil_append]
  | cons place places ih =>
      obtain ⟨hplace, hothers⟩ := List.cons_subset.1 hplaces
      obtain ⟨found, hfound⟩ := hloads place List.mem_cons_self
      obtain ⟨hcx, hcz⟩ := hfits.chunk_eq hplace
      have hevents : readEvents region palette tile policy place =
          placeEvents palette policy place found := by rw [readEvents, hfound]
      rw [List.flatMap_cons] at htakes ⊢
      obtain ⟨hfirst, hrest⟩ :=
        (Canvas.takes_append region.coord tile _ _).1 htakes
      rw [Canvas.after_append hfirst, List.cons_append, paintPlaces, hcx, hcz, hfound]
      simp only
      rw [hevents] at hfirst hrest ⊢
      rw [paintPlace_eq_after hfits hplace region.coord palette policy found hfirst]
      exact ih hothers (fun p hp => hloads p (List.mem_cons_of_mem _ hp)) hrest

theorem loads_of_forall {region : RegionHandle} {tile : TileSpec}
    (hloads : ∀ x < tile.chunksX, ∀ z < tile.chunksZ, ∃ found,
      region.chunk (tile.chunkX + x) (tile.chunkZ + z) = .ok found) :
    ∀ place ∈ tile.places, Loads region tile place := by
  intro place hplace
  obtain ⟨hx, hz⟩ := TileSpec.mem_places.1 hplace
  exact hloads place.1 hx place.2 hz

/-- The pixels of a tile belong to its places. -/
theorem div_mem_places {tile : TileSpec} {px pz : Nat} (hx : px < tile.chunksX * chunkPixels)
    (hz : pz < tile.chunksZ * chunkPixels) :
    (px / chunkPixels, pz / chunkPixels) ∈ tile.places := by
  refine TileSpec.mem_places.2 ⟨?_, ?_⟩
  · exact Nat.div_lt_of_lt_mul (by rwa [Nat.mul_comm])
  · exact Nat.div_lt_of_lt_mul (by rwa [Nat.mul_comm])

def events (region : RegionHandle) (palette : Palette) (tile : TileSpec) (policy : ScanPolicy) :
    List Event :=
  tile.places.flatMap (readEvents region palette tile policy)

def blankCanvas (tile : TileSpec) : Canvas Raster :=
  Canvas.fresh (Raster.blank tile.width tile.height)

/-- The canvas of a tile whose chunks all load. -/
def finalCanvas (region : RegionHandle) (palette : Palette) (tile : TileSpec)
    (policy : ScanPolicy) : Canvas Raster :=
  (blankCanvas tile).after Raster.painter region.coord tile (events region palette tile policy)

theorem fits_finalCanvas (region : RegionHandle) (palette : Palette) {tile : TileSpec}
    (hfits : tile.Fits) (policy : ScanPolicy) :
    (finalCanvas region palette tile policy).Fits tile :=
  (Canvas.fits_blank hfits).after _ _

theorem inside_of_mem_events {region : RegionHandle} {palette : Palette} {tile : TileSpec}
    {policy : ScanPolicy} {event : Event} (h : event ∈ events region palette tile policy) :
    event.Inside tile :=
  inside_of_mem_readEvents (List.Subset.refl _) h

/-- A tile that fits is rendered on a blank canvas. -/
theorem render_eq {region : RegionHandle} {palette : Palette} {tile : TileSpec}
    {policy : ScanPolicy} (hfits : tile.Fits) {canvas : Canvas Raster}
    {outcome : Attempt WorldError Unit}
    (h : paintPlaces Raster.painter region palette tile policy tile.places (blankCanvas tile) =
      (canvas, outcome)) :
    render region palette tile policy =
      ⟨canvas.log, outcome.map fun _ => ⟨canvas.surface, canvas.report⟩⟩ := by
  rw [blankCanvas] at h
  rw [render, hfits.create?]
  simp only [h]
  cases outcome <;> rfl

/-- A tile without a buffer for its pixels is given up before a chunk is read. -/
theorem render_of_no_buffer {region : RegionHandle} {palette : Palette} {tile : TileSpec}
    {policy : ScanPolicy} (h : Raster.create? tile.width tile.height = none) :
    render region palette tile policy = ⟨#[], .error .crash⟩ := by
  rw [render, h]

/-- A row of so many chunks that no buffer can take their pixels. -/
def longTile : TileSpec := ⟨0, 0, 18014398509481984, 1⟩

theorem create?_longTile : Raster.create? longTile.width longTile.height = none := by
  decide

/-- A region without chunks. -/
def voidRegion : RegionHandle := ⟨⟨0, 0⟩, fun _ _ => .ok none⟩

/-- A tile whose chunks all load is rendered. -/
theorem render_of_loads {region : RegionHandle} (palette : Palette) {tile : TileSpec}
    (hfits : tile.Fits) (policy : ScanPolicy)
    (hloads : ∀ place ∈ tile.places, Loads region tile place) :
    render region palette tile policy =
      ⟨(finalCanvas region palette tile policy).log,
        .ok ⟨(finalCanvas region palette tile policy).surface,
          (finalCanvas region palette tile policy).report⟩⟩ := by
  have h := paintPlaces_of_loads palette policy hfits
    (List.Subset.refl _) hloads
    ((Canvas.fits_blank hfits).takes fun _ => inside_of_mem_readEvents (List.Subset.refl _)) []
  rw [List.append_nil] at h
  exact render_eq hfits h

/-! ### The first chunk that fails

Places are visited row by row, so that one of the failing chunks of a tile
comes first. -/

/-- The first place is visited before the second. -/
def Before (p q : Nat × Nat) : Prop := p.2 < q.2 ∨ p.2 = q.2 ∧ p.1 < q.1

instance (p q : Nat × Nat) : Decidable (Before p q) := by
  unfold Before
  infer_instance

theorem Before.irrefl (p : Nat × Nat) : ¬ Before p p := by
  simp [Before]

theorem Before.asymm {p q : Nat × Nat} (h : Before p q) : ¬ Before q p := by
  simp only [Before] at h ⊢
  omega

theorem Before.trans {p q r : Nat × Nat} (h : Before p q) (h' : Before q r) : Before p r := by
  simp only [Before] at h h' ⊢
  omega

theorem Before.total {p q : Nat × Nat} (h : p ≠ q) : Before p q ∨ Before q p := by
  obtain ⟨px, pz⟩ := p
  obtain ⟨qx, qz⟩ := q
  simp only [Before, ne_eq, Prod.mk.injEq] at h ⊢
  omega

theorem places_pairwise (tile : TileSpec) : tile.places.Pairwise Before := by
  rw [TileSpec.places, List.pairwise_flatMap]
  constructor
  · intro z _
    rw [List.pairwise_map]
    exact List.pairwise_lt_range.imp fun h => .inr ⟨rfl, h⟩
  · refine List.pairwise_lt_range.imp fun h p hp q hq => ?_
    obtain ⟨_, _, rfl⟩ := List.mem_map.1 hp
    obtain ⟨_, _, rfl⟩ := List.mem_map.1 hq
    exact .inl h

/-- The chunk at `place` is the first one of the tile that does not load. -/
structure FirstFailure (region : RegionHandle) (tile : TileSpec) (place : Nat × Nat)
    (halt : Halt WorldError) : Prop where
  inside : place.1 < tile.chunksX ∧ place.2 < tile.chunksZ
  fails : region.chunk (tile.chunkX + place.1) (tile.chunkZ + place.2) = .error halt
  earlier : ∀ p : Nat × Nat, p.1 < tile.chunksX → p.2 < tile.chunksZ → Before p place →
    Loads region tile p

/-- The places of a tile that are visited before `place`. -/
def placesBefore (tile : TileSpec) (place : Nat × Nat) : List (Nat × Nat) :=
  tile.places.filter fun p => decide (Before p place)

theorem mem_placesBefore {tile : TileSpec} {place p : Nat × Nat} :
    p ∈ placesBefore tile place ↔ p ∈ tile.places ∧ Before p place := by
  rw [placesBefore, List.mem_filter, decide_eq_true_eq]

theorem exists_places_eq {tile : TileSpec} {place : Nat × Nat} (h : place ∈ tile.places) :
    ∃ rest, tile.places = placesBefore tile place ++ place :: rest := by
  obtain ⟨front, rest, heq⟩ := List.append_of_mem h
  have hsorted := places_pairwise tile
  rw [heq, List.pairwise_append, List.pairwise_cons] at hsorted
  obtain ⟨-, ⟨hrest, -⟩, hfront⟩ := hsorted
  -- sorted places have in front of `place` just those that come before it
  have hall : front.filter (fun p => decide (Before p place)) = front :=
    List.filter_eq_self.2 fun p hp => by simpa using hfront p hp place List.mem_cons_self
  have hnone : rest.filter (fun p => decide (Before p place)) = [] :=
    List.filter_eq_nil_iff.2 fun p hp => by simpa using (hrest p hp).asymm
  refine ⟨rest, ?_⟩
  rw [placesBefore, heq, List.filter_append, hall, List.filter_cons_of_neg (by
    simpa using Before.irrefl place), hnone, List.append_nil]

/-- A tile ends at the first chunk that does not load, with the fault of that
chunk and the lines of the chunks before it. -/
theorem render_of_firstFailure {region : RegionHandle} (palette : Palette) {tile : TileSpec}
    (hfits : tile.Fits) (policy : ScanPolicy) {place : Nat × Nat} {halt : Halt WorldError}
    (h : FirstFailure region tile place halt) :
    render region palette tile policy =
      ⟨((blankCanvas tile).after Raster.painter region.coord tile
        ((placesBefore tile place).flatMap (readEvents region palette tile policy))).log,
        .error halt⟩ := by
  have hplace := TileSpec.mem_places.2 h.inside
  obtain ⟨rest, heq⟩ := exists_places_eq hplace
  have hinside : placesBefore tile place ⊆ tile.places := fun p hp => (mem_placesBefore.1 hp).1
  have hloads : ∀ p ∈ placesBefore tile place, Loads region tile p := fun p hp =>
    have hp' := TileSpec.mem_places.1 (hinside hp)
    h.earlier p hp'.1 hp'.2 (mem_placesBefore.1 hp).2
  obtain ⟨hcx, hcz⟩ := hfits.chunk_eq hplace
  have hpaint := paintPlaces_of_loads palette policy hfits hinside hloads
    ((Canvas.fits_blank hfits).takes fun _ => inside_of_mem_readEvents hinside) (place :: rest)
  rw [← heq, paintPlaces, hcx, hcz, h.fails] at hpaint
  exact render_eq hfits hpaint

theorem exists_firstFailure {region : RegionHandle} {tile : TileSpec}
    (h : ¬ ∀ place ∈ tile.places, Loads region tile place) :
    ∃ place halt, FirstFailure region tile place halt := by
  classical
  obtain ⟨p, hp, hstuck⟩ : ∃ p ∈ tile.places, ¬ Loads region tile p := by
    by_contra hnone
    exact h fun p hp => by_contra fun hstuck => hnone ⟨p, hp, hstuck⟩
  have hsome : (tile.places.find? fun p => decide (¬ Loads region tile p)).isSome :=
    List.find?_isSome.2 ⟨p, hp, by simpa using hstuck⟩
  obtain ⟨place, hplace⟩ := Option.isSome_iff_exists.1 hsome
  obtain ⟨hfails, front, rest, heq, hfront⟩ := List.find?_eq_some_iff_append.1 hplace
  have hmem : place ∈ tile.places := by
    rw [heq]
    simp
  have hsorted := places_pairwise tile
  rw [heq, List.pairwise_append, List.pairwise_cons] at hsorted
  obtain ⟨-, ⟨hrest, -⟩, -⟩ := hsorted
  cases hread : region.chunk (tile.chunkX + place.1) (tile.chunkZ + place.2) with
  | ok found =>
      have hloads : Loads region tile place := ⟨found, hread⟩
      exact absurd hloads (by simpa using hfails)
  | error halt =>
      refine ⟨place, halt, TileSpec.mem_places.1 hmem, hread, fun p hx hz hp => ?_⟩
      have hin : p ∈ front ++ place :: rest := heq ▸ TileSpec.mem_places.2 ⟨hx, hz⟩
      rcases List.mem_append.1 hin with hin | hin
      · simpa using hfront p hin
      · rcases List.mem_cons.1 hin with rfl | hin
        · exact absurd hp (Before.irrefl p)
        · exact absurd hp (hrest p hin).asymm

/-- A tile has at most one first failure. -/
theorem FirstFailure.unique {region : RegionHandle} {tile : TileSpec} {p q : Nat × Nat}
    {halt halt' : Halt WorldError} (hp : FirstFailure region tile p halt)
    (hq : FirstFailure region tile q halt') : p = q ∧ halt = halt' := by
  have hne : ∀ {p q : Nat × Nat} {halt halt' : Halt WorldError},
      FirstFailure region tile p halt → FirstFailure region tile q halt' → ¬ Before p q := by
    intro p q halt halt' hp hq hpq
    obtain ⟨found, hfound⟩ := hq.earlier p hp.inside.1 hp.inside.2 hpq
    exact absurd (hfound.symm.trans hp.fails) (by simp)
  have heq : p = q := by
    by_contra h
    rcases Before.total h with h | h
    · exact hne hp hq h
    · exact hne hq hp h
  subst heq
  exact ⟨rfl, by simpa using hp.fails.symm.trans hq.fails⟩

section Outcome

variable {region : RegionHandle} {palette : Palette} {tile : TileSpec} {policy : ScanPolicy}
  (hfits : tile.Fits)
include hfits

/-- A tile is rendered just where all its chunks load. -/
theorem outcome_eq_ok_iff {rendered : RenderedTile} :
    (render region palette tile policy).outcome = .ok rendered ↔
      (∀ place ∈ tile.places, Loads region tile place) ∧
        rendered = ⟨(finalCanvas region palette tile policy).surface,
          (finalCanvas region palette tile policy).report⟩ := by
  by_cases h : ∀ place ∈ tile.places, Loads region tile place
  · rw [render_of_loads palette hfits policy h, Except.ok.injEq, and_iff_right h, eq_comm]
  · obtain ⟨place, halt, hfirst⟩ := exists_firstFailure h
    rw [render_of_firstFailure palette hfits policy hfirst]
    exact ⟨fun heq => by simp at heq, fun heq => absurd heq.1 h⟩

theorem outcome_eq_error_iff {halt : Halt WorldError} :
    (render region palette tile policy).outcome = .error halt ↔
      ∃ place, FirstFailure region tile place halt := by
  by_cases h : ∀ place ∈ tile.places, Loads region tile place
  · rw [render_of_loads palette hfits policy h]
    constructor
    · simp
    · rintro ⟨place, hfirst⟩
      obtain ⟨found, hfound⟩ := h place (TileSpec.mem_places.2 hfirst.inside)
      exact absurd (hfound.symm.trans hfirst.fails) (by simp)
  · obtain ⟨place, halt', hfirst⟩ := exists_firstFailure h
    rw [render_of_firstFailure palette hfits policy hfirst]
    constructor
    · intro heq
      obtain rfl : halt' = halt := by simpa using heq
      exact ⟨place, hfirst⟩
    · rintro ⟨place', hfirst'⟩
      rw [(hfirst.unique hfirst').2]

end Outcome

end TerrainMap.Tile
