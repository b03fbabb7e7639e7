import Mathlib.Data.List.Forall2
import TerrainMap.Proofs.Tile.Kept
import TerrainMap.Proofs.Tile.Render

/-!
Where the coordinate of a region is seen. A tile is made of the chunks that the
region answers with, and these are asked for by their positions inside it. So two
regions with the same chunks give the same tile, whatever their coordinates; these
are only printed, in the lines of the log.
-/

namespace TerrainMap

/-- The lines are the same, or they print the two coordinates in one and the same
text. -/
inductive LogLine.SameButCoord (coord coord' : RegionCoord) : (line line' : LogLine) → Prop
  | same (line : LogLine) : SameButCoord coord coord' line line
  | printed (level : LogLevel) (front back : String) :
      SameButCoord coord coord' ⟨level, front ++ coord.display ++ back⟩
        ⟨level, front ++ coord'.display ++ back⟩

/-- The logs are the same line by line, but for the coordinates that they print. -/
def SameLog (coord coord' : RegionCoord) (log log' : Array LogLine) : Prop :=
  List.Forall₂ (LogLine.SameButCoord coord coord') log.toList log'.toList

section Logs

variable {coord coord' : RegionCoord} {log log' : Array LogLine}

theorem LogLine.SameButCoord.eq {line line' : LogLine} (h : SameButCoord coord coord line line') :
    line' = line := by
  cases h with
  | same => rfl
  | printed => rfl

/-- Logs that print the same coordinate are the same. -/
theorem SameLog.eq (h : SameLog coord coord log log') : log' = log := by
  have hlines : List.Forall₂ Eq log.toList log'.toList :=
    List.Forall₂.imp (fun _ _ hline => (LogLine.SameButCoord.eq hline).symm) h
  rw [List.forall₂_eq_eq_eq] at hlines
  exact Array.toList_inj.1 hlines.symm

theorem SameLog.refl (coord coord' : RegionCoord) (log : Array LogLine) :
    SameLog coord coord' log log :=
  List.forall₂_same.2 fun line _ => .same line

theorem SameLog.append {rest rest' : Array LogLine} (h : SameLog coord coord' log log')
    (hrest : SameLog coord coord' rest rest') :
    SameLog coord coord' (log ++ rest) (log' ++ rest') := by
  rw [SameLog, Array.toList_append, Array.toList_append]
  exact List.rel_append h hrest

theorem SameLog.push {line line' : LogLine} (h : SameLog coord coord' log log')
    (hline : line.SameButCoord coord coord' line') :
    SameLog coord coord' (log.push line) (log'.push line') := by
  rw [SameLog, Array.toList_push, Array.toList_push]
  exact List.rel_append h (.cons hline .nil)

end Logs

namespace Tile

theorem sameButCoord_absentLine (coord coord' : RegionCoord) (cx cz : Nat) :
    (absentLine coord cx cz).SameButCoord coord coord' (absentLine coord' cx cz) := by
  have h := @LogLine.SameButCoord.printed coord coord' .info "region "
    (" chunk (" ++ Nat.repr cx ++ ", " ++ Nat.repr cz ++ ")" ++ " absent")
  simpa only [absentLine, chunkName, String.append_assoc] using h

theorem sameButCoord_unknownLine (id : String) (coord coord' : RegionCoord) (cx cz : Nat) :
    (unknownLine id coord cx cz).SameButCoord coord coord' (unknownLine id coord' cx cz) := by
  have h := @LogLine.SameButCoord.printed coord coord' .warn
    ("unknown block '" ++ id ++ "' in " ++ "region ")
    (" chunk (" ++ Nat.repr cx ++ ", " ++ Nat.repr cz ++ ")")
  simpa only [unknownLine, chunkName, String.append_assoc] using h

end Tile

/-! ### Two canvases -/

section Canvases

variable {σ : Type} {coord coord' : RegionCoord}

/-- The canvases show and count the same, and their logs are the same but for the
coordinates. -/
structure Canvas.SameButCoord (coord coord' : RegionCoord) (canvas canvas' : Canvas σ) : Prop where
  surface : canvas'.surface = canvas.surface
  report : canvas'.report = canvas.report
  log : SameLog coord coord' canvas.log canvas'.log

theorem Canvas.SameButCoord.fresh (coord coord' : RegionCoord) (surface : σ) :
    SameButCoord coord coord' (Canvas.fresh surface) (Canvas.fresh surface) :=
  ⟨rfl, rfl, .refl coord coord' #[]⟩

namespace Tile

/-- Two paintings that went equally far, on canvases that are the same but for
the coordinates. -/
structure SamePainting (coord coord' : RegionCoord) (painted painted' : Canvas σ × Bool) :
    Prop where
  canvas : painted.1.SameButCoord coord coord' painted'.1
  complete : painted'.2 = painted.2

/-- Paintings that went equally far go on alike. -/
theorem SamePainting.goOn {painted painted' : Canvas σ × Bool}
    (h : SamePainting coord coord' painted painted') {rest rest' : Canvas σ → Canvas σ × Bool}
    (hrest : ∀ canvas canvas', canvas.SameButCoord coord coord' canvas' →
      SamePainting coord coord' (rest canvas) (rest' canvas')) :
    SamePainting coord coord' (Tile.goOn rest painted) (Tile.goOn rest' painted') := by
  obtain ⟨canvas, complete⟩ := painted
  obtain ⟨canvas', complete'⟩ := painted'
  obtain ⟨hcanvas, hcomplete⟩ := h
  cases hcomplete
  cases complete with
  | false => exact ⟨hcanvas, rfl⟩
  | true => exact hrest canvas canvas' hcanvas

variable {canvas canvas' : Canvas σ} (h : canvas.SameButCoord coord coord' canvas')
  (painter : Painter σ)
include h

theorem sameButCoord_note {line line' : String → LogLine}
    (hline : ∀ id, (line id).SameButCoord coord coord' (line' id)) (px pz : Nat)
    (pixel : ColumnPixel) :
    (note line px pz pixel canvas).SameButCoord coord coord' (note line' px pz pixel canvas') := by
  cases pixel with
  | shaded c => exact h
  | empty => exact ⟨h.surface, by simp only [note, h.report], h.log⟩
  | unknown id => exact ⟨h.surface, by simp only [note, h.report], h.log.push (hline id)⟩

theorem samePainting_setPixel (px pz : Nat) (c : Color) :
    SamePainting coord coord' (setPixel painter canvas px pz c)
      (setPixel painter canvas' px pz c) := by
  obtain ⟨surface, report, log⟩ := canvas
  obtain ⟨surface', report', log'⟩ := canvas'
  obtain ⟨rfl, rfl, hlog⟩ := h
  exact ⟨⟨rfl, rfl, hlog⟩, rfl⟩

section Chunk

variable (chunk : ChunkView) (palette : Palette) (policy : ScanPolicy)
  {line line' : String → LogLine} (hline : ∀ id, (line id).SameButCoord coord coord' (line' id))
include hline

theorem samePainting_paintRow (px pz z count x : Nat) (row : RowScan) :
    SamePainting coord coord'
      (paintRow painter chunk palette policy line px pz z count x row canvas)
      (paintRow painter chunk palette policy line' px pz z count x row canvas') := by
  induction count generalizing x row canvas canvas' with
  | zero => exact ⟨h, rfl⟩
  | succ count ih =>
      rw [paintRow, paintRow]
      refine (samePainting_setPixel (sameButCoord_note h hline ..) painter ..).goOn ?_
      exact fun canvas canvas' h => ih h (x + 1) _

theorem samePainting_paintRows (px pz count z : Nat) :
    SamePainting coord coord' (paintRows painter chunk palette policy line px pz count z canvas)
      (paintRows painter chunk palette policy line' px pz count z canvas') := by
  induction count generalizing z canvas canvas' with
  | zero => exact ⟨h, rfl⟩
  | succ count ih =>
      rw [paintRows, paintRows]
      refine (samePainting_paintRow h painter chunk palette policy hline ..).goOn ?_
      exact fun canvas canvas' h => ih h (z + 1)

theorem samePainting_paintChunk (px pz : Nat) :
    SamePainting coord coord' (paintChunk painter chunk palette policy line px pz canvas)
      (paintChunk painter chunk palette policy line' px pz canvas') := by
  refine (samePainting_paintRows h painter chunk palette policy hline ..).goOn ?_
  intro canvas canvas' h
  exact ⟨⟨h.surface, by simp only [countRendered, h.report], h.log⟩, rfl⟩

end Chunk

theorem samePainting_paintAbsent {line line' : LogLine}
    (hline : line.SameButCoord coord coord' line') (px pz : Nat) :
    SamePainting coord coord' (paintAbsent painter line px pz canvas)
      (paintAbsent painter line' px pz canvas') := by
  obtain ⟨surface, report, log⟩ := canvas
  obtain ⟨surface', report', log'⟩ := canvas'
  obtain ⟨rfl, rfl, hlog⟩ := h
  simp only [paintAbsent]
  rcases painter.fillRect _ px pz chunkPixels chunkPixels Color.blank with ⟨filled, _ | _⟩
  · exact ⟨⟨rfl, rfl, hlog.push hline⟩, rfl⟩
  · exact ⟨⟨rfl, rfl, hlog.push hline⟩, rfl⟩

theorem samePainting_paintPlace (palette : Palette) (tile : TileSpec) (policy : ScanPolicy)
    (place : Nat × Nat) (found : Option ChunkView) :
    SamePainting coord coord' (paintPlace painter coord palette tile policy place found canvas)
      (paintPlace painter coord' palette tile policy place found canvas') := by
  cases found with
  | none => exact samePainting_paintAbsent h painter (sameButCoord_absentLine ..) _ _
  | some chunk =>
      exact samePainting_paintChunk h painter chunk palette policy
        (fun id => sameButCoord_unknownLine id ..) _ _

end Tile

end Canvases

/-! ### Two regions -/

namespace Tile

/-- The regions have the same chunks, and the same faults but for how these are
stated. -/
def SameChunks (restate : WorldError → WorldError) (region region' : RegionHandle) : Prop :=
  ∀ cx cz, region'.chunk cx cz = (region.chunk cx cz).mapCause restate

variable {restate : WorldError → WorldError} {region region' : RegionHandle}

theorem SameChunks.ok_iff (h : SameChunks restate region region') {cx cz : Nat}
    {found : Option ChunkView} :
    region'.chunk cx cz = .ok found ↔ region.chunk cx cz = .ok found := by
  rw [h]
  cases region.chunk cx cz <;> simp [Attempt.mapCause]

theorem SameChunks.error_iff (h : SameChunks restate region region') {cx cz : Nat}
    {halt' : Halt WorldError} :
    region'.chunk cx cz = .error halt' ↔
      ∃ halt, region.chunk cx cz = .error halt ∧ halt' = halt.mapCause restate := by
  rw [h]
  cases region.chunk cx cz <;> simp [Attempt.mapCause, eq_comm]

/-- The first chunk that does not load is at the same place. -/
theorem SameChunks.firstFailure_iff (h : SameChunks restate region region') {tile : TileSpec}
    {place : Nat × Nat} {halt' : Halt WorldError} :
    FirstFailure region' tile place halt' ↔
      ∃ halt, FirstFailure region tile place halt ∧ halt' = halt.mapCause restate := by
  have hloads (place : Nat × Nat) : Loads region' tile place ↔ Loads region tile place :=
    exists_congr fun _ => h.ok_iff
  constructor
  · intro hfirst
    obtain ⟨halt, hfails, hhalt⟩ := h.error_iff.1 hfirst.fails
    exact ⟨halt, ⟨hfirst.inside, hfails, fun p hx hz hp =>
      (hloads p).1 (hfirst.earlier p hx hz hp)⟩, hhalt⟩
  · rintro ⟨halt, hfirst, rfl⟩
    exact ⟨hfirst.inside, h.error_iff.2 ⟨halt, hfirst.fails, rfl⟩, fun p hx hz hp =>
      (hloads p).2 (hfirst.earlier p hx hz hp)⟩

theorem SameChunks.paintPlaces {σ : Type} {canvas canvas' : Canvas σ}
    (h : SameChunks restate region region')
    (hcanvas : canvas.SameButCoord region.coord region'.coord canvas') (painter : Painter σ)
    (palette : Palette) (tile : TileSpec) (policy : ScanPolicy) (places : List (Nat × Nat)) :
    (Tile.paintPlaces painter region palette tile policy places canvas).1.SameButCoord region.coord
        region'.coord (Tile.paintPlaces painter region' palette tile policy places canvas').1 ∧
      (Tile.paintPlaces painter region' palette tile policy places canvas').2 =
        (Tile.paintPlaces painter region palette tile policy places canvas).2.mapCause restate := by
  induction places generalizing canvas canvas' with
  | nil => exact ⟨hcanvas, rfl⟩
  | cons place places ih =>
      rw [Tile.paintPlaces, Tile.paintPlaces, h]
      cases region.chunk (Word.add tile.chunkX place.1) (Word.add tile.chunkZ place.2) with
      | error halt => exact ⟨hcanvas, rfl⟩
      | ok found =>
          have hplace := samePainting_paintPlace hcanvas painter palette tile policy place found
          simp only [Attempt.mapCause]
          revert hplace
          rcases paintPlace painter region.coord palette tile policy place found canvas
            with ⟨painted, complete⟩
          rcases paintPlace painter region'.coord palette tile policy place found canvas'
            with ⟨painted', complete'⟩
          rintro ⟨hpainted, rfl⟩
          cases complete' with
          | true => exact ih hpainted
          | false => exact ⟨hpainted, rfl⟩

/-- A tile of the two regions is rendered alike, however large it is: its outcome
is the same, and so is its log but for the coordinates. -/
theorem SameChunks.render (h : SameChunks restate region region') (palette : Palette)
    (tile : TileSpec) (policy : ScanPolicy) :
    (render region' palette tile policy).outcome =
        (render region palette tile policy).outcome.mapCause restate ∧
      SameLog region.coord region'.coord (render region palette tile policy).log
        (render region' palette tile policy).log := by
  rw [Tile.render, Tile.render]
  cases Raster.create? tile.width tile.height with
  | none => exact ⟨rfl, .refl ..⟩
  | some raster =>
      obtain ⟨hcanvas, houtcome⟩ := h.paintPlaces
        (Canvas.SameButCoord.fresh region.coord region'.coord raster) Raster.painter palette tile
        policy tile.places
      simp only
      generalize Tile.paintPlaces Raster.painter region palette tile policy tile.places
        (Canvas.fresh raster) = painted at hcanvas houtcome
      generalize Tile.paintPlaces Raster.painter region' palette tile policy tile.places
        (Canvas.fresh raster) = painted' at hcanvas houtcome
      obtain ⟨⟨surface, report, log⟩, outcome⟩ := painted
      obtain ⟨⟨surface', report', log'⟩, outcome'⟩ := painted'
      obtain ⟨hsurface, hreport, hlog⟩ := hcanvas
      simp only at hsurface hreport houtcome
      subst hsurface hreport houtcome
      cases outcome with
      | ok done => exact ⟨rfl, hlog⟩
      | error halt => exact ⟨rfl, hlog⟩

end Tile

end TerrainMap
