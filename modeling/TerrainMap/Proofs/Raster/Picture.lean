import Mathlib.Data.List.Induction
import TerrainMap.Proofs.Raster.Blit

/-!
Rasters against pictures in two dimensions. A picture gives every position its
colour, and an edit of a picture gives new colours to an area and to nothing
beside it. Every edit of a raster is a grid of strokes, one for each position of
its area; so after any number of edits a pixel has the colour that the last edit
on it gave, however the bytes were moved.
-/

namespace TerrainMap

namespace Raster

/-- A rectangle with its top left corner at `x`, `y`. -/
structure Area where
  x : Nat
  y : Nat
  width : Nat
  height : Nat
  deriving DecidableEq, Repr

namespace Area

def Covers (area : Area) (a b : Nat) : Prop :=
  area.x ≤ a ∧ a < area.x + area.width ∧ area.y ≤ b ∧ b < area.y + area.height

instance (area : Area) (a b : Nat) : Decidable (area.Covers a b) :=
  inferInstanceAs (Decidable (_ ∧ _ ∧ _ ∧ _))

/-- The area lies inside rasters of a size. -/
def Inside (area : Area) (width height : Nat) : Prop :=
  area.x + area.width ≤ width ∧ area.y + area.height ≤ height

instance (area : Area) (width height : Nat) : Decidable (area.Inside width height) :=
  inferInstanceAs (Decidable (_ ∧ _))

end Area

/-- What a raster shows, by positions. Beside its pixels it shows nothing. -/
def picture (r : Raster) (x y : Nat) : Color := (r.pixel? x y).getD Color.blank

theorem pixel?_eq_picture {r : Raster} (hr : r.Full) {x y : Nat} (hx : x < r.width)
    (hy : y < r.height) : r.pixel? x y = some (r.picture x y) := by
  obtain ⟨c, hc⟩ := Option.isSome_iff_exists.1 (pixel?_isSome (contains_of_lt hr hx hy))
  rw [picture, hc, Option.getD_some]

theorem pixel?_blank {width height x y : Nat} (hfull : (blank width height).Full)
    (hx : x < width) (hy : y < height) :
    (blank width height).pixel? x y = some Color.blank := by
  have hzero (count i : Nat) : (Array.replicate count (0 : UInt8)).getD i 0 = 0 := by
    rw [Array.getD_eq_getD_getElem?, Array.getElem?_replicate]
    split
    · rfl
    · rfl
  rw [pixel?_eq_colorAt (contains_of_lt hfull hx hy)]
  simp only [colorAt, blank, hzero, Color.blank]

/-- A raster of a size, with all its bytes, that shows a picture. -/
structure Depicts (r : Raster) (width height : Nat) (picture : Nat → Nat → Color) : Prop where
  full : r.Full
  width_eq : r.width = width
  height_eq : r.height = height
  pixel : ∀ x < width, ∀ y < height, r.pixel? x y = some (picture x y)

namespace Depicts

variable {r : Raster} {width height : Nat} {picture : Nat → Nat → Color}

/-- The strokes that copy a raster are those of the picture that it shows. -/
theorem copyStrokes_eq (h : r.Depicts width height picture) (x y : Nat) :
    r.copyStrokes x y = Stroke.grid x y width height picture := by
  rw [copyStrokes, h.width_eq, h.height_eq]
  refine Stroke.grid_congr fun i hi j hj => ?_
  have hpixel := pixel?_eq_colorAt
    (contains_of_lt h.full (h.width_eq.symm ▸ hi) (h.height_eq.symm ▸ hj))
  rw [h.pixel i hi j hj] at hpixel
  exact (Option.some.inj hpixel).symm

end Depicts

theorem Full.depicts_blank {width height : Nat} (h : (blank width height).Full) :
    (blank width height).Depicts width height fun _ _ => Color.blank :=
  ⟨h, rfl, rfl, fun _ hx _ hy => pixel?_blank h hx hy⟩

theorem Full.depicts {r : Raster} (hr : r.Full) : r.Depicts r.width r.height r.picture :=
  ⟨hr, rfl, rfl, fun _ hx _ hy => pixel?_eq_picture hr hx hy⟩

/-- One change of a raster. What is copied is a raster with all its pixels. -/
inductive Edit where
  | put (x y : Nat) (c : Color)
  | fillRect (x y width height : Nat) (c : Color)
  | blit (source : Raster) (full : source.Full) (x y : Nat)

/-- Makes a change as far as there are pixels, and tells whether there were. -/
def edit (r : Raster) : Edit → Raster × Bool
  | .put x y c => painter.put r x y c
  | .fillRect x y width height c => painter.fillRect r x y width height c
  | .blit source _ x y => r.blit source x y

/-- The raster after a change that could be made as a whole. -/
def edit? (r : Raster) (e : Edit) : Option Raster :=
  if (r.edit e).2 then some (r.edit e).1 else none

namespace Edit

/-- Where the change goes. -/
def area : Edit → Area
  | put x y _ => ⟨x, y, 1, 1⟩
  | fillRect x y width height _ => ⟨x, y, width, height⟩
  | blit source _ x y => ⟨x, y, source.width, source.height⟩

/-- The colours that the change gives, by positions inside its area. -/
def colors : Edit → Nat → Nat → Color
  | put _ _ c, _, _ => c
  | fillRect _ _ _ _ c, _, _ => c
  | blit source _ _ _, i, j => source.picture i j

/-- The colour that the change gives to a position of its area. -/
def colorOn (e : Edit) (x y : Nat) : Color := e.colors (x - e.area.x) (y - e.area.y)

def strokes (e : Edit) : List Stroke :=
  Stroke.grid e.area.x e.area.y e.area.width e.area.height e.colors

/-- The change that a single stroke makes, with its position in words. -/
def ofStroke (s : Stroke) : Edit := put (Word.wrap s.x) (Word.wrap s.y) s.color

end Edit

/-- The last change of a position. -/
def lastOn (edits : List Edit) (x y : Nat) : Option Edit :=
  edits.reverse.find? fun e => decide (e.area.Covers x y)

/-- The picture that some changes make of a blank one. -/
def shown (edits : List Edit) (x y : Nat) : Color :=
  match lastOn edits x y with
  | some e => e.colorOn x y
  | none => Color.blank

theorem shown_append_singleton (edits : List Edit) (e : Edit) (x y : Nat) :
    shown (edits ++ [e]) x y =
      if e.area.Covers x y then e.colorOn x y else shown edits x y := by
  simp only [shown, lastOn, List.reverse_append, List.reverse_singleton, List.singleton_append,
    List.find?_cons]
  by_cases h : e.area.Covers x y
  · simp [h]
  · simp [h]

/-! ### One change -/

theorem size_copyBytes (source : Array UInt8) (start target : Nat) (data : Array UInt8)
    (count : Nat) : (copyBytes source start target data count).size = data.size := by
  induction count generalizing start target data with
  | zero => rfl
  | succ count ih => rw [copyBytes, ih, Array.size_setIfInBounds]

theorem sameSize_copyBytes (r : Raster) (bytes : Array UInt8) (start target count : Nat) :
    r.SameSize { r with data := copyBytes bytes start target r.data count } :=
  ⟨rfl, rfl, size_copyBytes bytes start target r.data count⟩

theorem sameSize_blitRows (r source : Raster) (row x y count : Nat) :
    r.SameSize (r.blitRows source row x y count).1 := by
  induction count generalizing r row with
  | zero => exact .refl r
  | succ count ih =>
      rw [blitRows]
      split
      · exact (sameSize_copyBytes r ..).trans (ih ..)
      · exact .refl r

/-- A raster keeps its size, also under a change that is given up on the way. -/
theorem sameSize_edit (r : Raster) (e : Edit) : r.SameSize (r.edit e).1 := by
  cases e with
  | put x y c => exact sameSize_painter_put r x y c
  | fillRect x y width height c =>
      rw [edit, Painter.fillRect, Painter.fillRows_eq_paint]
      exact sameSize_paint r _
  | blit source hs x y => exact sameSize_blitRows r source 0 x y source.height

/-- A change inside a raster can be made, and makes its strokes. -/
theorem edit_eq_paint {r : Raster} (hr : r.Full) {e : Edit}
    (hin : e.area.Inside r.width r.height) :
    r.edit e = r.paint e.strokes ∧ (r.edit e).2 = true := by
  obtain ⟨hx, hy⟩ := hin
  cases e with
  | put x y c =>
      have hcontains : r.contains x y = true := contains_of_lt hr hx hy
      have hone : (Edit.put x y c).strokes = [⟨x, y, c⟩] := rfl
      rw [hone, paint_cons, if_pos hcontains, paint_nil, edit, painter_put, if_pos hcontains]
      exact ⟨rfl, rfl⟩
  | fillRect x y width height c =>
      have hfill : r.edit (.fillRect x y width height c) = r.paint _ :=
        painter.fillRect_eq_paint r c (Nat.lt_of_le_of_lt hx hr.width_lt)
          (Nat.lt_of_le_of_lt hy hr.height_lt)
      exact ⟨hfill, by rw [hfill]; exact paint_complete hr (holds_grid _ hx hy)⟩
  | blit source hs x y =>
      have hcomplete : (r.blit source x y).2 = true :=
        blitRows_complete hr hs (Nat.le_of_eq (Nat.zero_add _)) hx hy
      refine ⟨?_, hcomplete⟩
      rw [edit, blit_eq_paint hr hs hcomplete, hs.depicts.copyStrokes_eq]
      rfl

/-- A change inside a raster can be made, and changes the picture in its area. -/
theorem Depicts.edit {r : Raster} {width height : Nat} {picture : Nat → Nat → Color}
    (h : r.Depicts width height picture) {e : Edit} (hin : e.area.Inside width height) :
    ∃ r', r.edit? e = some r' ∧
      r'.Depicts width height fun x y =>
        if e.area.Covers x y then e.colorOn x y else picture x y := by
  rw [← h.width_eq, ← h.height_eq] at hin
  obtain ⟨hpaint, hcomplete⟩ := edit_eq_paint h.full hin
  have hsize := sameSize_edit r e
  refine ⟨(r.edit e).1, if_pos hcomplete, h.full.of_sameSize hsize,
    hsize.width_eq.trans h.width_eq, hsize.height_eq.trans h.height_eq, ?_⟩
  intro x hx y hy
  have hold := h.pixel x hx y hy
  rw [← h.width_eq] at hx
  rw [← h.height_eq] at hy
  rw [hpaint, Edit.strokes, pixel?_paint_grid h.full e.colors hin.1 hin.2 hx hy, hold,
    apply_ite some]
  rfl

/-! ### Any number of changes -/

theorem depicts_edits {width height : Nat} (hfull : (blank width height).Full)
    {edits : List Edit} (hin : ∀ e ∈ edits, e.area.Inside width height) :
    ∃ r, edits.foldlM edit? (blank width height) = some r ∧
      r.Depicts width height (shown edits) := by
  induction edits using List.reverseRecOn with
  | nil => exact ⟨_, rfl, hfull.depicts_blank⟩
  | append_singleton edits e ih =>
      obtain ⟨r, hr, hdepicts⟩ := ih fun e' he' => hin e' (List.mem_append_left _ he')
      obtain ⟨r', hr', hdepicts'⟩ :=
        hdepicts.edit (hin e (List.mem_append_right _ (List.mem_singleton_self e)))
      have hshown : shown (edits ++ [e]) =
          fun x y => if e.area.Covers x y then e.colorOn x y else shown edits x y := by
        funext x y
        exact shown_append_singleton edits e x y
      refine ⟨r', ?_, hshown ▸ hdepicts'⟩
      simp [List.foldlM_append, hr, hr']

theorem sameSize_edits (r : Raster) (edits : List Edit) :
    r.SameSize (edits.foldl (fun r e => (r.edit e).1) r) := by
  induction edits generalizing r with
  | nil => exact .refl r
  | cons e rest ih => exact (sameSize_edit r e).trans (ih _)

/-- A blank raster that is filled as a whole has one colour. -/
theorem Full.depicts_filled {width height : Nat} (h : (blank width height).Full) (c : Color) :
    (painter.fillRect (blank width height) 0 0 width height c).1.Depicts width height
      fun _ _ => c := by
  have hin : (Edit.fillRect 0 0 width height c).area.Inside width height := by
    simp [Edit.area, Area.Inside]
  obtain ⟨r, hr, hdepicts⟩ := h.depicts_blank.edit hin
  rw [edit?, if_pos (edit_eq_paint h hin).2] at hr
  cases hr
  refine ⟨hdepicts.full, hdepicts.width_eq, hdepicts.height_eq, fun x hx y hy => ?_⟩
  have hcovers : (Edit.fillRect 0 0 width height c).area.Covers x y := by
    simp [Edit.area, Area.Covers, hx, hy]
  exact (hdepicts.pixel x hx y hy).trans (congrArg some (if_pos hcovers))

/-- Only the word of a position counts. -/
theorem index_wrap (r : Raster) (x y : Nat) :
    r.index (Word.wrap x) (Word.wrap y) = r.index x y := by
  have hrow : Word.mul (Word.wrap y) r.width = Word.mul y r.width := Nat.mod_mul_mod _ _ _
  have hplace (a : Nat) : Word.add a (Word.wrap x) = Word.add a x := Nat.add_mod_mod _ _ _
  rw [index, index, hrow, hplace]

theorem painter_put_wrap (r : Raster) (x y : Nat) (c : Color) :
    painter.put r (Word.wrap x) (Word.wrap y) c = painter.put r x y c := by
  have hcontains : r.contains (Word.wrap x) (Word.wrap y) = r.contains x y := by
    simp only [contains, index_wrap]
  have hput : r.put (Word.wrap x) (Word.wrap y) c = r.put x y c := by
    simp only [put, index_wrap]
  rw [painter_put, painter_put, hcontains, hput]

/-- Strokes are made as changes of single pixels, one after the other. -/
theorem foldlM_ofStroke {r : Raster} {strokes : List Stroke} (h : (r.paint strokes).2 = true) :
    (strokes.map Edit.ofStroke).foldlM edit? r = some (r.paint strokes).1 := by
  induction strokes generalizing r with
  | nil => rfl
  | cons s rest ih =>
      rw [paint_cons] at h ⊢
      split at h
      · next hcontains =>
        have hput : r.edit (.ofStroke s) = (r.put s.x s.y s.color, true) := by
          rw [Edit.ofStroke, edit, painter_put_wrap, painter_put, if_pos hcontains]
        have hfirst : r.edit? (.ofStroke s) = some (r.put s.x s.y s.color) := by
          rw [edit?, hput]
          rfl
        rw [List.map_cons, List.foldlM_cons, hfirst, if_pos hcontains]
        exact ih h
      · cases h

/-- **The flat buffer is a picture.** A new raster whose width and height are
words and whose bytes a buffer can take is blank. Whatever is done to it, it
keeps its size and the number of its bytes. Changes that go inside it can be
made, and afterwards each pixel has the colour that the last change on it gave,
or is blank if there was none. Copying a raster is the same as colouring the
pixels one by one in the order of the source, wherever the copy can be made,
also where rows go on past the right edge and run into each other. Filling an
area is the same as copying a raster of one colour. -/
theorem edits_draw_picture :
    (∀ (width height : Nat) (edits : List Edit), width < Word.count → height < Word.count →
      width * height * 3 ≤ maxBytes →
      ∃ fresh, create? width height = some fresh ∧
        fresh.Depicts width height (fun _ _ => Color.blank) ∧
        fresh.SameSize (edits.foldl (fun r e => (r.edit e).1) fresh) ∧
        ((∀ e ∈ edits, e.area.Inside width height) →
          ∃ r, edits.foldlM edit? fresh = some r ∧ r.Depicts width height (shown edits))) ∧
    (∀ (r source : Raster) (width height : Nat) (picture : Nat → Nat → Color), r.Full →
      source.Depicts width height picture → ∀ x y, (r.blit source x y).2 = true →
        ((Stroke.grid x y width height picture).map Edit.ofStroke).foldlM edit? r =
          some (r.blit source x y).1) ∧
    ∀ (r source : Raster) (width height : Nat) (c : Color), r.Full →
      source.Depicts width height (fun _ _ => c) → ∀ x y,
        Area.Inside ⟨x, y, width, height⟩ r.width r.height →
          (painter.fillRect r x y width height c).2 = true ∧
            painter.fillRect r x y width height c = r.blit source x y := by
  refine ⟨?_, ?_, ?_⟩
  · intro width height edits hwidth hheight hsize
    have hfull := full_blank hwidth hheight hsize
    exact ⟨blank width height, create?_of_le hsize, hfull.depicts_blank,
      sameSize_edits _ edits, depicts_edits hfull⟩
  · intro r source width height picture hr hsource x y hblit
    rw [blit_eq_paint hr hsource.full hblit, hsource.copyStrokes_eq] at *
    exact foldlM_ofStroke hblit
  · intro r source width height c hr hsource x y hin
    have hin' : (Edit.blit source hsource.full x y).area.Inside r.width r.height := by
      simpa [Edit.area, hsource.width_eq, hsource.height_eq] using hin
    obtain ⟨hfill, hcomplete⟩ := edit_eq_paint hr (e := .fillRect x y width height c) hin
    obtain ⟨-, hblit⟩ := edit_eq_paint hr hin'
    refine ⟨hcomplete, hfill.trans ?_⟩
    rw [blit_eq_paint hr hsource.full hblit, hsource.copyStrokes_eq]
    rfl

/-- A raster of one long row, whose bytes no buffer can take, does not come to be. -/
theorem no_buffer_for_long_row :
    ¬ ∃ fresh, create? 4611686018427387904 1 = some fresh ∧
      fresh.data.size = 4611686018427387904 * 1 * 3 := by
  rintro ⟨fresh, hfresh, -⟩
  rw [create?, if_neg (by decide)] at hfresh
  cases hfresh

/-- Four pixels of different colours. -/
def stamp : Raster := ⟨2, 2, #[200, 0, 0, 0, 200, 0, 0, 0, 200, 90, 90, 90]⟩

theorem full_stamp : stamp.Full := ⟨by decide, by decide, rfl, by decide⟩

/-- Grey everywhere, the stamp on it, and a white pixel on the stamp's last one. -/
def stampedEdits : List Edit :=
  [.fillRect 0 0 4 3 ⟨40, 40, 40⟩, .blit stamp full_stamp 1 1, .put 2 2 ⟨255, 255, 255⟩]

/-- The stamp stands on the grey and the white pixel on the stamp. In a raster
that is a single pixel wide the rows of the stamp run into each other, and what
comes out is what its pixels leave when they are put down one by one. An area
filled with grey is a copy of a grey raster. -/
theorem stamp_is_drawn :
    (∀ e ∈ stampedEdits, e.area.Inside 4 3) ∧
    (∃ fresh r, create? 4 3 = some fresh ∧ stampedEdits.foldlM edit? fresh = some r ∧
      r.pixel? 0 2 = some ⟨40, 40, 40⟩ ∧ r.pixel? 2 1 = some ⟨0, 200, 0⟩ ∧
      r.pixel? 2 2 = some ⟨255, 255, 255⟩) ∧
    ((blank 1 4).blit stamp 0 1).2 = true ∧
    ((Stroke.grid 0 1 2 2 stamp.picture).map Edit.ofStroke).foldlM edit? (blank 1 4) =
      some ((blank 1 4).blit stamp 0 1).1 ∧
    (⟨1, 1, 2, 2⟩ : Area).Inside 4 3 ∧
    (painter.fillRect (blank 4 3) 1 1 2 2 ⟨40, 40, 40⟩).1 =
      ((blank 4 3).blit (painter.fillRect (blank 2 2) 0 0 2 2 ⟨40, 40, 40⟩).1 1 1).1 := by
  obtain ⟨hedits, hblit, hfill⟩ := edits_draw_picture
  have hin : ∀ e ∈ stampedEdits, e.area.Inside 4 3 := by decide
  have hfits : ((blank 1 4).blit stamp 0 1).2 = true := rfl
  have hnarrow : (blank 1 4).Full := full_blank (by decide) (by decide) (by decide)
  have hwide : (blank 4 3).Full := full_blank (by decide) (by decide) (by decide)
  have harea : (⟨1, 1, 2, 2⟩ : Area).Inside 4 3 := by decide
  refine ⟨hin, ?_, hfits, hblit (blank 1 4) stamp 2 2 _ hnarrow full_stamp.depicts 0 1 hfits,
    harea, ?_⟩
  · obtain ⟨fresh, hfresh, -, -, hdraw⟩ :=
      hedits 4 3 stampedEdits (by decide) (by decide) (by decide)
    obtain ⟨r, hr, hdepicts⟩ := hdraw hin
    refine ⟨fresh, r, hfresh, hr, ?_, ?_, ?_⟩
    · rw [hdepicts.pixel 0 (by decide) 2 (by decide)]
      rfl
    · rw [hdepicts.pixel 2 (by decide) 1 (by decide)]
      rfl
    · rw [hdepicts.pixel 2 (by decide) 2 (by decide)]
      rfl
  · have hgrey : (blank 2 2).Full := full_blank (by decide) (by decide) (by decide)
    rw [(hfill (blank 4 3) _ 2 2 ⟨40, 40, 40⟩ hwide (hgrey.depicts_filled _) 1 1 harea).2]

end Raster

end TerrainMap
