import Mathlib.Data.List.Basic
import TerrainMap.Proofs.Word
import TerrainMap.Raster

/-!
Rasters as pictures. Painting is a list of strokes, each of which colours one
pixel, and afterwards a pixel shows the colour of the last stroke on it. The
flat buffer is opened here and for the copying of rows; everything else knows
a raster by its size and its pixels. What is said of painters is said without
looking at what they paint on.
-/

namespace TerrainMap

structure Stroke where
  x : Nat
  y : Nat
  color : Color
  deriving DecidableEq, Repr

namespace Stroke

/-- The strokes on one position, in the order they are made. -/
def on (strokes : List Stroke) (x y : Nat) : List Stroke :=
  strokes.filter fun s => decide (s.x = x ∧ s.y = y)

@[simp] theorem on_nil (x y : Nat) : on [] x y = [] := rfl

theorem on_cons_of_pos {s : Stroke} {rest : List Stroke} {x y : Nat} (h : s.x = x ∧ s.y = y) :
    on (s :: rest) x y = s :: on rest x y := by
  simp [on, h]

theorem on_cons_of_neg {s : Stroke} {rest : List Stroke} {x y : Nat}
    (h : ¬ (s.x = x ∧ s.y = y)) : on (s :: rest) x y = on rest x y := by
  simp [on, h]

theorem mem_on {s : Stroke} {strokes : List Stroke} {x y : Nat} :
    s ∈ on strokes x y ↔ s ∈ strokes ∧ s.x = x ∧ s.y = y := by
  simp [on]

def row (x y count : Nat) (color : Nat → Color) : List Stroke :=
  (List.range count).map fun i => ⟨x + i, y, color i⟩

/-- A rectangle of strokes, row by row, with the top left corner at `x`, `y`.
The colours are given by positions inside the rectangle. -/
def grid (x y width height : Nat) (color : Nat → Nat → Color) : List Stroke :=
  (List.range height).flatMap fun j => row x (y + j) width fun i => color i j

theorem row_succ (x y count : Nat) (color : Nat → Color) :
    row x y (count + 1) color =
      ⟨x, y, color 0⟩ :: row (x + 1) y count fun i => color (i + 1) := by
  simp [row, List.range_succ_eq_map, Nat.add_comm, Nat.add_left_comm]

theorem grid_succ (x y width height : Nat) (color : Nat → Nat → Color) :
    grid x y width (height + 1) color =
      row x y width (fun i => color i 0) ++
        grid x (y + 1) width height fun i j => color i (j + 1) := by
  simp [grid, List.range_succ_eq_map, List.flatMap_map, Nat.add_comm, Nat.add_left_comm]

theorem row_congr {x y count : Nat} {color color' : Nat → Color}
    (h : ∀ i < count, color i = color' i) : row x y count color = row x y count color' := by
  refine List.map_congr_left fun i hi => ?_
  rw [h i (List.mem_range.1 hi)]

theorem grid_congr {x y width height : Nat} {color color' : Nat → Nat → Color}
    (h : ∀ i < width, ∀ j < height, color i j = color' i j) :
    grid x y width height color = grid x y width height color' :=
  List.flatMap_congr fun j hj => row_congr fun i hi => h i hi j (List.mem_range.1 hj)

theorem mem_grid {s : Stroke} {x y width height : Nat} {color : Nat → Nat → Color} :
    s ∈ grid x y width height color ↔
      ∃ i < width, ∃ j < height, s = ⟨x + i, y + j, color i j⟩ := by
  simp only [grid, row, List.mem_flatMap, List.mem_map, List.mem_range]
  constructor
  · rintro ⟨j, hj, i, hi, rfl⟩
    exact ⟨i, hi, j, hj, rfl⟩
  · rintro ⟨i, hi, j, hj, rfl⟩
    exact ⟨j, hj, i, hi, rfl⟩

end Stroke

/-! ### Painters -/

namespace Painter

variable {σ : Type} (painter : Painter σ)

/-- Makes strokes one after the other, up to one that has no place. -/
def paint (s : σ) : List Stroke → σ × Bool
  | [] => (s, true)
  | stroke :: rest =>
    match painter.put s stroke.x stroke.y stroke.color with
    | (s, false) => (s, false)
    | (s, true) => paint s rest

@[simp] theorem paint_nil (s : σ) : painter.paint s [] = (s, true) := rfl

@[simp] theorem paint_singleton (s : σ) (stroke : Stroke) :
    painter.paint s [stroke] = painter.put s stroke.x stroke.y stroke.color := by
  rw [paint]
  match painter.put s stroke.x stroke.y stroke.color with
  | (s', true) => rfl
  | (s', false) => rfl

theorem paint_append (s : σ) (front back : List Stroke) :
    painter.paint s (front ++ back) =
      if (painter.paint s front).2 then painter.paint (painter.paint s front).1 back
      else painter.paint s front := by
  induction front generalizing s with
  | nil => simp [paint]
  | cons stroke front ih =>
      rw [List.cons_append, paint, paint]
      match painter.put s stroke.x stroke.y stroke.color with
      | (s', true) => exact ih s'
      | (s', false) => rfl

/-- What every stroke keeps, painting keeps. -/
theorem paint_keeps {P : σ → Prop} (hput : ∀ s x y c, P s → P (painter.put s x y c).1) {s : σ}
    (hs : P s) (strokes : List Stroke) : P (painter.paint s strokes).1 := by
  induction strokes generalizing s with
  | nil => exact hs
  | cons stroke rest ih =>
      have hnext := hput s stroke.x stroke.y stroke.color hs
      rw [paint]
      revert hnext
      match painter.put s stroke.x stroke.y stroke.color with
      | (s', true) => exact fun hnext => ih hnext
      | (s', false) => exact fun hnext => hnext

theorem fillRow_eq_paint (s : σ) (x y : Nat) (c : Color) (count : Nat) :
    painter.fillRow s x y c count = painter.paint s (Stroke.row x y count fun _ => c) := by
  induction count generalizing s x with
  | zero => rfl
  | succ count ih =>
      rw [fillRow, Stroke.row_succ, paint]
      match painter.put s x y c with
      | (s', true) => exact ih s' (x + 1)
      | (s', false) => rfl

theorem fillRows_eq_paint (s : σ) (x y width : Nat) (c : Color) (height : Nat) :
    painter.fillRows s x y width c height =
      painter.paint s (Stroke.grid x y width height fun _ _ => c) := by
  induction height generalizing s y with
  | zero => rfl
  | succ height ih =>
      rw [fillRows, Stroke.grid_succ, paint_append, fillRow_eq_paint]
      match painter.paint s (Stroke.row x y width fun _ => c) with
      | (s', true) => exact ih s' (y + 1)
      | (s', false) => rfl

/-- A rectangle whose edges are words is filled stroke by stroke. -/
theorem fillRect_eq_paint (s : σ) {x y width height : Nat} (c : Color)
    (hx : x + width < Word.count) (hy : y + height < Word.count) :
    painter.fillRect s x y width height c =
      painter.paint s (Stroke.grid x y width height fun _ _ => c) := by
  rw [fillRect, Word.add_sub_of_lt hx, Word.add_sub_of_lt hy, fillRows_eq_paint]

end Painter

/-! ### Rasters -/

namespace Raster

/-- The second raster is as large as the first one and has as many bytes. -/
structure SameSize (r r' : Raster) : Prop where
  width_eq : r'.width = r.width
  height_eq : r'.height = r.height
  size_eq : r'.data.size = r.data.size

protected theorem SameSize.refl (r : Raster) : r.SameSize r := ⟨rfl, rfl, rfl⟩

protected theorem SameSize.trans {r r' r'' : Raster} (h : r.SameSize r') (h' : r'.SameSize r'') :
    r.SameSize r'' :=
  ⟨h'.width_eq.trans h.width_eq, h'.height_eq.trans h.height_eq, h'.size_eq.trans h.size_eq⟩

/-- The width and the height are words, and the buffer has three bytes for every
pixel, as many as a buffer may have. -/
structure Full (r : Raster) : Prop where
  width_lt : r.width < Word.count
  height_lt : r.height < Word.count
  size_eq : r.data.size = r.width * r.height * 3
  size_le : r.data.size ≤ maxBytes

theorem Full.of_sameSize {r r' : Raster} (hr : r.Full) (h : r.SameSize r') : r'.Full where
  width_lt := h.width_eq ▸ hr.width_lt
  height_lt := h.height_eq ▸ hr.height_lt
  size_eq := by rw [h.size_eq, h.width_eq, h.height_eq, hr.size_eq]
  size_le := h.size_eq ▸ hr.size_le

theorem byteCount_of_le {width height : Nat} (h : width * height * 3 ≤ maxBytes) :
    byteCount width height = width * height * 3 := by
  have hlt : width * height * 3 < Word.count := Nat.lt_of_le_of_lt h (by decide)
  rw [byteCount, Word.mul_of_lt (by omega : width * height < Word.count), Word.mul_of_lt hlt]

theorem full_blank {width height : Nat} (hwidth : width < Word.count)
    (hheight : height < Word.count) (hsize : width * height * 3 ≤ maxBytes) :
    (blank width height).Full := by
  have hbytes : (blank width height).data.size = width * height * 3 := by
    rw [blank, Array.size_replicate, byteCount_of_le hsize]
  exact ⟨hwidth, hheight, hbytes, hbytes ▸ hsize⟩

theorem create?_of_le {width height : Nat} (hsize : width * height * 3 ≤ maxBytes) :
    create? width height = some (blank width height) :=
  if_pos (byteCount_of_le hsize ▸ hsize)

@[simp] theorem put_width (r : Raster) (x y : Nat) (c : Color) :
    (r.put x y c).width = r.width := rfl

@[simp] theorem put_height (r : Raster) (x y : Nat) (c : Color) :
    (r.put x y c).height = r.height := rfl

@[simp] theorem put_size (r : Raster) (x y : Nat) (c : Color) :
    (r.put x y c).data.size = r.data.size := by
  simp [put]

@[simp] theorem put_index (r : Raster) (x y : Nat) (c : Color) (x' y' : Nat) :
    (r.put x y c).index x' y' = r.index x' y' := rfl

theorem sameSize_put (r : Raster) (x y : Nat) (c : Color) : r.SameSize (r.put x y c) :=
  ⟨rfl, rfl, put_size r x y c⟩

theorem full_put {r : Raster} (hr : r.Full) (x y : Nat) (c : Color) : (r.put x y c).Full :=
  hr.of_sameSize (sameSize_put r x y c)

/-- The place of a pixel, with the wrapping done at the end. -/
theorem index_eq_mod (r : Raster) (x y : Nat) :
    r.index x y = (y * r.width + x) * 3 % Word.count := by
  simp only [index, Word.mul, Word.add, Word.wrap, Nat.mod_mul_mod, Nat.mod_add_mod]

/-- In a row of the raster, and at its end, nothing wraps around. -/
theorem index_of_le {r : Raster} (hr : r.Full) {x y : Nat} (hx : x ≤ r.width)
    (hy : y < r.height) :
    r.index x y = (y * r.width + x) * 3 ∧ (y * r.width + x) * 3 ≤ r.data.size := by
  have hrow : (y + 1) * r.width ≤ r.height * r.width := Nat.mul_le_mul_right _ hy
  rw [Nat.add_mul, Nat.one_mul, Nat.mul_comm r.height] at hrow
  have hsize := hr.size_eq
  have hend : (y * r.width + x) * 3 ≤ r.data.size := by omega
  have hword : (y * r.width + x) * 3 < Word.count :=
    Nat.lt_of_le_of_lt (Nat.le_trans hend hr.size_le) (by decide)
  exact ⟨by rw [index_eq_mod, Nat.mod_eq_of_lt hword], hend⟩

/-- Positions inside the raster lie at different places of the buffer. -/
theorem index_eq_iff {r : Raster} (hr : r.Full) {x y x' y' : Nat} (hx : x < r.width)
    (hy : y < r.height) (hx' : x' < r.width) (hy' : y' < r.height) :
    r.index x y = r.index x' y' ↔ x = x' ∧ y = y' := by
  constructor
  · intro h
    have hw : 0 < r.width := by omega
    have heq : r.width * y + x = r.width * y' + x' := by
      rw [(index_of_le hr (Nat.le_of_lt hx) hy).1, (index_of_le hr (Nat.le_of_lt hx') hy').1,
        Nat.mul_comm y, Nat.mul_comm y'] at h
      omega
    have hrow : y = y' := by
      -- the row of a position is its quotient by the width
      have := congrArg (· / r.width) heq
      simpa [Nat.mul_add_div hw, Nat.div_eq_of_lt hx, Nat.div_eq_of_lt hx'] using this
    subst hrow
    exact ⟨by omega, rfl⟩
  · rintro ⟨rfl, rfl⟩
    rfl

/-- A piece of a row that fits beside the right edge fits into the buffer. -/
theorem index_add_le {r : Raster} (hr : r.Full) {x y count : Nat} (hx : x + count ≤ r.width)
    (hy : y < r.height) : r.index x y + count * 3 ≤ r.data.size := by
  obtain ⟨hstart, -⟩ := index_of_le hr (by omega : x ≤ r.width) hy
  obtain ⟨-, hend⟩ := index_of_le hr hx hy
  rw [hstart]
  omega

theorem contains_of_lt {r : Raster} (hr : r.Full) {x y : Nat} (hx : x < r.width)
    (hy : y < r.height) : r.contains x y = true := by
  have hend : r.index x y + 1 * 3 ≤ r.data.size := index_add_le hr hx hy
  simpa [contains] using hend

/-- The bytes of a raster after one pixel was coloured. -/
theorem getElem?_put {r : Raster} {x y : Nat} (h : r.contains x y = true) (c : Color) (i : Nat) :
    (r.put x y c).data[i]? =
      if i = r.index x y then some c.r
      else if i = r.index x y + 1 then some c.g
      else if i = r.index x y + 2 then some c.b
      else r.data[i]? := by
  simp only [contains, decide_eq_true_eq] at h
  simp only [put, Array.getElem?_setIfInBounds, Array.size_setIfInBounds]
  grind

theorem pixel?_put_self {r : Raster} {x y : Nat} (h : r.contains x y = true) (c : Color) :
    (r.put x y c).pixel? x y = some c := by
  simp [pixel?, getElem?_put h]

/-- A pixel keeps its colour if its bytes do not overlap those of the coloured one. -/
theorem pixel?_put_of_apart {r : Raster} {x y x' y' : Nat} (c : Color)
    (h : r.index x y + 3 ≤ r.index x' y' ∨ r.index x' y' + 3 ≤ r.index x y) :
    (r.put x y c).pixel? x' y' = r.pixel? x' y' := by
  simp only [pixel?, put_index]
  simp only [put, Array.getElem?_setIfInBounds]
  grind

theorem pixel?_put {r : Raster} (hr : r.Full) {x y x' y' : Nat} (hx : x < r.width)
    (hy : y < r.height) (hx' : x' < r.width) (hy' : y' < r.height) (c : Color) :
    (r.put x y c).pixel? x' y' = if x = x' ∧ y = y' then some c else r.pixel? x' y' := by
  split
  · next h =>
    obtain ⟨rfl, rfl⟩ := h
    exact pixel?_put_self (contains_of_lt hr hx hy) c
  · next h =>
    have hne := mt (index_eq_iff hr hx hy hx' hy').1 h
    refine pixel?_put_of_apart c ?_
    -- both places are multiples of three
    rw [(index_of_le hr (Nat.le_of_lt hx) hy).1, (index_of_le hr (Nat.le_of_lt hx') hy').1] at *
    omega

theorem painter_put (r : Raster) (x y : Nat) (c : Color) :
    painter.put r x y c = if r.contains x y then (r.put x y c, true) else (r, false) := rfl

/-- Makes strokes one after the other, up to one whose position does not exist. -/
def paint (r : Raster) (strokes : List Stroke) : Raster × Bool := painter.paint r strokes

@[simp] theorem paint_nil (r : Raster) : r.paint [] = (r, true) := rfl

theorem paint_cons (r : Raster) (s : Stroke) (rest : List Stroke) :
    r.paint (s :: rest) =
      if r.contains s.x s.y then (r.put s.x s.y s.color).paint rest else (r, false) := by
  rw [paint, Painter.paint, painter_put]
  by_cases h : r.contains s.x s.y
  · rw [if_pos h, if_pos h, paint]
  · rw [if_neg h, if_neg h]

theorem paint_append (r : Raster) (front back : List Stroke) :
    r.paint (front ++ back) =
      if (r.paint front).2 then (r.paint front).1.paint back else r.paint front :=
  painter.paint_append r front back

theorem sameSize_painter_put (r : Raster) (x y : Nat) (c : Color) :
    r.SameSize (painter.put r x y c).1 := by
  rw [painter_put]
  split
  · exact sameSize_put r x y c
  · exact .refl r

theorem sameSize_paint (r : Raster) (strokes : List Stroke) : r.SameSize (r.paint strokes).1 :=
  painter.paint_keeps (fun s x y c hs => hs.trans (sameSize_painter_put s x y c)) (.refl r) strokes

theorem full_paint {r : Raster} (hr : r.Full) (strokes : List Stroke) :
    (r.paint strokes).1.Full :=
  hr.of_sameSize (sameSize_paint r strokes)

/-- Every stroke has its pixel. -/
def Holds (r : Raster) (strokes : List Stroke) : Prop :=
  ∀ s ∈ strokes, s.x < r.width ∧ s.y < r.height

theorem paint_complete {r : Raster} (hr : r.Full) {strokes : List Stroke}
    (hs : r.Holds strokes) : (r.paint strokes).2 = true := by
  induction strokes generalizing r with
  | nil => rfl
  | cons s rest ih =>
      obtain ⟨hx, hy⟩ := hs s List.mem_cons_self
      rw [paint_cons, if_pos (contains_of_lt hr hx hy)]
      exact ih (full_put hr _ _ _) fun s' hs' => hs s' (List.mem_cons_of_mem _ hs')

/-- A pixel shows the last stroke on it, or what it showed before. -/
theorem pixel?_paint {r : Raster} (hr : r.Full) {strokes : List Stroke} (hs : r.Holds strokes)
    {x y : Nat} (hx : x < r.width) (hy : y < r.height) :
    (r.paint strokes).1.pixel? x y =
      ((Stroke.on strokes x y).getLast?.map Stroke.color).or (r.pixel? x y) := by
  induction strokes generalizing r with
  | nil => simp
  | cons s rest ih =>
      obtain ⟨hsx, hsy⟩ := hs s List.mem_cons_self
      have hrest : (r.put s.x s.y s.color).Holds rest :=
        fun s' hs' => hs s' (List.mem_cons_of_mem _ hs')
      rw [paint_cons, if_pos (contains_of_lt hr hsx hsy),
        ih (full_put hr _ _ _) hrest hx hy, pixel?_put hr hsx hsy hx hy]
      by_cases h : s.x = x ∧ s.y = y
      · rw [if_pos h, Stroke.on_cons_of_pos h, List.getLast?_cons]
        cases (Stroke.on rest x y).getLast? <;> simp
      · rw [if_neg h, Stroke.on_cons_of_neg h]

/-- A pixel shows the colour of a stroke on it if all strokes on it agree. -/
theorem pixel?_paint_of_mem {r : Raster} (hr : r.Full) {strokes : List Stroke}
    (hs : r.Holds strokes) {x y : Nat} {c : Color} (hmem : ⟨x, y, c⟩ ∈ strokes)
    (hagree : ∀ t ∈ strokes, t.x = x → t.y = y → t.color = c) :
    (r.paint strokes).1.pixel? x y = some c := by
  have hon : Stroke.on strokes x y ≠ [] :=
    List.ne_nil_of_mem (Stroke.mem_on.2 ⟨hmem, rfl, rfl⟩)
  obtain ⟨last, hlast⟩ := Option.isSome_iff_exists.1 (List.getLast?_isSome.2 hon)
  obtain ⟨hin, hx, hy⟩ := Stroke.mem_on.1 (List.mem_of_getLast? hlast)
  rw [pixel?_paint hr hs (hs _ hmem).1 (hs _ hmem).2, hlast]
  simp [hagree last hin hx hy]

/-- A pixel without a stroke keeps its colour. -/
theorem pixel?_paint_of_forall_ne {r : Raster} (hr : r.Full) {strokes : List Stroke}
    (hs : r.Holds strokes) {x y : Nat} (hx : x < r.width) (hy : y < r.height)
    (hne : ∀ s ∈ strokes, ¬ (s.x = x ∧ s.y = y)) :
    (r.paint strokes).1.pixel? x y = r.pixel? x y := by
  have hon : Stroke.on strokes x y = [] := by
    simpa [Stroke.on, List.filter_eq_nil_iff] using hne
  rw [pixel?_paint hr hs hx hy, hon]
  simp

theorem holds_grid {r : Raster} {x y width height : Nat} (color : Nat → Nat → Color)
    (hx : x + width ≤ r.width) (hy : y + height ≤ r.height) :
    r.Holds (Stroke.grid x y width height color) := by
  intro s hs
  obtain ⟨i, hi, j, hj, rfl⟩ := Stroke.mem_grid.1 hs
  exact ⟨by show x + i < r.width; omega, by show y + j < r.height; omega⟩

theorem pixel?_paint_grid {r : Raster} (hr : r.Full) {x y width height : Nat}
    (color : Nat → Nat → Color) (hx : x + width ≤ r.width) (hy : y + height ≤ r.height)
    {a b : Nat} (ha : a < r.width) (hb : b < r.height) :
    (r.paint (Stroke.grid x y width height color)).1.pixel? a b =
      if x ≤ a ∧ a < x + width ∧ y ≤ b ∧ b < y + height then some (color (a - x) (b - y))
      else r.pixel? a b := by
  have hholds := holds_grid color hx hy
  split
  · next h =>
    have hmem : ⟨a, b, color (a - x) (b - y)⟩ ∈ Stroke.grid x y width height color := by
      refine Stroke.mem_grid.2 ⟨a - x, by omega, b - y, by omega, ?_⟩
      rw [Nat.add_sub_of_le h.1, Nat.add_sub_of_le h.2.2.1]
    refine pixel?_paint_of_mem hr hholds hmem ?_
    rintro t ht rfl rfl
    obtain ⟨i, -, j, -, rfl⟩ := Stroke.mem_grid.1 ht
    simp
  · next h =>
    refine pixel?_paint_of_forall_ne hr hholds ha hb ?_
    rintro s hs ⟨rfl, rfl⟩
    obtain ⟨i, hi, j, hj, rfl⟩ := Stroke.mem_grid.1 hs
    exact h ⟨by simp, by simpa using hi, by simp, by simpa using hj⟩

/-- The bytes of a pixel that exists. -/
theorem pixel?_eq_some_iff {r : Raster} {x y : Nat} {c : Color} :
    r.pixel? x y = some c ↔
      r.data[r.index x y]? = some c.r ∧ r.data[r.index x y + 1]? = some c.g ∧
        r.data[r.index x y + 2]? = some c.b := by
  cases c
  simp [pixel?, Option.bind_eq_some_iff]

theorem pixel?_isSome {r : Raster} {x y : Nat} (h : r.contains x y = true) :
    (r.pixel? x y).isSome := by
  simp only [contains, decide_eq_true_eq] at h
  have h0 : r.index x y < r.data.size := by omega
  have h1 : r.index x y + 1 < r.data.size := by omega
  have h2 : r.index x y + 2 < r.data.size := by omega
  simp [pixel?, h0, h1, h2]

/-- Every byte of a full raster belongs to a pixel. -/
theorem exists_index_add {r : Raster} (hr : r.Full) {i : Nat} (hi : i < r.data.size) :
    ∃ x < r.width, ∃ y < r.height, ∃ k < 3, i = r.index x y + k := by
  rw [hr.size_eq] at hi
  have hp : i / 3 < r.width * r.height := by omega
  have hw : 0 < r.width := Nat.pos_of_mul_pos_right (Nat.zero_lt_of_lt hp)
  have hx : i / 3 % r.width < r.width := Nat.mod_lt _ hw
  have hy : i / 3 / r.width < r.height := Nat.div_lt_of_lt_mul hp
  refine ⟨i / 3 % r.width, hx, i / 3 / r.width, hy, i % 3, Nat.mod_lt _ (by decide), ?_⟩
  rw [(index_of_le hr (Nat.le_of_lt hx) hy).1, Nat.div_add_mod' (i / 3)]
  omega

/-- Rasters of one size with the same pixels are the same. -/
theorem ext_pixel? {r s : Raster} (hr : r.Full) (hs : s.Full) (hwidth : r.width = s.width)
    (hheight : r.height = s.height)
    (hpixel : ∀ x < r.width, ∀ y < r.height, r.pixel? x y = s.pixel? x y) : r = s := by
  have hdata : r.data = s.data := by
    refine Array.ext_getElem? fun i => ?_
    have hsize : r.data.size = s.data.size := by
      rw [hr.size_eq, hs.size_eq, hwidth, hheight]
    by_cases hi : i < r.data.size
    -- the byte belongs to a pixel on which the rasters agree
    · obtain ⟨x, hx, y, hy, k, hk, rfl⟩ := exists_index_add hr hi
      obtain ⟨c, hc⟩ := Option.isSome_iff_exists.1 (pixel?_isSome (contains_of_lt hr hx hy))
      have hc' : s.pixel? x y = some c := by rw [← hpixel x hx y hy, hc]
      have hindex : s.index x y = r.index x y := by simp only [index, hwidth]
      obtain ⟨h0, h1, h2⟩ := pixel?_eq_some_iff.1 hc
      obtain ⟨h0', h1', h2'⟩ := pixel?_eq_some_iff.1 hc'
      rw [hindex] at h0' h1' h2'
      match k, hk with
      | 0, _ => rw [Nat.add_zero, h0, h0']
      | 1, _ => rw [h1, h1']
      | 2, _ => rw [h2, h2']
    · rw [Array.getElem?_eq_none (by omega), Array.getElem?_eq_none (by omega)]
  cases r
  cases s
  simp_all

end Raster

end TerrainMap
