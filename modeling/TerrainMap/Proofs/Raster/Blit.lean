import TerrainMap.Proofs.Raster.Strokes

/-!
Copying one raster into another. A copy moves the bytes of a whole row at a
time; what it comes to is a stroke for every pixel of the source.
-/

namespace TerrainMap.Raster

def colorAt (bytes : Array UInt8) (start : Nat) : Color :=
  ⟨bytes.getD start 0, bytes.getD (start + 1) 0, bytes.getD (start + 2) 0⟩

theorem pixel?_eq_colorAt {r : Raster} {x y : Nat} (h : r.contains x y = true) :
    r.pixel? x y = some (colorAt r.data (r.index x y)) := by
  obtain ⟨c, hc⟩ := Option.isSome_iff_exists.1 (pixel?_isSome h)
  obtain ⟨h0, h1, h2⟩ := pixel?_eq_some_iff.1 hc
  rw [hc]
  simp [colorAt, Array.getD_eq_getD_getElem?, h0, h1, h2]

/-- The strokes that copy a raster, with the top left corner at `x`, `y`. -/
def copyStrokes (source : Raster) (x y : Nat) : List Stroke :=
  Stroke.grid x y source.width source.height fun i j => colorAt source.data (source.index i j)

/-- The pixels of a row lie behind each other, as far as the buffer goes. -/
theorem index_succ {r : Raster} {x y : Nat} (h : r.index x y + 3 < Word.count) :
    r.index (x + 1) y = r.index x y + 3 := by
  have hsum : (y * r.width + (x + 1)) * 3 = (y * r.width + x) * 3 + 3 := by omega
  have hplace := index_eq_mod r x y
  have hnext := index_eq_mod r (x + 1) y
  rw [hsum] at hnext
  rw [Word.count] at *
  omega

theorem index_add_row (r : Raster) (x y row : Nat) :
    r.index x (Word.add y row) = r.index x (y + row) := by
  have hrow : Word.mul (Word.add y row) r.width = Word.mul (y + row) r.width :=
    Nat.mod_mul_mod _ _ _
  rw [index, index, hrow]

theorem copyBytes_eq_paint (r : Raster) (hr : r.data.size ≤ maxBytes) (bytes : Array UInt8)
    (start x y count : Nat) (h : r.index x y + count * 3 ≤ r.data.size) :
    r.paint (Stroke.row x y count fun i => colorAt bytes (start + i * 3)) =
      ({ r with data := copyBytes bytes start (r.index x y) r.data (count * 3) }, true) := by
  induction count generalizing r start x with
  | zero => simp [Stroke.row, copyBytes]
  | succ count ih =>
      have hnext : r.index (x + 1) y = r.index x y + 3 :=
        index_succ (Nat.lt_of_le_of_lt (by omega : r.index x y + 3 ≤ maxBytes) (by decide))
      have hcontains : r.contains x y = true := by
        simp only [contains, decide_eq_true_eq]
        omega
      have hrest := ih (r.put x y (colorAt bytes start)) (by rwa [put_size]) (start + 3) (x + 1) (by
        simp only [put_index, put_size, hnext]
        omega)
      have hcolors : (fun i => colorAt bytes (start + (i + 1) * 3)) =
          fun i => colorAt bytes (start + 3 + i * 3) := by
        funext i
        congr 1
        omega
      rw [Stroke.row_succ, paint_cons, if_pos hcontains]
      simp only [Nat.zero_mul, Nat.add_zero]
      rw [hcolors, hrest, put_index, hnext, Nat.add_mul]
      rfl

/-- Where a row of the source begins, how long it is, and that it is there. -/
theorem rowBytes_of_lt {source : Raster} (hs : source.Full) {row : Nat}
    (hrow : row < source.height) :
    Word.mul source.width 3 = source.width * 3 ∧
      Word.mul row (source.width * 3) = row * (source.width * 3) ∧
      row * (source.width * 3) + source.width * 3 ≤ source.data.size ∧
      ∀ i < source.width, source.index i row = row * (source.width * 3) + i * 3 := by
  obtain ⟨-, hend⟩ := index_of_le hs (Nat.le_refl source.width) hrow
  have hassoc : row * (source.width * 3) = row * source.width * 3 := (Nat.mul_assoc ..).symm
  have hword : source.data.size < Word.count := Nat.lt_of_le_of_lt hs.size_le (by decide)
  refine ⟨Word.mul_of_lt (by omega), Word.mul_of_lt (by omega), by omega, fun i hi => ?_⟩
  rw [(index_of_le hs (Nat.le_of_lt hi) hrow).1, hassoc, Nat.add_mul]

theorem blitRows_eq_paint {r source : Raster} (hr : r.Full) (hs : source.Full)
    {row x y count : Nat} (hrows : row + count ≤ source.height)
    (h : (r.blitRows source row x y count).2 = true) :
    r.blitRows source row x y count =
      r.paint (Stroke.grid x (y + row) source.width count fun i j =>
        colorAt source.data (source.index i (row + j))) := by
  induction count generalizing r row with
  | zero => rfl
  | succ count ih =>
      obtain ⟨hlength, hstart, -, hindex⟩ := rowBytes_of_lt hs (by omega : row < source.height)
      rw [blitRows, hlength, hstart, index_add_row] at h ⊢
      split at h
      · next hfits =>
        have hrow := copyBytes_eq_paint r hr.size_le source.data (row * (source.width * 3)) x
          (y + row) source.width hfits.1
        have hcolors : Stroke.row x (y + row) source.width (fun i =>
              colorAt source.data (source.index i (row + 0))) =
            Stroke.row x (y + row) source.width fun i =>
              colorAt source.data (row * (source.width * 3) + i * 3) :=
          Stroke.row_congr fun i hi => by rw [Nat.add_zero, hindex i hi]
        have hfull := full_paint hr (Stroke.row x (y + row) source.width fun i =>
          colorAt source.data (row * (source.width * 3) + i * 3))
        rw [hrow] at hfull
        rw [if_pos hfits, ih hfull (by omega) h, Stroke.grid_succ, paint_append, hcolors, hrow]
        simp only [if_true, Nat.add_assoc, Nat.add_comm 1]
      · cases h

/-- Copying a raster comes to a stroke for each of its pixels, wherever the
copy can be made at all. -/
theorem blit_eq_paint {r source : Raster} (hr : r.Full) (hs : source.Full) {x y : Nat}
    (h : (r.blit source x y).2 = true) :
    r.blit source x y = r.paint (source.copyStrokes x y) := by
  have := blitRows_eq_paint hr hs (Nat.le_of_eq (Nat.zero_add source.height)) h
  simpa [blit, copyStrokes] using this

theorem blitRows_complete {r source : Raster} (hr : r.Full) (hs : source.Full)
    {row x y count : Nat} (hrows : row + count ≤ source.height)
    (hx : x + source.width ≤ r.width) (hy : y + row + count ≤ r.height) :
    (r.blitRows source row x y count).2 = true := by
  induction count generalizing r row with
  | zero => rfl
  | succ count ih =>
      obtain ⟨hlength, hstart, hthere, -⟩ := rowBytes_of_lt hs (by omega : row < source.height)
      have hfits := index_add_le hr hx (y := y + row) (by omega)
      have hpaint := copyBytes_eq_paint r hr.size_le source.data (row * (source.width * 3)) x
        (y + row) source.width hfits
      have hfull := full_paint hr (Stroke.row x (y + row) source.width fun i =>
        colorAt source.data (row * (source.width * 3) + i * 3))
      rw [hpaint] at hfull
      rw [blitRows, hlength, hstart, index_add_row]
      simp only [hfits, hthere, and_self, if_true]
      exact ih hfull (by omega) hx (by show y + (row + 1) + count ≤ r.height; omega)

/-- A raster copied to a place where it fits: inside that place the pixels are
those of the source, and all others stay. -/
theorem pixel?_blit {r source : Raster} (hr : r.Full) (hs : source.Full) {x y : Nat}
    (hx : x + source.width ≤ r.width) (hy : y + source.height ≤ r.height) {a b : Nat}
    (ha : a < r.width) (hb : b < r.height) :
    (r.blit source x y).1.pixel? a b =
      if x ≤ a ∧ a < x + source.width ∧ y ≤ b ∧ b < y + source.height then
        source.pixel? (a - x) (b - y)
      else r.pixel? a b := by
  have hcomplete : (r.blit source x y).2 = true :=
    blitRows_complete hr hs (Nat.le_of_eq (Nat.zero_add _)) hx (by omega)
  rw [blit_eq_paint hr hs hcomplete, copyStrokes, pixel?_paint_grid hr _ hx hy ha hb]
  split
  · next h =>
    have hcontains := contains_of_lt hs (x := a - x) (y := b - y) (by omega) (by omega)
    rw [pixel?_eq_colorAt hcontains]
  · rfl

end TerrainMap.Raster
