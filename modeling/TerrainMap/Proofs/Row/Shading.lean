import Mathlib.Order.ConditionallyCompleteLattice.Basic
import Mathlib.Data.Int.ConditionallyCompleteOrder
import TerrainMap.Proofs.Color
import TerrainMap.Proofs.Row

/-!
The colours of a row. A scan that is fed the columns of a row carries one number
from each to the next, the elevation of the last column that has a colour. So
the columns without one could as well be missing, and since elevations are only
compared, they could as well be others in the same order.
-/

namespace TerrainMap

/-- The elevations of the columns that have a colour, from left to right. -/
def Column.hits (palette : Palette) (columns : List Column) : List Int :=
  columns.filterMap (coloured? palette)

theorem Column.coloured?_eq_some_iff {palette : Palette} {column : Column} {elevation : Int} :
    column.coloured? palette = some elevation ↔
      ∃ id, column = .block id elevation ∧ (palette.lookup id).isSome := by
  cases column with
  | empty => simp [coloured?]
  | block id elevation' => simp [coloured?, and_comm]

/-- Moves the block of a column to another elevation. -/
def Column.relocate (f : Int → Int) : Column → Column
  | .block id elevation => .block id (f elevation)
  | .empty => .empty

/-- The entries of a list at which a mask of the same length is set. -/
def kept {α : Type} : (mask : List Bool) → (entries : List α) → List α
  | true :: mask, a :: entries => a :: kept mask entries
  | false :: mask, _ :: entries => kept mask entries
  | _, _ => []

/-- What a column contributes to the map after the columns `before` it. A block
that has a colour shows it, moved by the slope from the last of them that has
one. -/
inductive ColumnPixel.Follows (palette : Palette) (before : List Column) :
    Column → ColumnPixel → Prop
  | empty : Follows palette before .empty .empty
  | unknown {id : String} {elevation : Int} (hid : palette.lookup id = none) :
      Follows palette before (.block id elevation) (.unknown id)
  | shaded {id : String} {elevation delta : Int} {base c : Color}
      (hid : palette.lookup id = some base)
      (hdelta : delta = -30 ∨ delta = 0 ∨ delta = 30)
      (hslope : delta = relief (Column.hits palette before).getLast? elevation)
      (hmoved : base.IsMoved delta c)
      (hfirst : Column.hits palette before = [] → c = base) :
      Follows palette before (.block id elevation) (.shaded c)

namespace RowScan

variable {palette : Palette} {row : RowScan} {columns : List Column}

/-- What the columns contribute that are fed to a scan one after the other. -/
def pixels (palette : Palette) : RowScan → List Column → List ColumnPixel
  | _, [] => []
  | row, column :: columns =>
    (row.step column palette).2 :: pixels palette (row.step column palette).1 columns

theorem getElem?_pixels (palette : Palette) (row : RowScan) (columns : List Column) (i : Nat) :
    (pixels palette row columns)[i]? = columns[i]?.map fun column =>
      ((row.after palette (columns.take i)).step column palette).2 := by
  induction columns generalizing row i with
  | nil => simp [pixels]
  | cons column columns ih =>
      cases i with
      | zero => simp [pixels]
      | succ i =>
          rw [pixels, List.getElem?_cons_succ, ih, List.getElem?_cons_succ, List.take_succ_cons]
          rfl

theorem after_start_previous (palette : Palette) (columns : List Column) :
    (start.after palette columns).previous = (Column.hits palette columns).getLast? := by
  rw [after_previous, Column.hits, start, Option.or_none]

/-! ### Columns that are passed over -/

theorem step_of_passed {column : Column} (h : column.coloured? palette = none) (row : RowScan) :
    (row.step column palette).1 = row := by
  cases column with
  | empty => rfl
  | block id elevation =>
      have hid : palette.lookup id = none := by simpa [Column.coloured?] using h
      simp only [step, hid]

theorem pixels_kept {mask : List Bool} (hlength : mask.length = columns.length)
    (hpassed : ∀ column ∈ kept (mask.map not) columns, column.coloured? palette = none)
    (row : RowScan) :
    pixels palette row (kept mask columns) = kept mask (pixels palette row columns) := by
  induction columns generalizing row mask with
  | nil =>
      cases mask with
      | nil => rfl
      | cons keep mask => cases hlength
  | cons column columns ih =>
      cases mask with
      | nil => cases hlength
      | cons keep mask =>
          have hlength' : mask.length = columns.length := Nat.succ.inj hlength
          cases keep with
          | true => rw [kept, pixels, pixels, kept, ih hlength' hpassed]
          | false =>
              obtain ⟨hcolumn, hrest⟩ := List.forall_mem_cons.1 hpassed
              rw [kept, pixels, kept, ih hlength' hrest, step_of_passed hcolumn]

/-! ### Other elevations in the same order -/

section Order

variable {f : Int → Int} {heights : Set Int}

theorem shade_relocate (hf : StrictMonoOn f heights) {previous : Option Int} {elevation : Int}
    (hprevious : ∀ before ∈ previous, before ∈ heights) (helevation : elevation ∈ heights)
    (base : Color) :
    base.shade (previous.map f) (f elevation) = base.shade previous elevation := by
  cases previous with
  | none => rfl
  | some before =>
      have hbefore := hprevious before rfl
      simp only [Option.map_some, Color.shade, hf.lt_iff_lt hbefore helevation,
        hf.lt_iff_lt helevation hbefore]

theorem step_relocate (hf : StrictMonoOn f heights) {column : Column}
    (hrow : ∀ before ∈ row.previous, before ∈ heights)
    (hcolumn : ∀ id elevation, column = .block id elevation → elevation ∈ heights) :
    (⟨row.previous.map f⟩ : RowScan).step (column.relocate f) palette =
      (⟨(row.step column palette).1.previous.map f⟩, (row.step column palette).2) := by
  cases column with
  | empty => rfl
  | block id elevation =>
      simp only [Column.relocate, step]
      cases palette.lookup id with
      | none => rfl
      | some base => simp [shade_relocate hf hrow (hcolumn id elevation rfl)]

theorem pixels_relocate (hf : StrictMonoOn f heights)
    (hrow : ∀ before ∈ row.previous, before ∈ heights)
    (hcolumns : ∀ id elevation, .block id elevation ∈ columns → elevation ∈ heights) :
    pixels palette ⟨row.previous.map f⟩ (columns.map (Column.relocate f)) =
      pixels palette row columns := by
  induction columns generalizing row with
  | nil => rfl
  | cons column columns ih =>
      have hcolumn (id elevation) (h : column = .block id elevation) : elevation ∈ heights :=
        hcolumns id elevation (h ▸ List.mem_cons_self)
      have hnext : ∀ before ∈ (row.step column palette).1.previous, before ∈ heights := by
        intro before hbefore
        rw [step_previous, Option.mem_def, Option.or_eq_some_iff] at hbefore
        rcases hbefore with hhit | ⟨-, hold⟩
        · obtain ⟨id, hblock, -⟩ := Column.coloured?_eq_some_iff.1 hhit
          exact hcolumn id before hblock
        · exact hrow before hold
      rw [List.map_cons, pixels, pixels, step_relocate hf hrow hcolumn]
      simp only
      rw [ih hnext fun id elevation h => hcolumns id elevation (List.mem_cons_of_mem _ h)]

end Order

/-! ### The colours themselves -/

theorem follows_step (palette : Palette) (before : List Column) (column : Column) :
    ColumnPixel.Follows palette before column
      ((start.after palette before).step column palette).2 := by
  cases column with
  | empty => exact .empty
  | block id elevation =>
      simp only [step]
      cases hid : palette.lookup id with
      | none => exact .unknown hid
      | some base =>
          have hmoved := base.isMoved_shade (start.after palette before).previous elevation
          refine .shaded hid (relief_cases _ _) rfl ?_ fun hnone => ?_
          · rw [← after_start_previous]
            exact hmoved
          · rw [after_start_previous, hnone] at hmoved ⊢
            exact hmoved.eq_of_zero

/-- **The colours of a row follow the columns that have one.** A scan remembers
the elevation of the last of them. Whichever of the other columns are left out,
or put in, the pixels of those that stay are the same, and so are all pixels at
elevations in the same order. A colour is that of its block, with the same
number added to its three channels, and the first one of a row is not changed
at all. -/
theorem colours_follow_hits (palette : Palette) (columns : List Column) :
    (∀ n ≤ columns.length, (start.after palette (columns.take n)).previous =
      (Column.hits palette (columns.take n)).getLast?) ∧
      (∀ mask : List Bool, mask.length = columns.length →
        (∀ column ∈ kept (mask.map not) columns, column.coloured? palette = none) →
        pixels palette start (kept mask columns) = kept mask (pixels palette start columns)) ∧
      (∀ f : Int → Int, StrictMonoOn f {elevation | ∃ id, .block id elevation ∈ columns} →
        pixels palette start (columns.map (Column.relocate f)) = pixels palette start columns) ∧
      ∀ i column, columns[i]? = some column →
        ∃ pixel, (pixels palette start columns)[i]? = some pixel ∧
          ColumnPixel.Follows palette (columns.take i) column pixel := by
  refine ⟨fun n _ => after_start_previous palette _, fun mask hlength hpassed => ?_,
    fun f hf => ?_, fun i column hcolumn => ?_⟩
  · exact pixels_kept hlength hpassed start
  · have hrow : ∀ before ∈ start.previous, ∃ id, .block id before ∈ columns := by simp [start]
    exact pixels_relocate hf hrow fun id elevation h => ⟨id, h⟩
  · refine ⟨_, ?_, follows_step palette (columns.take i) column⟩
    rw [getElem?_pixels, hcolumn, Option.map_some]

/-- A step, a gap, a block without a colour, a higher step and a lower one. -/
def terrace : List Column :=
  [.block "stone" 20, .empty, .block "mystery" 90, .block "stone" 25, .block "stone" 5]

/-- Three times as high, or without the two columns in its middle, the terrace
has the same colours, and the higher step is light. -/
theorem terrace_colours :
    (∀ column ∈ kept [false, true, true, false, false] terrace,
      column.coloured? (Palette.ofList [("stone", ⟨100, 0, 240⟩)]) = none) ∧
    StrictMonoOn (3 * · : Int → Int) {elevation | ∃ id, .block id elevation ∈ terrace} ∧
    (start.after (Palette.ofList [("stone", ⟨100, 0, 240⟩)]) (terrace.take 3)).previous =
      some 20 ∧
    pixels (Palette.ofList [("stone", ⟨100, 0, 240⟩)]) start
        [.block "stone" 20, .block "stone" 25, .block "stone" 5] =
      kept [true, false, false, true, true]
        (pixels (Palette.ofList [("stone", ⟨100, 0, 240⟩)]) start terrace) ∧
    pixels (Palette.ofList [("stone", ⟨100, 0, 240⟩)]) start
        (terrace.map (Column.relocate (3 * ·))) =
      pixels (Palette.ofList [("stone", ⟨100, 0, 240⟩)]) start terrace ∧
    (pixels (Palette.ofList [("stone", ⟨100, 0, 240⟩)]) start terrace)[3]? =
      some (.shaded ⟨130, 30, 255⟩) := by
  have hstone : (Palette.ofList [("stone", ⟨100, 0, 240⟩)]).lookup "stone" =
      some ⟨100, 0, 240⟩ := by
    simp [Palette.ofList, Palette.insertAll, Palette.insert, Palette.lookup]
  have hmystery : (Palette.ofList [("stone", ⟨100, 0, 240⟩)]).lookup "mystery" = none := by
    have hname : Block.normalize "stone" ≠ Block.normalize "mystery" := by decide
    simp [Palette.ofList, Palette.insertAll, Palette.insert, Palette.lookup, Palette.empty,
      hname]
  have hpassed : ∀ column ∈ kept [false, true, true, false, false] terrace,
      column.coloured? (Palette.ofList [("stone", ⟨100, 0, 240⟩)]) = none := by
    simp [kept, terrace, Column.coloured?, hmystery]
  have hmono : StrictMonoOn (3 * · : Int → Int)
      {elevation | ∃ id, .block id elevation ∈ terrace} := by
    intro a _ b _ hab
    show 3 * a < 3 * b
    omega
  have hhits : Column.hits (Palette.ofList [("stone", ⟨100, 0, 240⟩)]) (terrace.take 3) = [20] := by
    simp [terrace, Column.hits, Column.coloured?, hstone, hmystery]
  obtain ⟨hprevious, hkept, horder, hcolour⟩ :=
    colours_follow_hits (Palette.ofList [("stone", ⟨100, 0, 240⟩)]) terrace
  refine ⟨hpassed, hmono, ?_, ?_, horder _ hmono, ?_⟩
  · rw [hprevious 3 (by decide), hhits]
    rfl
  · exact hkept [true, false, false, true, true] rfl hpassed
  · obtain ⟨pixel, hpixel, hfollows⟩ := hcolour 3 (.block "stone" 25) rfl
    rw [hpixel]
    cases hfollows with
    | unknown hid => simp [hstone] at hid
    | shaded hid _ hslope hmoved _ =>
        obtain rfl := Option.some.inj (hstone.symm.trans hid)
        rw [hhits] at hslope
        subst hslope
        have hlight : Color.IsMoved ⟨100, 0, 240⟩ 30 ⟨130, 30, 255⟩ := by decide
        rw [Color.IsMoved.unique hmoved hlight]

end RowScan

end TerrainMap
