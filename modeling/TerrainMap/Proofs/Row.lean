import Mathlib.Data.List.Induction
import TerrainMap.Row

/-!
What a row scan remembers. All that reaches a column from the columns before it
is the elevation of the nearest one that has a colour.
-/

namespace TerrainMap

def Column.coloured? (palette : Palette) : Column → Option Int
  | .empty => none
  | .block id elevation => if (palette.lookup id).isSome then some elevation else none

namespace RowScan

def after (palette : Palette) (row : RowScan) (columns : List Column) : RowScan :=
  columns.foldl (fun row column => (row.step column palette).1) row

@[simp] theorem after_nil (palette : Palette) (row : RowScan) : row.after palette [] = row := rfl

theorem after_append_singleton (palette : Palette) (row : RowScan) (columns : List Column)
    (column : Column) :
    row.after palette (columns ++ [column]) =
      ((row.after palette columns).step column palette).1 := by
  simp [after]

theorem step_previous (palette : Palette) (row : RowScan) (column : Column) :
    (row.step column palette).1.previous = (column.coloured? palette).or row.previous := by
  cases column with
  | empty => rfl
  | block id elevation => cases h : palette.lookup id <;> simp [step, Column.coloured?, h]

/-- The nearest coloured column decides, and without one the row goes on as it
began. -/
theorem after_previous (palette : Palette) (row : RowScan) (columns : List Column) :
    (row.after palette columns).previous =
      (columns.filterMap (Column.coloured? palette)).getLast?.or row.previous := by
  induction columns using List.reverseRecOn with
  | nil => simp
  | append_singleton columns column ih =>
      rw [after_append_singleton, step_previous, ih, List.filterMap_append]
      cases h : column.coloured? palette <;> simp [h]

end RowScan

end TerrainMap
