import TerrainMap.Column
import TerrainMap.Palette

/-!
Rows of columns, coloured from left to right. The slope that shades a pixel
leads to it from the last column of the row that has a colour; empty columns
and blocks without a colour in between are passed over.
-/

namespace TerrainMap

/-- What one column contributes to the map. -/
inductive ColumnPixel where
  | shaded (color : Color)
  | empty
  | unknown (id : String)
  deriving DecidableEq, Repr

def ColumnPixel.color : ColumnPixel → Color
  | shaded c => c
  | empty => Color.blank
  | unknown _ => Color.blank

/-- The elevation of the last coloured column of the row, if there is one. -/
structure RowScan where
  previous : Option Int
  deriving DecidableEq, Repr

namespace RowScan

def start : RowScan := ⟨none⟩

def step (row : RowScan) (column : Column) (palette : Palette) : RowScan × ColumnPixel :=
  match column with
  | .empty => (row, .empty)
  | .block id elevation =>
    match palette.lookup id with
    | some base => (⟨some elevation⟩, .shaded (base.shade row.previous elevation))
    | none => (row, .unknown id)

end RowScan

end TerrainMap
