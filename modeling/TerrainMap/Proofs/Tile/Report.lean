import TerrainMap.Proofs.Tile.Render

/-!
What the report of a tile counts: each of its numbers is the number of events
of one kind, and its unknown blocks are listed in the order of the events.
-/

namespace TerrainMap

namespace Tile.Event

def isAbsent : Event → Bool
  | absent _ => true
  | _ => false

def isEmpty : Event → Bool
  | column _ _ _ .empty => true
  | _ => false

def isFinished : Event → Bool
  | finished => true
  | _ => false

def tally (events : List Event) : TileReport where
  renderedChunks := events.countP isFinished
  absentChunks := events.countP isAbsent
  emptyColumns := events.countP isEmpty
  unknownBlocks := (events.filterMap unknown?).toArray

theorem tally_append_singleton (events : List Event) (event : Event) :
    tally (events ++ [event]) = event.count (tally events) := by
  match event with
  | absent _ => simp [tally, count, isFinished, isAbsent, isEmpty, unknown?]
  | column _ _ _ (.shaded _) => simp [tally, count, isFinished, isAbsent, isEmpty, unknown?]
  | column _ _ _ .empty => simp [tally, count, isFinished, isAbsent, isEmpty, unknown?]
  | column _ _ _ (.unknown _) => simp [tally, count, isFinished, isAbsent, isEmpty, unknown?]
  | finished => simp [tally, count, isFinished, isAbsent, isEmpty, unknown?]

/-- Counting event by event leaves the tally. -/
theorem foldl_count (events : List Event) : events.foldl count {} = tally events := by
  induction events using List.reverseRecOn with
  | nil => rfl
  | append_singleton events event ih =>
      rw [List.foldl_append, ih, tally_append_singleton]
      rfl

end Tile.Event

theorem Tile.finalCanvas_report (region : RegionHandle) (palette : Palette) (tile : TileSpec)
    (policy : ScanPolicy) :
    (finalCanvas region palette tile policy).report =
      Event.tally (events region palette tile policy) :=
  Event.foldl_count _

end TerrainMap
