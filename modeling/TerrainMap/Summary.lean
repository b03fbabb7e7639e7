import TerrainMap.Job

/-!
Totals over the results of jobs. Only jobs that wrote their tile contribute
their counts.
-/

namespace TerrainMap

abbrev JobResult := Except JobError TileReport

structure RunSummary where
  written : Nat := 0
  failed : Nat := 0
  absentChunks : Nat := 0
  emptyColumns : Nat := 0
  unknownBlocks : Nat := 0
  deriving DecidableEq, Repr

namespace RunSummary

/-- Takes up the result of one more job. -/
def add (s : RunSummary) (result : JobResult) : RunSummary :=
  match result with
  | .ok report =>
    { s with
      written := s.written + 1
      absentChunks := s.absentChunks + report.absentChunks
      emptyColumns := s.emptyColumns + report.emptyColumns
      unknownBlocks := s.unknownBlocks + report.unknownBlocks.size }
  | .error _ => { s with failed := s.failed + 1 }

def ofResults (results : List JobResult) : RunSummary := results.foldl add {}

def allSucceeded (s : RunSummary) : Bool := s.failed == 0

def display (s : RunSummary) : String :=
  "tiles written " ++ Nat.repr s.written ++ ", failed " ++ Nat.repr s.failed
    ++ ", absent chunks " ++ Nat.repr s.absentChunks ++ ", empty columns "
    ++ Nat.repr s.emptyColumns ++ ", unknown blocks " ++ Nat.repr s.unknownBlocks

end RunSummary

end TerrainMap
