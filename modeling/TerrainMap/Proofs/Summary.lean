import Mathlib.Algebra.BigOperators.Group.List.Basic
import Mathlib.Algebra.GroupWithZero.Nat
import TerrainMap.Summary

/-!
Summaries as sums. Summaries are added number by number, every result has a
share of its own in a summary, and a list of results sums up to the shares of
its members. So neither the order of the results nor the way they come in
parts shows in their summary.
-/

namespace TerrainMap

/-- The reports of the jobs that wrote their tile. -/
def reports (results : List JobResult) : List TileReport := results.filterMap Except.toOption

@[simp] theorem reports_cons_ok (report : TileReport) (results : List JobResult) :
    reports (.ok report :: results) = report :: reports results := rfl

@[simp] theorem reports_cons_error (cause : JobError) (results : List JobResult) :
    reports (.error cause :: results) = reports results := rfl

namespace RunSummary

theorem ext {s t : RunSummary} (hwritten : s.written = t.written) (hfailed : s.failed = t.failed)
    (habsent : s.absentChunks = t.absentChunks) (hempty : s.emptyColumns = t.emptyColumns)
    (hunknown : s.unknownBlocks = t.unknownBlocks) : s = t := by
  cases s
  cases t
  simp_all

instance : Add RunSummary where
  add s t := ⟨s.written + t.written, s.failed + t.failed, s.absentChunks + t.absentChunks,
    s.emptyColumns + t.emptyColumns, s.unknownBlocks + t.unknownBlocks⟩

instance : Zero RunSummary where
  zero := {}

section Numbers

variable (s t : RunSummary)

@[simp] theorem written_add : (s + t).written = s.written + t.written := rfl
@[simp] theorem failed_add : (s + t).failed = s.failed + t.failed := rfl
@[simp] theorem absentChunks_add : (s + t).absentChunks = s.absentChunks + t.absentChunks := rfl
@[simp] theorem emptyColumns_add : (s + t).emptyColumns = s.emptyColumns + t.emptyColumns := rfl
@[simp] theorem unknownBlocks_add : (s + t).unknownBlocks = s.unknownBlocks + t.unknownBlocks := rfl

@[simp] theorem written_zero : (0 : RunSummary).written = 0 := rfl
@[simp] theorem failed_zero : (0 : RunSummary).failed = 0 := rfl
@[simp] theorem absentChunks_zero : (0 : RunSummary).absentChunks = 0 := rfl
@[simp] theorem emptyColumns_zero : (0 : RunSummary).emptyColumns = 0 := rfl
@[simp] theorem unknownBlocks_zero : (0 : RunSummary).unknownBlocks = 0 := rfl

end Numbers

instance : AddCommMonoid RunSummary where
  add_assoc s t u := by apply ext <;> simp [Nat.add_assoc]
  zero_add s := by apply ext <;> simp
  add_zero s := by apply ext <;> simp
  add_comm s t := by apply ext <;> simp [Nat.add_comm]
  nsmul := nsmulRec

/-- What a single result adds to a summary. -/
def share (result : JobResult) : RunSummary := add 0 result

theorem add_eq (s : RunSummary) (result : JobResult) : s.add result = s + share result := by
  cases result with
  | ok report => apply ext <;> simp [add, share]
  | error cause => apply ext <;> simp [add, share]

theorem foldl_add (results : List JobResult) (s : RunSummary) :
    results.foldl add s = s + (results.map share).sum := by
  induction results generalizing s with
  | nil => simp
  | cons result results ih => rw [List.foldl_cons, ih, add_eq, List.map_cons, List.sum_cons,
      add_assoc]

theorem ofResults_eq_sum (results : List JobResult) :
    ofResults results = (results.map share).sum :=
  (foldl_add results 0).trans (zero_add _)

theorem ofResults_cons (result : JobResult) (results : List JobResult) :
    ofResults (result :: results) = share result + ofResults results := by
  simp only [ofResults_eq_sum, List.map_cons, List.sum_cons]

theorem ofResults_append (results results' : List JobResult) :
    ofResults (results ++ results') = ofResults results + ofResults results' := by
  simp only [ofResults_eq_sum, List.map_append, List.sum_append]

theorem ofResults_perm {results results' : List JobResult} (h : results.Perm results') :
    ofResults results = ofResults results' := by
  rw [ofResults_eq_sum, ofResults_eq_sum, (h.map share).sum_eq]

/-- A failed job adds to the number of failed jobs and to nothing else. -/
theorem ofResults_eq (results : List JobResult) :
    ofResults results =
      { written := (reports results).length
        failed := (results.filter fun result => !result.isOk).length
        absentChunks := ((reports results).map (·.absentChunks)).sum
        emptyColumns := ((reports results).map (·.emptyColumns)).sum
        unknownBlocks := ((reports results).map (·.unknownBlocks.size)).sum } := by
  induction results with
  | nil => rfl
  | cons result results ih =>
      rw [ofResults_cons, ih]
      cases result with
      | ok report =>
          apply ext <;> simp [share, add, Except.isOk, Except.toBool, Nat.add_comm]
      | error cause =>
          apply ext <;> simp [share, add, Except.isOk, Except.toBool, Nat.add_comm]

theorem written_add_failed (results : List JobResult) :
    (ofResults results).written + (ofResults results).failed = results.length := by
  induction results with
  | nil => rfl
  | cons result results ih =>
      rw [ofResults_cons, List.length_cons, ← ih]
      cases result with
      | ok report => simp [share, add]; omega
      | error cause => simp [share, add]; omega

theorem allSucceeded_iff (results : List JobResult) :
    (ofResults results).allSucceeded = true ↔ ∀ result ∈ results, result.isOk = true := by
  rw [ofResults_eq]
  simp [allSucceeded]

end RunSummary

end TerrainMap
