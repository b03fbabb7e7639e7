import TerrainMap.Summary

/-!
Runs of many jobs. Every listed region gives four jobs, one for each quadrant.
No job affects another: one that fails or crashes is recorded as its own
outcome, and the outcomes are handed back in the order of their quadrants.
-/

namespace TerrainMap

structure JobOutcome where
  quadrant : Quadrant
  output : Path
  result : JobResult

/-- The outcomes of a run, what its jobs logged, and the state of the sink. -/
structure ScheduleRun (σ : Type) where
  outcomes : List JobOutcome
  log : Array LogLine
  sinkState : σ

/-- Works off the jobs of a run with a number of workers. -/
structure Scheduler where
  workers : Nat
  policy : ScanPolicy
  deriving DecidableEq, Repr

namespace Scheduler

variable {σ : Type}

/-- At least one worker is kept, however few were asked for. -/
def ofWorkers (workers : Nat) : Scheduler := ⟨max workers 1, .overworld⟩

/-- Starts the threads of a scheduler, or tells why the host has none for it. -/
def start (host : Host) (workers : Nat) : Except String Scheduler :=
  match host.threadFault? (max workers 1) with
  | some detail => .error detail
  | none => .ok (ofWorkers workers)

def withPolicy (s : Scheduler) (policy : ScanPolicy) : Scheduler := { s with policy := policy }

/-- The jobs of a run in the order they are taken up. -/
def jobs (regions : List RegionCoord) : List Quadrant := regions.flatMap Quadrant.all

def outputPath (directory : Path) (q : Quadrant) : Path := directory.join ⟨q.outputName⟩

/-- The result under which an attempt is recorded. -/
def contain : Attempt JobError TileReport → JobResult
  | .ok report => .ok report
  | .error (.failure cause) => .error cause
  | .error .crash => .error .crashed

def outcomeLine (outcome : JobOutcome) : LogLine :=
  match outcome.result with
  | .ok report =>
    ⟨.info, "[" ++ outcome.quadrant.display ++ "] wrote " ++ outcome.output.text ++ " ("
      ++ Nat.repr report.absentChunks ++ " absent chunk(s), "
      ++ Nat.repr report.unknownBlocks.size ++ " unknown block(s))"⟩
  | .error cause => ⟨.error, "[" ++ outcome.quadrant.display ++ "] failed: " ++ cause.message⟩

/-- Runs the job of one quadrant behind the jobs that ran before. -/
def runJob (shop : Workshop σ) (directory : Path) (run : ScheduleRun σ) (q : Quadrant) :
    ScheduleRun σ :=
  let output := outputPath directory q
  match shop.renderQuadrant q output run.sinkState with
  | ⟨result, log, state⟩ =>
    let outcome : JobOutcome := ⟨q, output, contain result⟩
    ⟨outcome :: run.outcomes, run.log ++ log |>.push (outcomeLine outcome), state⟩

/-- Runs jobs that find their workshop in what the jobs before them left. -/
def runJobsAt (shopAt : σ → Workshop σ) (directory : Path) (quadrants : List Quadrant)
    (state : σ) : ScheduleRun σ :=
  quadrants.foldl (fun run q => runJob (shopAt run.sinkState) directory run q) ⟨[], #[], state⟩

def runJobs (shop : Workshop σ) (directory : Path) (quadrants : List Quadrant) (state : σ) :
    ScheduleRun σ :=
  runJobsAt (fun _ => shop) directory quadrants state

/-- Renders the quadrants of every listed region into a directory. The world is
the one that the sink's state shows when a job begins. -/
def runAt (s : Scheduler) (worldAt : σ → WorldStore) (palette : Palette) (sink : Sink σ)
    (regions : List RegionCoord) (directory : Path) (state : σ) : ScheduleRun σ :=
  let shopAt (state : σ) : Workshop σ := ⟨worldAt state, palette, sink, s.policy⟩
  let done := runJobsAt shopAt directory (jobs regions) state
  { done with
    outcomes := done.outcomes.reverse.mergeSort fun a b => a.quadrant.le b.quadrant }

/-- Renders the quadrants of every listed region of a world that stays as it is. -/
def run (s : Scheduler) (world : WorldStore) (palette : Palette) (sink : Sink σ)
    (regions : List RegionCoord) (directory : Path) (state : σ) : ScheduleRun σ :=
  s.runAt (fun _ => world) palette sink regions directory state

end Scheduler

end TerrainMap
