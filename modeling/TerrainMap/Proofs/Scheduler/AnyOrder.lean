import Mathlib.Data.List.Induction
import TerrainMap.Proofs.Scheduler.Alone
import TerrainMap.Proofs.Scheduler.Jobs

/-!
Runs in front of a steady sink come to the same end in any order.

The invariant of a run is that the jobs on the floor are the jobs of the run,
that every known outcome is the outcome of its quadrant alone, and that the
list of accepted tiles is, but for its order, what the jobs that ended would
each have handed over alone. Sorting takes out what is left of the order, for
outcomes of the same quadrant are equal.
-/

namespace TerrainMap.Scheduler

variable {σ : Type}

/-- What a job hands over when it has the sink to itself. -/
def aloneTiles (shop : Workshop σ) (directory : Path) (state : σ) (q : Quadrant) :
    List (Path × Raster) :=
  (stateAfter shop.recorded directory (state, []) q).2

section Alone

variable {shop : Workshop σ} (hs : shop.sink.Steady) (directory : Path)
include hs

theorem outcomeFrom_recorded (state state' : σ) (kept : List (Path × Raster)) (q : Quadrant) :
    outcomeFrom shop.recorded directory (state, kept) q =
      outcomeFrom shop directory state' q := by
  simp only [outcomeFrom, Workshop.renderQuadrant]
  rw [Workshop.result_recorded hs]

theorem stateAfter_recorded (state state' : σ) (kept : List (Path × Raster)) (q : Quadrant) :
    (stateAfter shop.recorded directory (state, kept) q).2 =
      kept ++ aloneTiles shop directory state' q :=
  Workshop.kept_recorded hs q.region q.tile (outputPath directory q) state state' kept

end Alone

/-- What holds of a run at every moment. -/
structure Consistent (shop : Workshop σ) (directory : Path) (state : σ)
    (quadrants : List Quadrant) (f : Floor (σ × List (Path × Raster))) : Prop where
  jobs : (f.pending ++ f.running ++ f.ended.map (·.quadrant)).Perm quadrants
  outcome : ∀ o ∈ f.ended, o = outcomeFrom shop directory state o.quadrant
  accepted : f.sinkState.2.Perm
    (f.ended.flatMap fun o => aloneTiles shop directory state o.quadrant)

section Invariant

variable {shop : Workshop σ} {directory : Path} {state : σ} {workers : Nat}
  {quadrants : List Quadrant} {f g : Floor (σ × List (Path × Raster))}

theorem consistent_opening (shop : Workshop σ) (directory : Path) (state : σ)
    (regions : List RegionCoord) :
    Consistent shop directory state (jobs regions) (Floor.opening regions (state, [])) := by
  refine ⟨?_, ?_, ?_⟩
  · simp [Floor.opening, Floor.ended]
  · simp [Floor.opening, Floor.ended]
  · simp [Floor.opening, Floor.ended]

theorem Consistent.step (hs : shop.sink.Steady)
    (hf : Consistent shop directory state quadrants f)
    (hstep : Step shop.recorded directory workers f g) :
    Consistent shop directory state quadrants g := by
  obtain ⟨hjobs, houtcome, haccepted⟩ := hf
  obtain ⟨hwaiting, hended, hsink⟩ | ⟨q, hwaiting, hended, hsink⟩ := hstep.moves
  · refine ⟨?_, ?_, ?_⟩
    · exact (hwaiting.append (hended.map _)).trans hjobs
    · intro o ho
      exact houtcome o (hended.subset ho)
    · rw [hsink]
      exact haccepted.trans (hended.symm.flatMap_right _)
  · -- the job ends as it ends alone
    have hq : outcomeFrom shop.recorded directory f.sinkState q =
        outcomeFrom shop directory state q := outcomeFrom_recorded hs directory _ state _ q
    rw [hq] at hended
    refine ⟨?_, ?_, ?_⟩
    · rw [hended]
      exact (List.perm_middle.trans (hwaiting.symm.append_right _)).trans hjobs
    · rw [hended]
      intro o ho
      rcases List.mem_cons.mp ho with rfl | ho
      · rfl
      · exact houtcome o ho
    · rw [hsink, hended]
      have hkept : (stateAfter shop.recorded directory f.sinkState q).2 =
          f.sinkState.2 ++ aloneTiles shop directory state q :=
        stateAfter_recorded hs directory _ state _ q
      rw [hkept]
      exact (haccepted.append_right _).trans List.perm_append_comm

theorem Consistent.reaches (hs : shop.sink.Steady)
    (hf : Consistent shop directory state quadrants f)
    (hreach : Reaches shop.recorded directory workers f g) :
    Consistent shop directory state quadrants g := by
  induction hreach with
  | refl => exact hf
  | tail _ hstep ih => exact ih.step hs hstep

end Invariant

section Collecting

variable {shop : Workshop σ} {directory : Path} {state : σ} {quadrants : List Quadrant}

/-- Outcomes that are those of the jobs alone are sorted by sorting the jobs. -/
theorem mergeSort_outcomes {outcomes : List JobOutcome}
    (hjobs : (outcomes.map (·.quadrant)).Perm quadrants)
    (halone : ∀ o ∈ outcomes, o = outcomeFrom shop directory state o.quadrant) :
    (outcomes.mergeSort fun a b => a.quadrant.le b.quadrant) =
      (quadrants.mergeSort Quadrant.le).map (outcomeFrom shop directory state) := by
  have houtcomes :
      outcomes = (outcomes.map (·.quadrant)).map (outcomeFrom shop directory state) := by
    rw [List.map_map]
    conv_lhs => rw [← List.map_id outcomes]
    exact List.map_congr_left fun o ho => halone o ho
  -- the order of outcomes is that of their quadrants
  rw [← Quadrant.mergeSort_eq_of_perm hjobs,
    List.map_mergeSort (s := fun a b => a.quadrant.le b.quadrant)]
  · rw [← houtcomes]
  · intro a _ b _
    rfl

/-- On a floor that is done, everything that is known of a run is in the
channel. -/
theorem Consistent.collected_eq {f : Floor (σ × List (Path × Raster))}
    (hf : Consistent shop directory state quadrants f) (hdone : f.IsDone) :
    f.collected = (quadrants.mergeSort Quadrant.le).map (outcomeFrom shop directory state) := by
  obtain ⟨hjobs, houtcome, -⟩ := hf
  obtain ⟨hpending, hrunning, hreporting⟩ := hdone
  simp only [Floor.ended, hpending, hrunning, hreporting, List.nil_append] at hjobs houtcome
  exact mergeSort_outcomes hjobs houtcome

theorem Consistent.accepted_perm {f : Floor (σ × List (Path × Raster))}
    (hf : Consistent shop directory state quadrants f) (hdone : f.IsDone) :
    f.sinkState.2.Perm (quadrants.flatMap (aloneTiles shop directory state)) := by
  obtain ⟨hjobs, -, haccepted⟩ := hf
  obtain ⟨hpending, hrunning, hreporting⟩ := hdone
  simp only [Floor.ended, hpending, hrunning, hreporting, List.nil_append] at hjobs haccepted
  have hflat := hjobs.flatMap_right (aloneTiles shop directory state)
  rw [List.flatMap_map] at hflat
  exact haccepted.trans hflat

end Collecting

section Sequence

variable {directory : Path}

/-- Jobs that run one after the other, and end alike whatever the state of the
sink, end as they end alone. -/
theorem runJobs_outcomes {shop : Workshop σ} {alone : Quadrant → JobOutcome}
    (halone : ∀ state q, outcomeFrom shop directory state q = alone q) (state : σ)
    (quadrants : List Quadrant) :
    (runJobs shop directory quadrants state).outcomes.reverse = quadrants.map alone := by
  induction quadrants using List.reverseRecOn with
  | nil => rfl
  | append_singleton before q ih =>
      rw [(runJobs_append_singleton shop directory before q state).1, halone, List.reverse_cons,
        ih, List.map_append, List.map_singleton]

theorem runJobs_kept {shop : Workshop σ} (hs : shop.sink.Steady) (state : σ)
    (quadrants : List Quadrant) :
    (runJobs shop.recorded directory quadrants (state, [])).sinkState.2 =
      quadrants.flatMap (aloneTiles shop directory state) := by
  induction quadrants using List.reverseRecOn with
  | nil => rfl
  | append_singleton before q ih =>
      rw [(runJobs_append_singleton shop.recorded directory before q (state, [])).2]
      generalize runJobs shop.recorded directory before (state, []) = run at ih ⊢
      obtain ⟨outcomes, log, inner, kept⟩ := run
      rw [stateAfter_recorded hs directory inner state kept q, List.flatMap_append, ← ih,
        List.flatMap_singleton]

theorem run_outcomes {world : WorldStore} {palette : Palette} {policy : ScanPolicy}
    {sink : Sink σ} (hs : sink.Steady) (workers : Nat) (regions : List RegionCoord) (state : σ) :
    (((ofWorkers workers).withPolicy policy).run world palette sink regions directory
        state).outcomes =
      ((jobs regions).mergeSort Quadrant.le).map
        (outcomeFrom ⟨world, palette, sink, policy⟩ directory state) := by
  have hshop : (Workshop.mk world palette sink policy).sink.Steady := hs
  have halone (state' : σ) (q : Quadrant) :
      outcomeFrom ⟨world, palette, sink, policy⟩ directory state' q =
        outcomeFrom ⟨world, palette, sink, policy⟩ directory state q := by
    simp only [outcomeFrom, Workshop.renderQuadrant]
    rw [Workshop.result_steady hshop q.region q.tile _ state' state]
  have houtcomes := runJobs_outcomes halone state (jobs regions)
  refine (congrArg (List.mergeSort · _) houtcomes).trans ?_
  apply mergeSort_outcomes
  · rw [List.map_map]
    exact List.Perm.of_eq (List.map_id _)
  · intro o ho
    obtain ⟨q, -, rfl⟩ := List.mem_map.mp ho
    rfl

end Sequence

/-- What a run of the listed regions comes to, told from its jobs alone: one
outcome for each quadrant of each entry of the list, in the order of the
quadrants, with the result of the job that had the sink to itself. -/
structure IsRunOf (shop : Workshop σ) (directory : Path) (state : σ)
    (regions : List RegionCoord) (outcomes : List JobOutcome) (accepted : List (Path × Raster)) :
    Prop where
  jobs : (outcomes.map (·.quadrant)).Perm (regions.flatMap Quadrant.all)
  length : outcomes.length = 4 * regions.length
  sorted : outcomes.Pairwise fun a b => a.quadrant.key ≤ b.quadrant.key
  output : ∀ o ∈ outcomes, o.output = directory.join ⟨o.quadrant.outputName⟩
  result : ∀ o ∈ outcomes,
    o.result = contain (shop.renderQuadrant o.quadrant o.output state).result
  accepted : accepted.Perm (outcomes.flatMap fun o =>
    (shop.recorded.renderQuadrant o.quadrant o.output (state, [])).sinkState.2)

theorem isRunOf_alone (shop : Workshop σ) (directory : Path) (state : σ)
    (regions : List RegionCoord) {accepted : List (Path × Raster)}
    (haccepted : accepted.Perm ((jobs regions).flatMap (aloneTiles shop directory state))) :
    IsRunOf shop directory state regions
      (((jobs regions).mergeSort Quadrant.le).map (outcomeFrom shop directory state))
      accepted := by
  have hsort := List.mergeSort_perm (jobs regions) Quadrant.le
  refine ⟨?_, ?_, ?_, ?_, ?_, ?_⟩
  · rw [List.map_map]
    exact (List.Perm.of_eq (List.map_id _)).trans hsort
  · rw [List.length_map, hsort.length_eq, length_jobs]
  · rw [List.pairwise_map]
    apply (Quadrant.pairwise_mergeSort (jobs regions)).imp
    intro a b hab
    exact (Quadrant.le_iff_key_le a b).mp hab
  · intro o ho
    obtain ⟨q, -, rfl⟩ := List.mem_map.mp ho
    rfl
  · intro o ho
    obtain ⟨q, -, rfl⟩ := List.mem_map.mp ho
    rfl
  · rw [List.flatMap_map]
    exact haccepted.trans (hsort.symm.flatMap_right _)

/-- What a complete execution hands back and what its sink accepted. -/
theorem Completes.spec {shop : Workshop σ} (hs : shop.sink.Steady) {directory : Path}
    {workers : Nat} {regions : List RegionCoord} {state : σ}
    {last : Floor (σ × List (Path × Raster))}
    (h : Completes shop.recorded directory (ofWorkers workers).workers regions (state, []) last) :
    last.collected =
        ((jobs regions).mergeSort Quadrant.le).map (outcomeFrom shop directory state) ∧
      last.sinkState.2.Perm ((jobs regions).flatMap (aloneTiles shop directory state)) := by
  have hdone : last.IsDone := (isDone_iff_stuck (crew_pos workers)).mpr h.stuck
  have hlast := (consistent_opening shop directory state regions).reaches hs h.reached
  exact ⟨hlast.collected_eq hdone, hlast.accepted_perm hdone⟩

/-- **Any order of jobs gives the same run.** Whatever moves the workers have
made, they can go on to the end, and they cannot go on for ever. Wherever they
end, every job has its one outcome, the one it has alone; so neither their
number nor the order of their moves shows in the list that is handed back or,
but for their order, in the tiles that the sink accepted. -/
theorem any_order_same_run (world : WorldStore) (palette : Palette) (policy : ScanPolicy)
    (sink : Sink σ) (hs : sink.Steady) (directory : Path) (regions : List RegionCoord)
    (state : σ) :
    let shop : Workshop σ := ⟨world, palette, sink, policy⟩
    let crew (workers : Nat) : Nat := (ofWorkers workers).workers
    let Ends (workers : Nat) (last : Floor (σ × List (Path × Raster))) : Prop :=
      Completes shop.recorded directory (crew workers) regions (state, []) last
    (∀ workers, WellFounded (Function.swap (Step shop.recorded directory (crew workers)))) ∧
    (∀ workers floor,
      Reaches shop.recorded directory (crew workers) (Floor.opening regions (state, [])) floor →
      floor.busy ≤ crew workers ∧
        ∃ last, Reaches shop.recorded directory (crew workers) floor last ∧ Ends workers last) ∧
    (∀ workers last, Ends workers last →
      IsRunOf shop directory state regions last.collected last.sinkState.2) ∧
    (∀ workers last workers' last', Ends workers last → Ends workers' last' →
      last.collected = last'.collected ∧ last.sinkState.2.Perm last'.sinkState.2) ∧
    ∀ workers last workers', Ends workers last →
      let scheduler := (ofWorkers workers').withPolicy policy
      last.collected = (scheduler.run world palette sink regions directory state).outcomes ∧
        last.sinkState.2.Perm
          (scheduler.run world palette sink.recorded regions directory
            (state, [])).sinkState.2 := by
  intro shop crew Ends
  refine ⟨fun workers => wellFounded_step shop.recorded directory (crew workers), ?_, ?_, ?_, ?_⟩
  · intro workers floor hfloor
    refine ⟨hfloor.busy_le (Nat.zero_le _), ?_⟩
    obtain ⟨last, hlast, hdone⟩ := exists_done (crew_pos workers) floor
    exact ⟨last, hlast, hfloor.trans hlast, (isDone_iff_stuck (crew_pos workers)).mp hdone⟩
  · intro workers last hlast
    obtain ⟨hcollected, haccepted⟩ := hlast.spec hs
    rw [hcollected]
    exact isRunOf_alone shop directory state regions haccepted
  · intro workers last workers' last' hlast hlast'
    obtain ⟨hcollected, haccepted⟩ := hlast.spec hs
    obtain ⟨hcollected', haccepted'⟩ := hlast'.spec hs
    exact ⟨hcollected.trans hcollected'.symm, haccepted.trans haccepted'.symm⟩
  · intro workers last workers' hlast scheduler
    obtain ⟨hcollected, haccepted⟩ := hlast.spec hs
    refine ⟨hcollected.trans (run_outcomes hs workers' regions state).symm, ?_⟩
    exact haccepted.trans (List.Perm.of_eq (runJobs_kept hs state (jobs regions)).symm)

/-- A world without the region east of the origin; its other regions have no
chunks. -/
def gappedWorld : WorldStore :=
  ⟨fun coord =>
    if coord = ⟨1, 0⟩ then .error (.missingRegion ⟨"r.1.0.mca"⟩)
    else .ok ⟨coord, fun _ _ => .ok none⟩⟩

/-- A list that names the missing region twice, worked off by a crew that was
to be empty in front of a sink that always crashes. -/
theorem gapped_run_ends :
    let sink := Sink.reacting fun _ _ => .error .crash
    let shop : Workshop (Array (Path × Raster)) := ⟨gappedWorld, .empty, sink, .overworld⟩
    ∃ last, Completes shop.recorded ⟨"out"⟩ (ofWorkers 0).workers [⟨1, 0⟩, ⟨0, 0⟩, ⟨1, 0⟩]
        (#[], []) last ∧
      last.collected.length = 12 ∧
      ∀ o ∈ last.collected, o.quadrant.region = ⟨1, 0⟩ →
        o.result = .error (.opening (.missingRegion ⟨"r.1.0.mca"⟩)) := by
  intro sink shop
  obtain ⟨-, hopen, hrun, -⟩ := any_order_same_run gappedWorld .empty .overworld sink
    (Sink.steady_reacting _) ⟨"out"⟩ [⟨1, 0⟩, ⟨0, 0⟩, ⟨1, 0⟩] #[]
  obtain ⟨-, last, -, hlast⟩ := hopen 0 _ .refl
  obtain ⟨-, hlength, -, -, hresult, -⟩ := hrun 0 last hlast
  refine ⟨last, hlast, hlength, ?_⟩
  intro o ho hregion
  rw [hresult o ho]
  simp [Workshop.renderQuadrant, Workshop.renderTile, gappedWorld, hregion, contain, Attempt.fail]

end TerrainMap.Scheduler
