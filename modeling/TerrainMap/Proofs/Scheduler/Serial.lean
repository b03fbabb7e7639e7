import TerrainMap.Proofs.Scheduler.Floor

/-!
Every execution seen as a run of its jobs one after the other.

The sink is all that jobs share, and a job meets it once, in the move in which
it comes to its end. So the order in which the jobs of an execution came to
their end is one in which a single worker could have run them, with the same
outcomes and the same final state of the sink. Nothing is asked of the sink for
this, and what holds of the runs of a single worker, in whatever order, holds
of every execution.
-/

namespace TerrainMap.Scheduler

variable {σ : Type} {shop : Workshop σ} {directory : Path} {state : σ}

/-- The jobs that are no longer waiting ended in the given order. -/
structure EndedIn (shop : Workshop σ) (directory : Path) (state : σ) (quadrants : List Quadrant)
    (order : List Quadrant) (f : Floor σ) : Prop where
  jobs : (f.waiting ++ order).Perm quadrants
  outcomes : f.ended.Perm (runJobs shop directory order state).outcomes
  sinkState : f.sinkState = (runJobs shop directory order state).sinkState

section Invariant

variable {workers : Nat} {quadrants order : List Quadrant} {f g : Floor σ}

theorem endedIn_opening (shop : Workshop σ) (directory : Path) (state : σ)
    (regions : List RegionCoord) :
    EndedIn shop directory state (jobs regions) [] (Floor.opening regions state) := by
  refine ⟨?_, .refl _, rfl⟩
  simp [Floor.waiting, Floor.opening]

theorem EndedIn.step (hf : EndedIn shop directory state quadrants order f)
    (hstep : Step shop directory workers f g) :
    ∃ order', EndedIn shop directory state quadrants order' g := by
  obtain ⟨hjobs, houtcomes, hstate⟩ := hf
  obtain ⟨hwaiting, hended, hsink⟩ | ⟨q, hwaiting, hended, hsink⟩ := hstep.moves
  · exact ⟨order, (hwaiting.append_right _).trans hjobs, hended.trans houtcomes,
      hsink.trans hstate⟩
  · obtain ⟨hlast, hafter⟩ := runJobs_append_singleton shop directory order q state
    refine ⟨order ++ [q], ?_, ?_, ?_⟩
    · have hmoved : (g.waiting ++ (order ++ [q])).Perm (q :: g.waiting ++ order) := by
        rw [← List.append_assoc]
        exact List.perm_append_singleton q (g.waiting ++ order)
      exact (hmoved.trans (hwaiting.symm.append_right _)).trans hjobs
    · rw [hended, hlast, hstate]
      exact houtcomes.cons _
    · rw [hsink, hafter, hstate]

theorem EndedIn.reaches (hf : EndedIn shop directory state quadrants order f)
    (hreach : Reaches shop directory workers f g) :
    ∃ order', EndedIn shop directory state quadrants order' g := by
  induction hreach with
  | refl => exact ⟨order, hf⟩
  | tail _ hstep ih =>
      obtain ⟨order', hmid⟩ := ih
      exact hmid.step hstep

end Invariant

/-- Some order of the jobs of a run, worked off one after the other, has these
outcomes and leaves the sink in this state. -/
structure IsSerial (shop : Workshop σ) (directory : Path) (state : σ) (regions : List RegionCoord)
    (outcomes : List JobOutcome) (after : σ) : Prop where
  exists_order : ∃ order : List Quadrant, order.Perm (jobs regions) ∧
    outcomes.Perm (runJobs shop directory order state).outcomes ∧
    after = (runJobs shop directory order state).sinkState

/-- A complete execution is serial, whatever the sink does. -/
theorem Completes.isSerial {workers : Nat} (hworkers : 0 < workers)
    {regions : List RegionCoord} {last : Floor σ}
    (h : Completes shop directory workers regions state last) :
    IsSerial shop directory state regions last.collected last.sinkState := by
  obtain ⟨hpending, hrunning, hreporting⟩ := (isDone_iff_stuck hworkers).mpr h.stuck
  obtain ⟨order, hjobs, houtcomes, hstate⟩ :=
    (endedIn_opening shop directory state regions).reaches h.reached
  simp only [Floor.waiting, hpending, hrunning, List.nil_append] at hjobs
  simp only [Floor.ended, hreporting, List.nil_append] at houtcomes
  exact ⟨order, hjobs, (List.mergeSort_perm _ _).trans houtcomes, hstate⟩

theorem isSerial_run (s : Scheduler) (world : WorldStore) (palette : Palette) (sink : Sink σ)
    (regions : List RegionCoord) (directory : Path) (state : σ) :
    IsSerial ⟨world, palette, sink, s.policy⟩ directory state regions
      (s.run world palette sink regions directory state).outcomes
      (s.run world palette sink regions directory state).sinkState := by
  refine ⟨jobs regions, .refl _, ?_, rfl⟩
  exact (List.mergeSort_perm _ _).trans (List.reverse_perm _)

end TerrainMap.Scheduler
