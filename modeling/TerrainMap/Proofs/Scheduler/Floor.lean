import Mathlib.Logic.Relation
import Mathlib.Tactic.ByContra
import TerrainMap.Scheduler

/-!
The floor on which the jobs of a run are worked off side by side.

A job waits, is taken up by a free worker, comes to its end, and has its
outcome sent off; which job moves next is open at every moment. `Step` is one
such move. The sink is shared, and a job meets it in whatever state the others
left it in, which is why a job comes to its end in a single move: rendering
touches nothing that is shared, and a tile is handed to the sink at once or not
at all.

Nothing here assumes anything of the sink. What a run comes to when the sink
reacts to a tile in a fixed way is said in the module that follows.
-/

namespace TerrainMap.Scheduler

variable {σ : Type}

theorem crew_pos (workers : Nat) : 0 < (ofWorkers workers).workers :=
  Nat.lt_of_lt_of_le Nat.one_pos (Nat.le_max_right workers 1)

/-- The outcome of a job that meets the sink in a given state. -/
def outcomeFrom (shop : Workshop σ) (directory : Path) (state : σ) (q : Quadrant) : JobOutcome :=
  ⟨q, outputPath directory q, contain (shop.renderQuadrant q (outputPath directory q) state).result⟩

def stateAfter (shop : Workshop σ) (directory : Path) (state : σ) (q : Quadrant) : σ :=
  (shop.renderQuadrant q (outputPath directory q) state).sinkState

theorem runJobsAt_append_singleton (shopAt : σ → Workshop σ) (directory : Path)
    (order : List Quadrant) (q : Quadrant) (state : σ) :
    let run := runJobsAt shopAt directory order state
    (runJobsAt shopAt directory (order ++ [q]) state).outcomes =
        outcomeFrom (shopAt run.sinkState) directory run.sinkState q :: run.outcomes ∧
      (runJobsAt shopAt directory (order ++ [q]) state).sinkState =
        stateAfter (shopAt run.sinkState) directory run.sinkState q := by
  simp only [runJobsAt, List.foldl_append, List.foldl_cons, List.foldl_nil]
  exact ⟨rfl, rfl⟩

theorem runJobs_append_singleton (shop : Workshop σ) (directory : Path) (order : List Quadrant)
    (q : Quadrant) (state : σ) :
    (runJobs shop directory (order ++ [q]) state).outcomes =
        outcomeFrom shop directory (runJobs shop directory order state).sinkState q ::
          (runJobs shop directory order state).outcomes ∧
      (runJobs shop directory (order ++ [q]) state).sinkState =
        stateAfter shop directory (runJobs shop directory order state).sinkState q :=
  runJobsAt_append_singleton (fun _ => shop) directory order q state

/-- The jobs of a run by how far they have come. The channel holds what was
sent, in the order of sending. -/
structure Floor (σ : Type) where
  pending : List Quadrant
  running : List Quadrant
  reporting : List JobOutcome
  channel : List JobOutcome
  sinkState : σ

namespace Floor

def opening (regions : List RegionCoord) (state : σ) : Floor σ := ⟨jobs regions, [], [], [], state⟩

def busy (f : Floor σ) : Nat := f.running.length + f.reporting.length

/-- The jobs whose outcome is not known yet. -/
def waiting (f : Floor σ) : List Quadrant := f.pending ++ f.running

/-- The outcomes that are known. -/
def ended (f : Floor σ) : List JobOutcome := f.reporting ++ f.channel

def collected (f : Floor σ) : List JobOutcome :=
  f.channel.mergeSort fun a b => a.quadrant.le b.quadrant

/-- The moves that are left: every job makes three. -/
def movesLeft (f : Floor σ) : Nat :=
  3 * f.pending.length + 2 * f.running.length + f.reporting.length

/-- Every outcome has been sent. -/
structure IsDone (f : Floor σ) : Prop where
  pending : f.pending = []
  running : f.running = []
  reporting : f.reporting = []

end Floor

/-- One move on the floor: a free worker takes up any pending job, any running
job comes to its end, or any outcome is sent off. -/
inductive Step (shop : Workshop σ) (directory : Path) (workers : Nat) :
    Floor σ → Floor σ → Prop
  | start (before after : List Quadrant) {running : List Quadrant} {q : Quadrant}
      {reporting channel : List JobOutcome} {state : σ}
      (hfree : running.length + reporting.length < workers) :
      Step shop directory workers ⟨before ++ q :: after, running, reporting, channel, state⟩
        ⟨before ++ after, q :: running, reporting, channel, state⟩
  | finish (before after : List Quadrant) {pending : List Quadrant} {q : Quadrant}
      {reporting channel : List JobOutcome} {state : σ} :
      Step shop directory workers ⟨pending, before ++ q :: after, reporting, channel, state⟩
        ⟨pending, before ++ after, outcomeFrom shop directory state q :: reporting, channel,
          stateAfter shop directory state q⟩
  | report (before after : List JobOutcome) {pending running : List Quadrant}
      {outcome : JobOutcome} {channel : List JobOutcome} {state : σ} :
      Step shop directory workers ⟨pending, running, before ++ outcome :: after, channel, state⟩
        ⟨pending, running, before ++ after, channel ++ [outcome], state⟩

def Reaches (shop : Workshop σ) (directory : Path) (workers : Nat) : Floor σ → Floor σ → Prop :=
  Relation.ReflTransGen (Step shop directory workers)

/-- A floor on which no move is left, reached from the opening of a run: one
complete execution, whatever its order. -/
structure Completes (shop : Workshop σ) (directory : Path) (workers : Nat)
    (regions : List RegionCoord) (state : σ) (last : Floor σ) : Prop where
  reached : Reaches shop directory workers (Floor.opening regions state) last
  stuck : ∀ next, ¬ Step shop directory workers last next

section Moves

variable {shop : Workshop σ} {directory : Path} {workers : Nat} {f g : Floor σ}

/-- What a move changes in what is known of the jobs: nothing, but for the
order, unless a job comes to its end. Only then is the sink met. -/
theorem Step.moves (h : Step shop directory workers f g) :
    (g.waiting.Perm f.waiting ∧ g.ended.Perm f.ended ∧ g.sinkState = f.sinkState) ∨
      ∃ q, f.waiting.Perm (q :: g.waiting) ∧
        g.ended = outcomeFrom shop directory f.sinkState q :: f.ended ∧
        g.sinkState = stateAfter shop directory f.sinkState q := by
  cases h with
  | start before after hfree =>
      refine .inl ⟨?_, .refl _, rfl⟩
      simp only [Floor.waiting, List.append_assoc, List.cons_append]
      exact List.perm_middle.append_left before
  | finish before after =>
      rename_i pending q reporting channel state
      refine .inr ⟨q, ?_, rfl, rfl⟩
      simp only [Floor.waiting]
      exact (List.perm_middle.append_left pending).trans List.perm_middle
  | report before after =>
      rename_i pending running outcome channel state
      refine .inl ⟨.refl _, ?_, rfl⟩
      simp only [Floor.ended, List.append_assoc, List.cons_append]
      rw [← List.append_assoc after]
      exact (List.perm_append_singleton outcome (after ++ channel)).append_left before

end Moves

section Progress

variable {shop : Workshop σ} {directory : Path} {workers : Nat} {f g : Floor σ}

/-- Every move is one of those that were left, so no order of moves goes on
for ever. -/
theorem Step.movesLeft_eq (h : Step shop directory workers f g) :
    f.movesLeft = g.movesLeft + 1 := by
  cases h with
  | start before after hfree =>
      simp only [Floor.movesLeft, List.length_append, List.length_cons]
      omega
  | finish before after =>
      simp only [Floor.movesLeft, List.length_append, List.length_cons]
      omega
  | report before after =>
      simp only [Floor.movesLeft, List.length_append, List.length_cons]
      omega

theorem Step.busy_le (h : Step shop directory workers f g) (hf : f.busy ≤ workers) :
    g.busy ≤ workers := by
  cases h with
  | start before after hfree =>
      simp only [Floor.busy, List.length_cons]
      omega
  | finish before after =>
      simp only [Floor.busy, List.length_append, List.length_cons] at hf ⊢
      omega
  | report before after =>
      simp only [Floor.busy, List.length_append, List.length_cons] at hf ⊢
      omega

theorem Reaches.busy_le (h : Reaches shop directory workers f g) (hf : f.busy ≤ workers) :
    g.busy ≤ workers := by
  induction h with
  | refl => exact hf
  | tail _ hstep ih => exact hstep.busy_le ih

/-- As long as something is left to do, somebody can do it. -/
theorem exists_step (hworkers : 0 < workers) (hf : ¬ f.IsDone) :
    ∃ g, Step shop directory workers f g := by
  obtain ⟨pending, running, reporting, channel, state⟩ := f
  -- a busy worker can always go on; only a start has to wait for a free one
  cases reporting with
  | cons outcome rest => exact ⟨_, Step.report [] rest⟩
  | nil =>
    cases running with
    | cons q rest => exact ⟨_, Step.finish [] rest⟩
    | nil =>
      cases pending with
      | cons q rest => exact ⟨_, Step.start [] rest hworkers⟩
      | nil => exact absurd ⟨rfl, rfl, rfl⟩ hf

theorem not_step_of_isDone (hf : f.IsDone) : ¬ Step shop directory workers f g := by
  obtain ⟨hpending, hrunning, hreporting⟩ := hf
  intro h
  cases h with
  | start before after hfree => simp at hpending
  | finish before after => simp at hrunning
  | report before after => simp at hreporting

/-- A floor is done exactly when no move is left on it. -/
theorem isDone_iff_stuck (hworkers : 0 < workers) :
    f.IsDone ↔ ∀ g, ¬ Step shop directory workers f g := by
  constructor
  · intro hf g
    exact not_step_of_isDone hf
  · intro hstuck
    by_contra hf
    obtain ⟨g, hstep⟩ := exists_step hworkers hf
    exact hstuck g hstep

/-- However far a run has come, and in whatever order, it can be brought to
its end. -/
theorem exists_done (hworkers : 0 < workers) (f : Floor σ) :
    ∃ last, Reaches shop directory workers f last ∧ last.IsDone := by
  -- on the number of moves that are left
  induction hmoves : f.movesLeft generalizing f with
  | zero =>
      simp only [Floor.movesLeft] at hmoves
      refine ⟨f, .refl, ?_, ?_, ?_⟩
      · exact List.length_eq_zero_iff.mp (by omega)
      · exact List.length_eq_zero_iff.mp (by omega)
      · exact List.length_eq_zero_iff.mp (by omega)
  | succ moves ih =>
      have hf : ¬ f.IsDone := by
        rintro ⟨hpending, hrunning, hreporting⟩
        simp [Floor.movesLeft, hpending, hrunning, hreporting] at hmoves
      obtain ⟨g, hstep⟩ : ∃ g, Step shop directory workers f g := exists_step hworkers hf
      have hone := hstep.movesLeft_eq
      obtain ⟨last, hlast, hdone⟩ := ih g (by omega)
      exact ⟨last, .head hstep hlast, hdone⟩

theorem exists_completes (shop : Workshop σ) (directory : Path) (hworkers : 0 < workers)
    (regions : List RegionCoord) (state : σ) :
    ∃ last, Completes shop directory workers regions state last := by
  obtain ⟨last, hlast, hdone⟩ := exists_done hworkers (Floor.opening regions state)
  exact ⟨last, hlast, (isDone_iff_stuck hworkers).mp hdone⟩

theorem wellFounded_step (shop : Workshop σ) (directory : Path) (workers : Nat) :
    WellFounded (Function.swap (Step shop directory workers)) := by
  -- the number of moves that are left goes down
  apply Subrelation.wf (r := InvImage (· < ·) Floor.movesLeft)
  · intro g f hstep
    have hone := Step.movesLeft_eq hstep
    show g.movesLeft < f.movesLeft
    omega
  · exact InvImage.wf _ Nat.lt_wfRel.wf

end Progress

end TerrainMap.Scheduler
