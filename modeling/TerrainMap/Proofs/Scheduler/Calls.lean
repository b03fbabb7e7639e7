import Mathlib.Data.List.Induction
import TerrainMap.Proofs.Scheduler.Alone
import TerrainMap.Proofs.Scheduler.Jobs
import TerrainMap.Proofs.Scheduler.Serial
import TerrainMap.Proofs.Tile.Kept

/-!
What the sink is asked on behalf of the jobs.

The state of the sink is put beside the list of all it was asked, with the
answers it gave; the sink may accept, refuse or crash as it likes. A ledger
says of every call to which job it belongs. Its entries are made job by job:
the job has an outcome, and the sink was asked for it at most once, when the
whole tile had been rendered.
-/

namespace TerrainMap

/-- A raster that was handed to the sink, and what the sink did with it. -/
structure SinkCall where
  path : Path
  raster : Raster
  answer : Attempt SinkError Unit

/-- The raster was taken. -/
def SinkCall.accepted (call : SinkCall) : Bool := call.answer.isOk

/-- The sink beside a list of all it was asked. -/
def Sink.watched {σ : Type} (sink : Sink σ) : Sink (σ × List SinkCall) where
  write raster path state :=
    match sink.write raster path state.1 with
    | (answer, inner) => (answer, inner, state.2 ++ [⟨path, raster, answer⟩])

def Workshop.watched {σ : Type} (shop : Workshop σ) : Workshop (σ × List SinkCall) :=
  ⟨shop.world, shop.palette, shop.sink.watched, shop.policy⟩

namespace Scheduler

variable {σ : Type}

/-- What the sink is asked on behalf of a job that meets it in a given state. -/
def callsFrom (shop : Workshop σ) (directory : Path) (state : σ) (q : Quadrant) :
    List SinkCall :=
  match shop.rendering q.region q.tile with
  | (_, .error _) => []
  | (_, .ok rendered) =>
    let path := outputPath directory q
    [⟨path, rendered.raster, (shop.sink.write rendered.raster path state).1⟩]

/-- The list of calls takes no part in what a job does. -/
theorem outcomeFrom_watched (shop : Workshop σ) (directory : Path) (state : σ)
    (calls : List SinkCall) (q : Quadrant) :
    outcomeFrom shop.watched directory (state, calls) q = outcomeFrom shop directory state q := by
  have hrendering : shop.watched.rendering = shop.rendering := rfl
  simp only [outcomeFrom, Workshop.renderQuadrant, Workshop.renderTile_eq, hrendering]
  rcases shop.rendering q.region q.tile with ⟨log, halt | rendered⟩
  · rfl
  · rfl

theorem stateAfter_watched (shop : Workshop σ) (directory : Path) (state : σ)
    (calls : List SinkCall) (q : Quadrant) :
    stateAfter shop.watched directory (state, calls) q =
      (stateAfter shop directory state q, calls ++ callsFrom shop directory state q) := by
  have hrendering : shop.watched.rendering = shop.rendering := rfl
  simp only [stateAfter, callsFrom, Workshop.renderQuadrant, Workshop.renderTile_eq, hrendering]
  rcases shop.rendering q.region q.tile with ⟨log, halt | rendered⟩
  · exact Prod.ext rfl (List.append_nil calls).symm
  · rfl

/-- The outcome of a job, with the calls that the sink got for it. -/
structure Entry extends JobOutcome where
  calls : List SinkCall

def entryFrom (shop : Workshop σ) (directory : Path) (state : σ) (q : Quadrant) : Entry :=
  ⟨outcomeFrom shop directory state q, callsFrom shop directory state q⟩

/-- How a job can have ended, and what the sink was asked for it. A region that
does not open, or a chunk that does not load, ends a job before the sink is
asked; otherwise the sink is asked once, and its answer decides. -/
inductive Booked (shop : Workshop σ) (directory : Path) : Entry → Prop
  | unopened {q : Quadrant} {cause : WorldError}
      (hopen : shop.world.openRegion q.region = .error cause) :
      Booked shop directory ⟨⟨q, outputPath directory q, .error (.opening cause)⟩, []⟩
  | unloaded {q : Quadrant} {handle : RegionHandle} {cause : WorldError}
      (hopen : shop.world.openRegion q.region = .ok handle)
      (hrender : (Tile.render handle shop.palette q.tile shop.policy).outcome =
        .error (.failure cause)) :
      Booked shop directory ⟨⟨q, outputPath directory q, .error (.rendering cause)⟩, []⟩
  | brokenOff {q : Quadrant} {handle : RegionHandle}
      (hopen : shop.world.openRegion q.region = .ok handle)
      (hrender : (Tile.render handle shop.palette q.tile shop.policy).outcome = .error .crash) :
      Booked shop directory ⟨⟨q, outputPath directory q, .error .crashed⟩, []⟩
  | written {q : Quadrant} {handle : RegionHandle} {rendered : RenderedTile} {state : σ}
      (hopen : shop.world.openRegion q.region = .ok handle)
      (hrender : (Tile.render handle shop.palette q.tile shop.policy).outcome = .ok rendered)
      (hanswer : (shop.sink.write rendered.raster (outputPath directory q) state).1 = .ok ()) :
      Booked shop directory ⟨⟨q, outputPath directory q, .ok rendered.report⟩,
        [⟨outputPath directory q, rendered.raster, .ok ()⟩]⟩
  | refused {q : Quadrant} {handle : RegionHandle} {rendered : RenderedTile} {state : σ}
      {cause : SinkError}
      (hopen : shop.world.openRegion q.region = .ok handle)
      (hrender : (Tile.render handle shop.palette q.tile shop.policy).outcome = .ok rendered)
      (hanswer : (shop.sink.write rendered.raster (outputPath directory q) state).1 =
        .error (.failure cause)) :
      Booked shop directory ⟨⟨q, outputPath directory q, .error (.writing cause)⟩,
        [⟨outputPath directory q, rendered.raster, .error (.failure cause)⟩]⟩
  | sinkCrashed {q : Quadrant} {handle : RegionHandle} {rendered : RenderedTile} {state : σ}
      (hopen : shop.world.openRegion q.region = .ok handle)
      (hrender : (Tile.render handle shop.palette q.tile shop.policy).outcome = .ok rendered)
      (hanswer : (shop.sink.write rendered.raster (outputPath directory q) state).1 =
        .error .crash) :
      Booked shop directory ⟨⟨q, outputPath directory q, .error .crashed⟩,
        [⟨outputPath directory q, rendered.raster, .error .crash⟩]⟩

theorem booked_entryFrom (shop : Workshop σ) (directory : Path) (state : σ) (q : Quadrant) :
    Booked shop directory (entryFrom shop directory state q) := by
  simp only [entryFrom, outcomeFrom, callsFrom, Workshop.renderQuadrant, Workshop.renderTile_eq,
    Workshop.rendering]
  cases hopen : shop.world.openRegion q.region with
  | error cause => exact .unopened hopen
  | ok handle =>
      simp only
      rcases hrender : (Tile.render handle shop.palette q.tile shop.policy).outcome with
        (cause | _) | rendered
      · exact .unloaded hopen hrender
      · exact .brokenOff hopen hrender
      · simp only [Attempt.mapCause]
        rcases hanswer : (shop.sink.write rendered.raster (outputPath directory q) state).1 with
          (cause | _) | _
        · exact .refused hopen hrender hanswer
        · exact .sinkCrashed hopen hrender hanswer
        · exact .written hopen hrender hanswer

namespace Booked

variable {shop : Workshop σ} {directory : Path} {entry : Entry}

theorem output_eq (h : Booked shop directory entry) :
    entry.output = outputPath directory entry.quadrant := by
  cases h with
  | unopened => rfl
  | unloaded => rfl
  | brokenOff => rfl
  | written => rfl
  | refused => rfl
  | sinkCrashed => rfl

/-- A job asks for its own path, and for that at most once. -/
theorem paths_sublist (h : Booked shop directory entry) :
    (entry.calls.map (·.path)).Sublist [entry.output] := by
  cases h with
  | unopened => exact List.nil_sublist _
  | unloaded => exact List.nil_sublist _
  | brokenOff => exact List.nil_sublist _
  | written => exact .refl _
  | refused => exact .refl _
  | sinkCrashed => exact .refl _

/-- A job wrote its tile just when the sink took it, and then it took it once. -/
theorem accepted_eq (h : Booked shop directory entry) :
    (entry.calls.filter (·.accepted)).map (·.path) =
      if entry.result.isOk then [entry.output] else [] := by
  cases h with
  | unopened => rfl
  | unloaded => rfl
  | brokenOff => rfl
  | written => rfl
  | refused => rfl
  | sinkCrashed => rfl

theorem isOk_iff (h : Booked shop directory entry) :
    entry.result.isOk = true ↔ ∃ call ∈ entry.calls, call.accepted = true := by
  have haccepted := h.accepted_eq
  constructor
  · intro hok
    rw [if_pos hok] at haccepted
    obtain ⟨call, hcall, -⟩ := List.mem_map.mp (haccepted ▸ List.mem_singleton_self entry.output)
    exact ⟨call, List.mem_filter.mp hcall⟩
  · rintro ⟨call, hcall, htaken⟩
    by_contra hok
    rw [if_neg hok, List.map_eq_nil_iff, List.filter_eq_nil_iff] at haccepted
    exact haccepted call hcall htaken

/-- A job that has no tile for the sink does not ask it. -/
theorem calls_eq_nil (h : Booked shop directory entry) {halt : Halt JobError}
    (hhalt : (shop.rendering entry.quadrant.region entry.quadrant.tile).2 = .error halt) :
    entry.calls = [] ∧ entry.result = contain (.error halt) := by
  simp only [Workshop.rendering] at hhalt
  cases h with
  | unopened hopen =>
      simp only [hopen] at hhalt
      cases hhalt
      exact ⟨rfl, rfl⟩
  | unloaded hopen hrender =>
      simp only [hopen, hrender] at hhalt
      cases hhalt
      exact ⟨rfl, rfl⟩
  | brokenOff hopen hrender =>
      simp only [hopen, hrender] at hhalt
      cases hhalt
      exact ⟨rfl, rfl⟩
  | written hopen hrender => simp [hopen, hrender, Attempt.mapCause] at hhalt
  | refused hopen hrender => simp [hopen, hrender, Attempt.mapCause] at hhalt
  | sinkCrashed hopen hrender => simp [hopen, hrender, Attempt.mapCause] at hhalt

theorem calls_of_ok (h : Booked shop directory entry) {report : TileReport}
    (hok : entry.result = .ok report) :
    ∃ handle raster, shop.world.openRegion entry.quadrant.region = .ok handle ∧
      (Tile.render handle shop.palette entry.quadrant.tile shop.policy).outcome =
        .ok ⟨raster, report⟩ ∧
      entry.calls = [⟨entry.output, raster, .ok ()⟩] := by
  cases h with
  | unopened => simp at hok
  | unloaded => simp at hok
  | brokenOff => simp at hok
  | refused => simp at hok
  | sinkCrashed => simp at hok
  | written hopen hrender hanswer =>
      rename_i q handle rendered state
      obtain ⟨raster, report'⟩ := rendered
      cases hok
      exact ⟨handle, raster, hopen, hrender, rfl⟩

/-- The sink gets to see complete tiles only. -/
theorem raster_complete (h : Booked shop directory entry) :
    ∀ call ∈ entry.calls, call.path = entry.output ∧
      call.raster.width = 256 ∧ call.raster.height = 256 ∧ call.raster.Full := by
  have hcomplete {handle : RegionHandle} {rendered : RenderedTile} {q : Quadrant}
      (hrender : (Tile.render handle shop.palette q.tile shop.policy).outcome = .ok rendered) :
      rendered.raster.width = 256 ∧ rendered.raster.height = 256 ∧ rendered.raster.Full := by
    have hsame := Tile.sameSize_of_render hrender
    rw [q.tile_size.1, q.tile_size.2] at hsame
    have hblank : (Raster.blank 256 256).Full :=
      Raster.full_blank (by decide) (by decide) (by decide)
    exact ⟨hsame.width_eq, hsame.height_eq, hblank.of_sameSize hsame⟩
  cases h with
  | unopened => simp
  | unloaded => simp
  | brokenOff => simp
  | written hopen hrender => simpa using hcomplete hrender
  | refused hopen hrender => simpa using hcomplete hrender
  | sinkCrashed hopen hrender => simpa using hcomplete hrender

end Booked

/-- The entries of a ledger account for the outcomes of a run and, in their
order, for the calls of its sink. -/
structure Accounts (shop : Workshop σ) (directory : Path) (ledger : List Entry)
    (outcomes : List JobOutcome) (calls : List SinkCall) : Prop where
  outcomes : (ledger.map (·.toJobOutcome)).Perm outcomes
  calls : ledger.flatMap (·.calls) = calls
  booked : ∀ entry ∈ ledger, Booked shop directory entry

section Ledger

variable {shop : Workshop σ} {directory : Path} {regions : List RegionCoord} {ledger : List Entry}
  {outcomes : List JobOutcome} {calls : List SinkCall}

theorem Accounts.jobs_perm (h : Accounts shop directory ledger outcomes calls)
    (hjobs : (ledger.map (·.quadrant)).Perm (jobs regions)) :
    (outcomes.map (·.quadrant)).Perm (jobs regions) := by
  refine (h.outcomes.map _).symm.trans ?_
  rw [List.map_map]
  exact hjobs

theorem paths_sublist_of_booked (hbooked : ∀ entry ∈ ledger, Booked shop directory entry) :
    ((ledger.flatMap (·.calls)).map (·.path)).Sublist (ledger.map (·.output)) := by
  induction ledger with
  | nil => exact .refl _
  | cons entry ledger ih =>
      rw [List.flatMap_cons, List.map_append, List.map_cons]
      exact (hbooked entry List.mem_cons_self).paths_sublist.append
        (ih fun e he => hbooked e (List.mem_cons_of_mem _ he))

/-- Where no region is repeated, no two jobs have the same path. -/
theorem Accounts.nodup_outputs (h : Accounts shop directory ledger outcomes calls)
    (hgrid : ∀ region ∈ regions, region.FitsGrid)
    (hjobs : (ledger.map (·.quadrant)).Perm (jobs regions)) (hregions : regions.Nodup) :
    (ledger.map (·.output)).Nodup := by
  have houtputs : ledger.map (·.output) = (ledger.map (·.quadrant)).map (outputPath directory) := by
    rw [List.map_map]
    apply List.map_congr_left
    intro entry hentry
    exact (h.booked entry hentry).output_eq
  rw [houtputs]
  apply (hjobs.nodup_iff.mpr (nodup_jobs hregions)).map_on
  intro q hq q' hq' hpath
  exact outputPath_inj hgrid (hjobs.subset hq) (hjobs.subset hq') hpath

theorem Accounts.nodup_paths (h : Accounts shop directory ledger outcomes calls)
    (hgrid : ∀ region ∈ regions, region.FitsGrid)
    (hjobs : (ledger.map (·.quadrant)).Perm (jobs regions)) (hregions : regions.Nodup) :
    (calls.map (·.path)).Nodup := by
  rw [← h.calls]
  exact (h.nodup_outputs hgrid hjobs hregions).sublist (paths_sublist_of_booked h.booked)

end Ledger

/-- A single worker books its jobs one after the other. -/
theorem exists_ledger (shop : Workshop σ) (directory : Path) (state : σ) (order : List Quadrant) :
    ∃ ledger, ledger.map (·.quadrant) = order ∧
      Accounts shop directory ledger
        (runJobs shop.watched directory order (state, [])).outcomes
        (runJobs shop.watched directory order (state, [])).sinkState.2 := by
  induction order using List.reverseRecOn with
  | nil => exact ⟨[], rfl, .refl _, rfl, by simp⟩
  | append_singleton before q ih =>
      obtain ⟨ledger, hjobs, houtcomes, hcalls, hbooked⟩ := ih
      obtain ⟨hlast, hafter⟩ :=
        runJobs_append_singleton shop.watched directory before q (state, [])
      generalize runJobs shop.watched directory before (state, []) = run at *
      obtain ⟨outcomes, log, inner, calls⟩ := run
      refine ⟨ledger ++ [entryFrom shop directory inner q], ?_, ?_, ?_, ?_⟩
      · rw [List.map_append, hjobs]
        rfl
      · rw [hlast, outcomeFrom_watched, List.map_append]
        exact (List.perm_append_singleton _ _).trans (houtcomes.cons _)
      · rw [hafter, stateAfter_watched, List.flatMap_append, hcalls, List.flatMap_singleton]
        rfl
      · intro entry hentry
        rcases List.mem_append.mp hentry with hentry | hentry
        · exact hbooked entry hentry
        · rw [List.mem_singleton.mp hentry]
          exact booked_entryFrom shop directory inner q

/-- Watching a sink changes nothing but the list. -/
theorem runJobs_watched (shop : Workshop σ) (directory : Path) (state : σ)
    (order : List Quadrant) :
    (runJobs shop.watched directory order (state, [])).outcomes =
        (runJobs shop directory order state).outcomes ∧
      (runJobs shop.watched directory order (state, [])).sinkState.1 =
        (runJobs shop directory order state).sinkState := by
  induction order using List.reverseRecOn with
  | nil => exact ⟨rfl, rfl⟩
  | append_singleton before q ih =>
      obtain ⟨houtcomes, hstate⟩ := ih
      obtain ⟨hlast, hafter⟩ := runJobs_append_singleton shop directory before q state
      obtain ⟨hlast', hafter'⟩ :=
        runJobs_append_singleton shop.watched directory before q (state, [])
      generalize runJobs shop.watched directory before (state, []) = run at *
      obtain ⟨outcomes, log, inner, calls⟩ := run
      subst houtcomes hstate
      refine ⟨?_, ?_⟩
      · rw [hlast', hlast, outcomeFrom_watched]
      · rw [hafter', hafter, stateAfter_watched]

theorem run_watched (s : Scheduler) (world : WorldStore) (palette : Palette) (sink : Sink σ)
    (regions : List RegionCoord) (directory : Path) (state : σ) :
    (s.run world palette sink.watched regions directory (state, [])).outcomes =
        (s.run world palette sink regions directory state).outcomes ∧
      (s.run world palette sink.watched regions directory (state, [])).sinkState.1 =
        (s.run world palette sink regions directory state).sinkState := by
  obtain ⟨houtcomes, hstate⟩ :=
    runJobs_watched ⟨world, palette, sink, s.policy⟩ directory state (jobs regions)
  refine ⟨?_, hstate⟩
  exact congrArg (fun outcomes => outcomes.reverse.mergeSort fun a b => a.quadrant.le b.quadrant)
    houtcomes

section Serial

variable {shop : Workshop σ} {directory : Path} {state : σ} {regions : List RegionCoord}
  {outcomes : List JobOutcome}

/-- Every run has a ledger, whatever the sink does. -/
theorem IsSerial.exists_ledger {after : σ × List SinkCall}
    (h : IsSerial shop.watched directory (state, []) regions outcomes after) :
    ∃ ledger, (ledger.map (·.quadrant)).Perm (jobs regions) ∧
      Accounts shop directory ledger outcomes after.2 := by
  obtain ⟨order, horder, houtcomes, hafter⟩ := h.exists_order
  obtain ⟨ledger, hjobs, hledger, hcalls, hbooked⟩ :=
    Scheduler.exists_ledger shop directory state order
  refine ⟨ledger, hjobs ▸ horder, hledger.trans houtcomes.symm, ?_, hbooked⟩
  rw [hafter, hcalls]

/-- What was not watched could have been. -/
theorem IsSerial.watched {after : σ} (h : IsSerial shop directory state regions outcomes after) :
    ∃ calls, IsSerial shop.watched directory (state, []) regions outcomes (after, calls) := by
  obtain ⟨order, horder, houtcomes, hafter⟩ := h.exists_order
  obtain ⟨hsame, hstate⟩ := runJobs_watched shop directory state order
  refine ⟨(runJobs shop.watched directory order (state, [])).sinkState.2, order, horder, ?_, ?_⟩
  · rw [hsame]
    exact houtcomes
  · rw [hafter, ← hstate]

theorem IsSerial.exists_accounts {after : σ}
    (h : IsSerial shop directory state regions outcomes after) :
    ∃ ledger calls, (ledger.map (·.quadrant)).Perm (jobs regions) ∧
      Accounts shop directory ledger outcomes calls := by
  obtain ⟨calls, hwatched⟩ := h.watched
  obtain ⟨ledger, hjobs, haccounts⟩ := hwatched.exists_ledger
  exact ⟨ledger, calls, hjobs, haccounts⟩

theorem IsSerial.exists_booked {after : σ}
    (h : IsSerial shop directory state regions outcomes after) {outcome : JobOutcome}
    (houtcome : outcome ∈ outcomes) : ∃ calls, Booked shop directory ⟨outcome, calls⟩ := by
  obtain ⟨ledger, calls, -, haccounts⟩ := h.exists_accounts
  obtain ⟨entry, hentry, rfl⟩ := List.mem_map.mp (haccounts.outcomes.symm.subset houtcome)
  exact ⟨entry.calls, haccounts.booked entry hentry⟩

theorem IsSerial.jobs_perm {after : σ}
    (h : IsSerial shop directory state regions outcomes after) :
    (outcomes.map (·.quadrant)).Perm (jobs regions) := by
  obtain ⟨ledger, calls, hjobs, haccounts⟩ := h.exists_accounts
  exact haccounts.jobs_perm hjobs

/-- A run that repeats no region writes to no path twice. -/
theorem IsSerial.nodup_outputs {after : σ}
    (h : IsSerial shop directory state regions outcomes after)
    (hgrid : ∀ region ∈ regions, region.FitsGrid) (hregions : regions.Nodup) :
    (outcomes.map (·.output)).Nodup := by
  obtain ⟨ledger, calls, hjobs, haccounts⟩ := h.exists_accounts
  rw [← (haccounts.outcomes.map _).nodup_iff, List.map_map]
  exact haccounts.nodup_outputs hgrid hjobs hregions

end Serial

end Scheduler

end TerrainMap
