import TerrainMap.Proofs.Scheduler.AnyOrder
import TerrainMap.Proofs.Scheduler.Calls
import TerrainMap.Proofs.Summary
import TerrainMap.Proofs.Tile.Render

/-!
The books of a run.

A run is counted in three places: its sink has seen calls, its jobs have
outcomes, and its summary has totals. The ledger of the run ties the three
together, entry by entry, so that each number of one is a number of the others.
This holds of every execution and of every sink.
-/

namespace TerrainMap.Scheduler

variable {σ : Type}

def totals (outcomes : List JobOutcome) : RunSummary :=
  RunSummary.ofResults (outcomes.map (·.result))

theorem totals_append (outcomes outcomes' : List JobOutcome) :
    totals (outcomes ++ outcomes') = totals outcomes + totals outcomes' := by
  rw [totals, List.map_append, RunSummary.ofResults_append]
  rfl

theorem totals_perm {outcomes outcomes' : List JobOutcome} (h : outcomes.Perm outcomes') :
    totals outcomes = totals outcomes' :=
  RunSummary.ofResults_perm (h.map _)

theorem written_totals (outcomes : List JobOutcome) :
    (totals outcomes).written = (outcomes.filter (·.result.isOk)).length := by
  induction outcomes with
  | nil => rfl
  | cons outcome outcomes ih =>
      obtain ⟨q, output, result⟩ := outcome
      rw [totals, List.map_cons, RunSummary.ofResults_cons]
      simp only [RunSummary.written_add]
      rw [← totals, ih]
      cases result with
      | ok report => exact Nat.add_comm _ _
      | error cause => exact Nat.zero_add _

/-- How the outcomes of a run, the calls its sink got, and the totals agree. -/
structure Balances (shop : Workshop σ) (directory : Path) (regions : List RegionCoord)
    (ledger : List Entry) (outcomes : List JobOutcome) (calls : List SinkCall) : Prop where
  accounts : Accounts shop directory ledger outcomes calls
  jobs : (outcomes.map (·.quadrant)).Perm (regions.flatMap Quadrant.all)
  accepted : ((calls.filter (·.accepted)).map (·.path)).Perm
    ((outcomes.filter (·.result.isOk)).map (·.output))
  writtenOnce : ∀ entry ∈ ledger, ∀ report, entry.result = .ok report →
    ∃ handle raster, shop.world.openRegion entry.quadrant.region = .ok handle ∧
      (Tile.render handle shop.palette entry.quadrant.tile shop.policy).outcome =
        .ok ⟨raster, report⟩ ∧
      entry.calls = [⟨entry.output, raster, .ok ()⟩]
  silent : ∀ entry ∈ ledger, ∀ halt,
    (shop.rendering entry.quadrant.region entry.quadrant.tile).2 = .error halt →
      entry.calls = [] ∧ entry.result = contain (.error halt)
  unopened : ∀ entry ∈ ledger, ∀ cause,
    shop.world.openRegion entry.quadrant.region = .error cause →
      entry.calls = [] ∧ entry.result = .error (.opening cause)
  unloaded : ∀ entry ∈ ledger, ∀ handle,
    shop.world.openRegion entry.quadrant.region = .ok handle →
    ∀ place ∈ entry.quadrant.tile.places, ∀ halt,
      handle.chunk (entry.quadrant.tile.chunkX + place.1)
          (entry.quadrant.tile.chunkZ + place.2) = .error halt →
        entry.calls = [] ∧ ∃ first cause, Tile.FirstFailure handle entry.quadrant.tile first cause ∧
          entry.result = contain (.error (cause.mapCause .rendering))
  complete : ∀ call ∈ calls, call.raster.width = 256 ∧ call.raster.height = 256 ∧
    call.raster.data.size = 256 * 256 * 3
  written : (totals outcomes).written = (calls.filter (·.accepted)).length ∧
    (totals outcomes).written = (outcomes.filter (·.result.isOk)).length
  failed : (totals outcomes).written + (totals outcomes).failed = 4 * regions.length
  sums : let wrote := reports (outcomes.map (·.result))
    (totals outcomes).absentChunks = (wrote.map (·.absentChunks)).sum ∧
      (totals outcomes).emptyColumns = (wrote.map (·.emptyColumns)).sum ∧
      (totals outcomes).unknownBlocks = (wrote.map (·.unknownBlocks.size)).sum
  succeeded : (totals outcomes).allSucceeded = true ↔
    ∀ entry ∈ ledger, ∃ call ∈ entry.calls, call.accepted = true

section Ledger

variable {shop : Workshop σ} {directory : Path} {regions : List RegionCoord} {ledger : List Entry}
  {outcomes : List JobOutcome} {calls : List SinkCall}

theorem accepted_eq_of_booked (hbooked : ∀ entry ∈ ledger, Booked shop directory entry) :
    ((ledger.flatMap (·.calls)).filter (·.accepted)).map (·.path) =
      ((ledger.map (·.toJobOutcome)).filter (·.result.isOk)).map (·.output) := by
  induction ledger with
  | nil => rfl
  | cons entry ledger ih =>
      have hrest := ih fun e he => hbooked e (List.mem_cons_of_mem _ he)
      have hentry := (hbooked entry List.mem_cons_self).accepted_eq
      rw [List.flatMap_cons, List.filter_append, List.map_append, hrest, hentry, List.map_cons,
        List.filter_cons]
      split
      · rfl
      · rfl

theorem Accounts.accepted_perm (h : Accounts shop directory ledger outcomes calls) :
    ((calls.filter (·.accepted)).map (·.path)).Perm
      ((outcomes.filter (·.result.isOk)).map (·.output)) := by
  rw [← h.calls, accepted_eq_of_booked h.booked]
  exact (h.outcomes.filter _).map _

theorem Accounts.complete (h : Accounts shop directory ledger outcomes calls) :
    ∀ call ∈ calls, call.raster.width = 256 ∧ call.raster.height = 256 ∧
      call.raster.data.size = 256 * 256 * 3 := by
  intro call hcall
  rw [← h.calls] at hcall
  obtain ⟨entry, hentry, hown⟩ := List.mem_flatMap.mp hcall
  obtain ⟨-, hwidth, hheight, hfull⟩ := (h.booked entry hentry).raster_complete call hown
  refine ⟨hwidth, hheight, ?_⟩
  rw [hfull.size_eq, hwidth, hheight]

theorem Accounts.succeeded_iff (h : Accounts shop directory ledger outcomes calls) :
    (totals outcomes).allSucceeded = true ↔
      ∀ entry ∈ ledger, ∃ call ∈ entry.calls, call.accepted = true := by
  rw [totals, RunSummary.allSucceeded_iff]
  constructor
  · intro hall entry hentry
    apply (h.booked entry hentry).isOk_iff.mp
    apply hall
    exact ((h.outcomes.map _).subset) (List.mem_map_of_mem (List.mem_map_of_mem hentry))
  · intro hall result hresult
    obtain ⟨outcome, houtcome, rfl⟩ := List.mem_map.mp hresult
    obtain ⟨entry, hentry, rfl⟩ := List.mem_map.mp (h.outcomes.symm.subset houtcome)
    exact (h.booked entry hentry).isOk_iff.mpr (hall entry hentry)

/-- A job of a region that does not open does not ask the sink. -/
theorem Booked.calls_of_unopened {entry : Entry} (h : Booked shop directory entry)
    {cause : WorldError} (hopen : shop.world.openRegion entry.quadrant.region = .error cause) :
    entry.calls = [] ∧ entry.result = .error (.opening cause) := by
  have hhalt : (shop.rendering entry.quadrant.region entry.quadrant.tile).2 =
      .fail (.opening cause) := by
    simp only [Workshop.rendering, hopen]
  exact h.calls_eq_nil hhalt

/-- Nor does one that has a chunk which does not load; it fails with the first
of them. -/
theorem Booked.calls_of_unloaded {entry : Entry} (h : Booked shop directory entry)
    (hjob : entry.quadrant ∈ Quadrant.all entry.quadrant.region) {handle : RegionHandle}
    (hopen : shop.world.openRegion entry.quadrant.region = .ok handle) {place : Nat × Nat}
    (hplace : place ∈ entry.quadrant.tile.places) {halt : Halt WorldError}
    (hhalt : handle.chunk (entry.quadrant.tile.chunkX + place.1)
      (entry.quadrant.tile.chunkZ + place.2) = .error halt) :
    entry.calls = [] ∧ ∃ first cause, Tile.FirstFailure handle entry.quadrant.tile first cause ∧
      entry.result = contain (.error (cause.mapCause .rendering)) := by
  have hstuck : ¬ ∀ p ∈ entry.quadrant.tile.places, Tile.Loads handle entry.quadrant.tile p := by
    intro hall
    obtain ⟨found, hfound⟩ := hall place hplace
    cases hfound.symm.trans hhalt
  obtain ⟨first, cause, hfirst⟩ := Tile.exists_firstFailure hstuck
  have hrender : (Tile.render handle shop.palette entry.quadrant.tile shop.policy).outcome =
      .error cause :=
    (Tile.outcome_eq_error_iff (Quadrant.fits_tile hjob)).mpr ⟨first, hfirst⟩
  have hrendering : (shop.rendering entry.quadrant.region entry.quadrant.tile).2 =
      .error (cause.mapCause .rendering) := by
    simp only [Workshop.rendering, hopen, hrender, Attempt.mapCause]
  obtain ⟨hcalls, hresult⟩ := h.calls_eq_nil hrendering
  exact ⟨hcalls, first, cause, hfirst, hresult⟩

/-- A ledger that has an entry for every job balances the run. -/
theorem Accounts.balances (h : Accounts shop directory ledger outcomes calls)
    (hjobs : (ledger.map (·.quadrant)).Perm (jobs regions)) :
    Balances shop directory regions ledger outcomes calls := by
  have hquadrants := h.jobs_perm hjobs
  have haccepted := h.accepted_perm
  have hcount : (totals outcomes).written = (calls.filter (·.accepted)).length := by
    rw [written_totals]
    simpa using haccepted.length_eq.symm
  refine ⟨h, hquadrants, haccepted, ?_, ?_, ?_, ?_, h.complete,
    ⟨hcount, written_totals outcomes⟩, ?_, ?_, h.succeeded_iff⟩
  · intro entry hentry report hok
    exact (h.booked entry hentry).calls_of_ok hok
  · intro entry hentry halt hhalt
    exact (h.booked entry hentry).calls_eq_nil hhalt
  · intro entry hentry cause hopen
    exact (h.booked entry hentry).calls_of_unopened hopen
  · intro entry hentry handle hopen place hplace halt hhalt
    exact (h.booked entry hentry).calls_of_unloaded
      (mem_all_of_mem_jobs (hjobs.subset (List.mem_map_of_mem hentry))) hopen hplace hhalt
  · rw [totals, RunSummary.written_add_failed, List.length_map, ← length_jobs,
      ← hquadrants.length_eq, List.length_map]
  · rw [totals, RunSummary.ofResults_eq]
    exact ⟨rfl, rfl, rfl⟩

end Ledger

theorem IsSerial.balances {shop : Workshop σ} {directory : Path} {state : σ}
    {regions : List RegionCoord} {outcomes : List JobOutcome} {after : σ × List SinkCall}
    (h : IsSerial shop.watched directory (state, []) regions outcomes after) :
    ∃ ledger, Balances shop directory regions ledger outcomes after.2 := by
  obtain ⟨ledger, hjobs, haccounts⟩ := h.exists_ledger
  exact ⟨ledger, haccounts.balances hjobs⟩

/-- **Outcomes, calls and totals balance.** Every complete execution has a
ledger that ties each outcome to what the sink was asked on its behalf, however
the sink answers, and so has the run of the scheduler, which having its sink
watched does not change. Totals neither depend on the order of the outcomes nor
on the parts they are counted in. -/
theorem run_balances (world : WorldStore) (palette : Palette) (policy : ScanPolicy)
    (sink : Sink σ) (directory : Path) (regions : List RegionCoord) (state : σ) :
    let shop : Workshop σ := ⟨world, palette, sink, policy⟩
    (∀ workers last,
      Completes shop.watched directory (ofWorkers workers).workers regions (state, []) last →
      ∃ ledger, Balances shop directory regions ledger last.collected last.sinkState.2) ∧
    (∀ workers,
      let scheduler := (ofWorkers workers).withPolicy policy
      let run := scheduler.run world palette sink regions directory state
      let watched := scheduler.run world palette sink.watched regions directory (state, [])
      watched.outcomes = run.outcomes ∧ watched.sinkState.1 = run.sinkState ∧
        ∃ ledger, Balances shop directory regions ledger run.outcomes watched.sinkState.2) ∧
    (∀ outcomes outcomes' : List JobOutcome, outcomes.Perm outcomes' →
      totals outcomes = totals outcomes') ∧
    ∀ outcomes outcomes' : List JobOutcome,
      totals (outcomes ++ outcomes') = totals outcomes + totals outcomes' := by
  intro shop
  refine ⟨?_, ?_, fun _ _ => totals_perm, totals_append⟩
  · intro workers last hlast
    exact (hlast.isSerial (crew_pos workers)).balances
  · intro workers scheduler run watched
    obtain ⟨hsame, hstate⟩ := run_watched scheduler world palette sink regions directory state
    refine ⟨hsame, hstate, ?_⟩
    rw [← hsame]
    exact (isSerial_run scheduler world palette sink.watched regions directory
      (state, [])).balances

theorem gappedWorld_chunk_ne_error {coord : RegionCoord} {handle : RegionHandle} {cx cz : Nat}
    {halt : Halt WorldError} (hopen : gappedWorld.openRegion coord = .ok handle) :
    handle.chunk cx cz ≠ .error halt := by
  simp only [gappedWorld] at hopen
  split at hopen
  · cases hopen
  · cases hopen
    simp

/-- In front of a sink that takes the tile of one job only, that job is the one
that writes. -/
theorem Booked.isOk_iff_of_gapped {sink : Sink σ} {directory : Path} {taken : Quadrant}
    {regions : List RegionCoord} {entry : Entry}
    (h : Booked ⟨gappedWorld, .empty, sink, .overworld⟩ directory entry)
    (hsink : ∀ raster path state, (sink.write raster path state).1 =
      if path = outputPath directory taken then .ok () else .error .crash)
    (hgrid : ∀ region ∈ regions, region.FitsGrid) (hopens : taken.region ≠ ⟨1, 0⟩)
    (htaken : taken ∈ jobs regions) (hjob : entry.quadrant ∈ jobs regions) :
    entry.result.isOk = true ↔ entry.quadrant = taken := by
  cases h with
  | unopened hopen =>
      refine iff_of_false Bool.false_ne_true ?_
      rintro rfl
      simp [gappedWorld, hopens] at hopen
  | unloaded hopen hrender =>
      obtain ⟨place, hplace⟩ :=
        (Tile.outcome_eq_error_iff (Quadrant.fits_tile (mem_all_of_mem_jobs hjob))).mp hrender
      exact absurd hplace.fails (gappedWorld_chunk_ne_error hopen)
  | brokenOff hopen hrender =>
      obtain ⟨place, hplace⟩ :=
        (Tile.outcome_eq_error_iff (Quadrant.fits_tile (mem_all_of_mem_jobs hjob))).mp hrender
      exact absurd hplace.fails (gappedWorld_chunk_ne_error hopen)
  | written hopen hrender hanswer =>
      rw [hsink] at hanswer
      split at hanswer
      · rename_i hpath
        exact iff_of_true rfl (outputPath_inj hgrid hjob htaken hpath)
      · cases hanswer
  | refused hopen hrender hanswer =>
      rw [hsink] at hanswer
      split at hanswer
      · cases hanswer
      · cases hanswer
  | sinkCrashed hopen hrender hanswer =>
      refine iff_of_false Bool.false_ne_true ?_
      rintro rfl
      rw [hsink, if_pos rfl] at hanswer
      cases hanswer

/-- A region that is listed twice beside one that is missing, in front of a
sink that takes the tiles of one name and crashes at all others. -/
theorem gapped_run_balances :
    let east : Quadrant := ⟨⟨0, 0⟩, 1, 0⟩
    let sink := Sink.reacting fun _ path =>
      if path = outputPath ⟨"out"⟩ east then .ok () else .error .crash
    let shop : Workshop (Array (Path × Raster)) := ⟨gappedWorld, .empty, sink, .overworld⟩
    ∃ last, Completes shop.watched ⟨"out"⟩ (ofWorkers 2).workers [⟨0, 0⟩, ⟨1, 0⟩, ⟨0, 0⟩]
        (#[], []) last ∧
      (totals last.collected).written = 2 ∧ (totals last.collected).failed = 10 := by
  intro east sink shop
  let regions : List RegionCoord := [⟨0, 0⟩, ⟨1, 0⟩, ⟨0, 0⟩]
  obtain ⟨last, hlast⟩ := exists_completes shop.watched ⟨"out"⟩ (crew_pos 2) regions (#[], [])
  obtain ⟨hbalances, -⟩ := run_balances gappedWorld .empty .overworld sink ⟨"out"⟩ regions #[]
  obtain ⟨ledger, hledger⟩ := hbalances 2 last hlast
  have hjobs : ∀ entry ∈ ledger, entry.quadrant ∈ jobs regions := by
    intro entry hentry
    apply hledger.jobs.subset
    exact (hledger.accounts.outcomes.map _).subset
      (List.mem_map_of_mem (List.mem_map_of_mem hentry))
  have hsink (raster : Raster) (path : Path) (state : Array (Path × Raster)) :
      (sink.write raster path state).1 =
        if path = outputPath ⟨"out"⟩ east then .ok () else .error .crash := by
    simp only [sink, Sink.reacting_answer]
  have hgrid : ∀ region ∈ regions, region.FitsGrid := by decide
  have heast : east ∈ jobs regions := mem_jobs.mpr ⟨List.mem_cons_self, by decide, by decide⟩
  have hok : ∀ entry ∈ ledger, entry.result.isOk = true ↔ entry.quadrant = east := by
    intro entry hentry
    exact (hledger.accounts.booked entry hentry).isOk_iff_of_gapped hsink hgrid (by decide) heast
      (hjobs entry hentry)
  have hwritten : (totals last.collected).written = 2 := by
    calc (totals last.collected).written
        = (last.collected.filter (·.result.isOk)).length := hledger.written.2
      _ = ((last.collected.map (·.quadrant)).filter (· = east)).length := by
          rw [List.filter_map, List.length_map]
          apply congrArg List.length
          apply List.filter_congr
          intro outcome houtcome
          obtain ⟨entry, hentry, rfl⟩ :=
            List.mem_map.mp (hledger.accounts.outcomes.symm.subset houtcome)
          exact Bool.eq_iff_iff.mpr ((hok entry hentry).trans (by simp))
      _ = ((jobs regions).filter (· = east)).length := (hledger.jobs.filter _).length_eq
      _ = 2 := by decide
  have hall := hledger.failed
  refine ⟨last, hlast, hwritten, ?_⟩
  rw [hwritten] at hall
  simp [regions] at hall
  omega

end TerrainMap.Scheduler
