import TerrainMap.Proofs.Scheduler.Balance
import TerrainMap.Proofs.World.Tiles

/-!
A run over a world in memory draws an atlas: one tile for each position of the
grid that lies in a listed region and has no corrupt chunk, and in each of its
pixels the column of the world that belongs there.
-/

namespace TerrainMap.Scheduler

open Tile

variable {σ : Type}

/-- The tile at a position of the grid is to be drawn. -/
structure IsDrawn (insertions : List Insertion) (regions : List RegionCoord) (tx tz : Int) :
    Prop where
  listed : (⟨tx / 2, tz / 2⟩ : RegionCoord) ∈ regions
  sound : IsSound insertions tx tz

/-- The outcomes of a run and what its sink was asked, told by the positions of
the tiles. -/
structure IsAtlas (palette : Palette) (policy : ScanPolicy) (insertions : List Insertion)
    (regions : List RegionCoord) (directory : Path) (outcomes : List JobOutcome)
    (calls : List SinkCall) : Prop where
  distinct : (outcomes.map (·.quadrant.tileCoord)).Nodup
  jobs : ∀ tx tz, (tx, tz) ∈ outcomes.map (·.quadrant.tileCoord) ↔
    (⟨tx / 2, tz / 2⟩ : RegionCoord) ∈ regions
  once : (calls.map (·.path)).Nodup
  drawn : ∀ tx tz, IsDrawn insertions regions tx tz → tilePath directory tx tz ∈ calls.map (·.path)
  shown : ∀ call ∈ calls, call.answer = .ok () ∧ ∃ tx tz, IsDrawn insertions regions tx tz ∧
    call.path = tilePath directory tx tz ∧
    ShowsWorld palette policy insertions tx tz call.raster
  written : ∀ o ∈ outcomes, IsSound insertions o.quadrant.tileCoord.1 o.quadrant.tileCoord.2 →
    ∃ report, o.result = .ok report
  torn : ∀ o ∈ outcomes, ¬ IsSound insertions o.quadrant.tileCoord.1 o.quadrant.tileCoord.2 →
    ∃ ax az, Covers o.quadrant.tileCoord.1 o.quadrant.tileCoord.2 ax az ∧
      IsCorrupt insertions ax az ∧
      o.result =
        .error (.rendering (.decode (ax % 32).toNat (az % 32).toNat .markedCorrupt))

/-- A job that drew the tile of a sound place. -/
structure Draws (palette : Palette) (policy : ScanPolicy) (insertions : List Insertion)
    (entry : Entry) (raster : Raster) : Prop where
  sound : IsSound insertions entry.quadrant.tileCoord.1 entry.quadrant.tileCoord.2
  written : ∃ report, entry.result = .ok report
  asked : entry.calls = [⟨entry.output, raster, .ok ()⟩]
  shows : ShowsWorld palette policy insertions entry.quadrant.tileCoord.1
    entry.quadrant.tileCoord.2 raster

/-- A job that failed at a chunk of its tile. -/
structure Fails (insertions : List Insertion) (entry : Entry) (ax az : Int) : Prop where
  covered : Covers entry.quadrant.tileCoord.1 entry.quadrant.tileCoord.2 ax az
  corrupt : IsCorrupt insertions ax az
  result : entry.result =
    .error (.rendering (.decode (ax % 32).toNat (az % 32).toNat .markedCorrupt))
  silent : entry.calls = []

theorem Fails.not_isSound {insertions : List Insertion} {entry : Entry} {ax az : Int}
    (h : Fails insertions entry ax az) :
    ¬ IsSound insertions entry.quadrant.tileCoord.1 entry.quadrant.tileCoord.2 := by
  intro hsound
  exact hsound ax az h.covered h.corrupt

section Jobs

variable {insertions : List Insertion} {palette : Palette} {policy : ScanPolicy} {sink : Sink σ}
  {directory : Path} (hsink : ∀ raster path state, (sink.write raster path state).1 = .ok ())

include hsink in
theorem Booked.draws_or_fails {entry : Entry}
    (h : Booked ⟨(MemoryWorld.ofInsertions insertions).store, palette, sink, policy⟩ directory
      entry)
    (hgrid : entry.quadrant.region.FitsGrid)
    (hq : entry.quadrant ∈ Quadrant.all entry.quadrant.region) :
    (∃ raster, Draws palette policy insertions entry raster) ∨
      ∃ ax az, Fails insertions entry ax az := by
  cases h with
  | unopened hopen => cases hopen
  | unloaded hopen hrender =>
      cases hopen
      obtain ⟨ax, az, hcovers, hcorrupt, hcause⟩ := decode_of_render hgrid hq hrender
      cases hcause
      exact .inr ⟨ax, az, hcovers, hcorrupt, rfl, rfl⟩
  | brokenOff hopen hrender =>
      cases hopen
      obtain ⟨ax, az, -, -, hcause⟩ := decode_of_render hgrid hq hrender
      cases hcause
  | written hopen hrender hanswer =>
      cases hopen
      obtain ⟨hsound, hshows⟩ := showsWorld_of_render hgrid hq hrender
      exact .inl ⟨_, hsound, ⟨_, rfl⟩, rfl, hshows⟩
  | refused hopen hrender hanswer => cases (hsink _ _ _).symm.trans hanswer
  | sinkCrashed hopen hrender hanswer => cases (hsink _ _ _).symm.trans hanswer

section Ledger

variable {regions : List RegionCoord} {ledger : List Entry} {outcomes : List JobOutcome}
  {calls : List SinkCall}
  (h : Accounts ⟨(MemoryWorld.ofInsertions insertions).store, palette, sink, policy⟩ directory
    ledger outcomes calls)
  (hgrid : ∀ region ∈ regions, region.FitsGrid)
  (hjobs : (ledger.map (·.quadrant)).Perm (jobs regions))
include hsink h hgrid hjobs

theorem Accounts.draws_or_fails {entry : Entry} (hentry : entry ∈ ledger) :
    (∃ raster, Draws palette policy insertions entry raster) ∨
      ∃ ax az, Fails insertions entry ax az :=
  have hjob := hjobs.subset (List.mem_map_of_mem hentry)
  (h.booked entry hentry).draws_or_fails hsink (hgrid _ (mem_jobs.mp hjob).1)
    (mem_all_of_mem_jobs hjob)

/-- Every tile that is to be drawn is drawn. -/
theorem Accounts.path_mem_of_isDrawn {tx tz : Int} (hdrawn : IsDrawn insertions regions tx tz) :
    tilePath directory tx tz ∈ calls.map (·.path) := by
  obtain ⟨q, hq, hcoord⟩ := (exists_job_iff hgrid).mpr hdrawn.listed
  obtain ⟨entry, hentry, rfl⟩ := List.mem_map.mp (hjobs.symm.subset hq)
  have hpath : entry.output = tilePath directory tx tz := by
    rw [(h.booked entry hentry).output_eq, outputPath_eq, hcoord]
  rcases h.draws_or_fails hsink hgrid hjobs hentry with ⟨raster, hdraws⟩ | ⟨ax, az, hfails⟩
  · refine List.mem_map.mpr ⟨⟨entry.output, raster, .ok ()⟩, ?_, hpath⟩
    rw [← h.calls, List.mem_flatMap]
    refine ⟨entry, hentry, ?_⟩
    rw [hdraws.asked]
    exact List.mem_singleton_self _
  · have htorn := hfails.not_isSound
    rw [hcoord] at htorn
    exact absurd hdrawn.sound htorn

/-- And nothing else. -/
theorem Accounts.isDrawn_of_mem {call : SinkCall} (hcall : call ∈ calls) :
    call.answer = .ok () ∧ ∃ tx tz, IsDrawn insertions regions tx tz ∧
      call.path = tilePath directory tx tz ∧
      ShowsWorld palette policy insertions tx tz call.raster := by
  rw [← h.calls] at hcall
  obtain ⟨entry, hentry, hown⟩ := List.mem_flatMap.mp hcall
  rcases h.draws_or_fails hsink hgrid hjobs hentry with ⟨raster, hdraws⟩ | ⟨ax, az, hfails⟩
  · rw [hdraws.asked, List.mem_singleton] at hown
    subst hown
    have hlisted := (exists_job_iff hgrid).mp ⟨_, hjobs.subset (List.mem_map_of_mem hentry), rfl⟩
    exact ⟨rfl, _, _, ⟨hlisted, hdraws.sound⟩, (h.booked entry hentry).output_eq, hdraws.shows⟩
  · rw [hfails.silent] at hown
    exact absurd hown List.not_mem_nil

theorem Accounts.isAtlas (hregions : regions.Nodup) :
    IsAtlas palette policy insertions regions directory outcomes calls := by
  have hquadrants := h.jobs_perm hjobs
  have hcoords : outcomes.map (·.quadrant.tileCoord) =
      (outcomes.map (·.quadrant)).map Quadrant.tileCoord := by
    rw [List.map_map]
    rfl
  refine ⟨?_, ?_, h.nodup_paths hgrid hjobs hregions, ?_, ?_, ?_, ?_⟩
  · rw [hcoords]
    exact nodup_coords hgrid hquadrants hregions
  · intro tx tz
    rw [hcoords]
    exact mem_coords_iff hgrid hquadrants
  · intro tx tz hdrawn
    exact h.path_mem_of_isDrawn hsink hgrid hjobs hdrawn
  · intro call hcall
    exact h.isDrawn_of_mem hsink hgrid hjobs hcall
  · intro outcome houtcome hsound
    obtain ⟨entry, hentry, rfl⟩ := List.mem_map.mp (h.outcomes.symm.subset houtcome)
    rcases h.draws_or_fails hsink hgrid hjobs hentry with ⟨raster, hdraws⟩ | ⟨ax, az, hfails⟩
    · exact hdraws.written
    · exact absurd hsound hfails.not_isSound
  · intro outcome houtcome htorn
    obtain ⟨entry, hentry, rfl⟩ := List.mem_map.mp (h.outcomes.symm.subset houtcome)
    rcases h.draws_or_fails hsink hgrid hjobs hentry with ⟨raster, hdraws⟩ | ⟨ax, az, hfails⟩
    · exact absurd hdraws.sound htorn
    · exact ⟨ax, az, hfails.covered, hfails.corrupt, hfails.result⟩

end Ledger

include hsink in
theorem IsSerial.isAtlas {regions : List RegionCoord} {outcomes : List JobOutcome} {state : σ}
    {after : σ × List SinkCall} (hgrid : ∀ region ∈ regions, region.FitsGrid)
    (hregions : regions.Nodup)
    (h : IsSerial
      (Workshop.mk (MemoryWorld.ofInsertions insertions).store palette sink policy).watched
      directory (state, []) regions outcomes after) :
    IsAtlas palette policy insertions regions directory outcomes after.2 := by
  obtain ⟨ledger, hjobs, haccounts⟩ := h.exists_ledger
  exact haccounts.isAtlas hsink hgrid hjobs hregions

end Jobs

/-- The numbers of a region are at most 26 bits long, but for their signs. -/
def InReach (c : RegionCoord) : Prop :=
  (-2 ^ 26 ≤ c.x ∧ c.x < 2 ^ 26) ∧ -2 ^ 26 ≤ c.z ∧ c.z < 2 ^ 26

theorem InReach.fitsGrid {c : RegionCoord} (h : InReach c) : c.FitsGrid := by
  obtain ⟨⟨hx, hx'⟩, hz, hz'⟩ := h
  exact ⟨⟨by omega, by omega⟩, by omega, by omega⟩

/-- The positions that a job counts with fit signed words of 32 bits. -/
def FitsWords (q : Quadrant) : Prop :=
  (Decimal.inInt32 q.tileCoord.1 ∧ Decimal.inInt32 q.tileCoord.2) ∧
    ∀ cx < regionChunks, ∀ cz < regionChunks,
      Decimal.inInt32 (q.region.chunkAt cx cz).1 ∧ Decimal.inInt32 (q.region.chunkAt cx cz).2

theorem fitsWords_of_inReach {q : Quadrant} (hq : q.offsetX < 2 ∧ q.offsetZ < 2)
    (hreach : InReach q.region) : FitsWords q := by
  have hgrid := hreach.fitsGrid
  obtain ⟨⟨hx, hx'⟩, hz, hz'⟩ := hreach
  constructor
  · simp only [Decimal.inInt32_iff, Quadrant.tileCoord_eq hgrid hq.1 hq.2]
    omega
  · intro cx hcx cz hcz
    rw [MemoryWorld.chunkAt_eq q.region hcx hcz]
    simp only [regionChunks] at hcx hcz
    simp only [Decimal.inInt32_iff, regionChunks]
    omega

/-- **Every column of the world is shown in its pixel.** In front of a sink that
takes everything, a run over distinct regions draws each tile that is in a
listed region and has no corrupt chunk, once, and nothing else; a column stands
in the pixel that its absolute position gives, with the colour that its row has
in the chunk that was put there last. A tile with a corrupt chunk fails, and
names one of them. -/
theorem run_draws_atlas (insertions : List Insertion) (palette : Palette) (policy : ScanPolicy)
    (sink : Sink σ) (hsink : ∀ raster path state, (sink.write raster path state).1 = .ok ())
    (regions : List RegionCoord) (hregions : regions.Nodup)
    (hreach : ∀ c ∈ regions, InReach c) (directory : Path) (state : σ) :
    let world := (MemoryWorld.ofInsertions insertions).store
    let shop : Workshop σ := ⟨world, palette, sink, policy⟩
    (∀ q ∈ jobs regions, FitsWords q) ∧
    (∀ workers last,
      Completes shop.watched directory (ofWorkers workers).workers regions (state, []) last →
      IsAtlas palette policy insertions regions directory last.collected last.sinkState.2) ∧
    ∀ workers,
      let scheduler := (ofWorkers workers).withPolicy policy
      let run := scheduler.run world palette sink.watched regions directory (state, [])
      (scheduler.run world palette sink regions directory state).outcomes = run.outcomes ∧
        IsAtlas palette policy insertions regions directory run.outcomes run.sinkState.2 := by
  intro world shop
  have hgrid : ∀ region ∈ regions, region.FitsGrid := fun c hc => (hreach c hc).fitsGrid
  refine ⟨?_, ?_, ?_⟩
  · intro q hq
    obtain ⟨hregion, hoffsets⟩ := mem_jobs.mp hq
    exact fitsWords_of_inReach hoffsets (hreach q.region hregion)
  · intro workers last hlast
    exact (hlast.isSerial (crew_pos workers)).isAtlas hsink hgrid hregions
  · intro workers scheduler run
    obtain ⟨hsame, -⟩ := run_watched scheduler world palette sink regions directory state
    refine ⟨hsame.symm, ?_⟩
    exact (isSerial_run scheduler world palette sink.watched regions directory
      (state, [])).isAtlas hsink hgrid hregions

/-- A chunk with a stone in its corner. -/
def cornerChunk : Chunk.PaintedChunk := Chunk.PaintedChunk.empty.setBlock 0 0 0 "stone"

/-- A world with the stone at a position that was marked corrupt before, and a
corrupt chunk farther east. -/
def quarry : List Insertion := [.corrupt (-1) 3, .chunk (-1) 3 cornerChunk, .corrupt 5 20]

theorem isCorrupt_quarry {x z : Int} (h : IsCorrupt quarry x z) : x = 5 ∧ z = 20 := by
  have hmem := mem_of_isCorrupt h
  simp only [quarry, List.mem_cons, Insertion.corrupt.injEq, reduceCtorEq, List.not_mem_nil,
    or_false, false_or] at hmem
  rcases hmem with ⟨rfl, rfl⟩ | hmem
  · cases h
  · exact hmem

/-- The stone is drawn on a tile west of the origin, and the corrupt chunk
spoils the tile that it belongs to. -/
theorem quarry_is_drawn :
    let regions : List RegionCoord := [⟨0, 0⟩, ⟨-1, 0⟩]
    let palette := Palette.ofList [("stone", ⟨100, 0, 240⟩)]
    let shop : Workshop (Array (Path × Raster)) :=
      ⟨(MemoryWorld.ofInsertions quarry).store, palette, Sink.reacting fun _ _ => .ok (),
        .overworld⟩
    ∃ last, Completes shop.watched ⟨"out"⟩ (ofWorkers 3).workers regions (#[], []) last ∧
      (∃ call ∈ last.sinkState.2, call.path = tilePath ⟨"out"⟩ (-1) 0 ∧
        call.raster.pixel? 240 48 = some ⟨100, 0, 240⟩) ∧
      ∀ o ∈ last.collected, o.quadrant.tileCoord = (0, 1) →
        o.result = .error (.rendering (.decode 5 20 .markedCorrupt)) := by
  intro regions palette shop
  obtain ⟨last, hlast⟩ := exists_completes shop.watched ⟨"out"⟩ (crew_pos 3) regions (#[], [])
  obtain ⟨-, hatlas, -⟩ := run_draws_atlas quarry palette .overworld
    (Sink.reacting fun _ _ => .ok ()) (Sink.reacting_answer _) regions (by decide)
    (by simp [regions, InReach]) ⟨"out"⟩ #[]
  have hrun := hatlas 3 last hlast
  obtain ⟨chunk, hchunk, hblock⟩ : ∃ chunk,
      chunkAt? quarry (-16 / 16) (48 / 16) = some chunk ∧
        Column.resolve chunk 0 0 .overworld = .block "stone" 0 :=
    ⟨cornerChunk.view, rfl, by decide +kernel⟩
  have hstone : palette.lookup "stone" = some ⟨100, 0, 240⟩ := by
    simp [palette, Palette.ofList, Palette.insertAll, Palette.insert, Palette.lookup]
  have hdrawn : IsDrawn quarry regions (-1) 0 := by
    refine ⟨by decide, ?_⟩
    intro ax az hcovers h
    obtain ⟨rfl, rfl⟩ := isCorrupt_quarry h
    simp [Covers] at hcovers
  refine ⟨last, hlast, ?_, ?_⟩
  · obtain ⟨call, hcall, hpath⟩ := List.mem_map.mp (hrun.drawn (-1) 0 hdrawn)
    refine ⟨call, hcall, hpath, ?_⟩
    obtain ⟨-, tx, tz, -, hpath', hshows⟩ := hrun.shown call hcall
    obtain ⟨rfl, rfl⟩ := tilePath_inj (hpath.symm.trans hpath')
    obtain ⟨c, hpixel, hlaw⟩ := hshows.column (show (-16 : Int) / 256 = -1 from rfl)
      (show (48 : Int) / 256 = 0 from rfl) hchunk
    rw [← eq_of_columnLaw_zero hlaw hblock hstone]
    exact hpixel
  · intro outcome houtcome hcoord
    have htorn : ¬ IsSound quarry outcome.quadrant.tileCoord.1 outcome.quadrant.tileCoord.2 := by
      rw [hcoord]
      intro hsound
      exact hsound 5 20 (by simp [Covers]) rfl
    obtain ⟨ax, az, -, h, hresult⟩ := hrun.torn outcome houtcome htorn
    obtain ⟨rfl, rfl⟩ := isCorrupt_quarry h
    exact hresult

end TerrainMap.Scheduler
