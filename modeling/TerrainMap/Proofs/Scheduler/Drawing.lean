import Mathlib.Data.List.Induction
import TerrainMap.Proofs.Scheduler.AnyOrder
import TerrainMap.Proofs.Scheduler.Calls
import TerrainMap.Proofs.Sink

/-!
Runs in front of the image sink. The sink answers by the state of the tree, and
every job changes the tree; still a job gets the answer it would get alone. The
first tile has the directories made, or as many of them as can be, and from
then on tiles only fill the directory, where they do not get into each other's
way. So the outcomes of a run are those of its jobs alone, and the tree that is
left depends on which jobs were done but not on their order.
-/

namespace TerrainMap

namespace Quadrant

theorem isName_tileName (x z : Int) : Path.IsName (tileName x z) := by
  have hcomma : ',' ∈ (tileName x z).toList := by
    rw [toList_tileName]
    simp
  refine ⟨slash_not_mem_tileName x z, ?_, ?_, ?_⟩
  · intro h
    simp [h] at hcomma
  · intro h
    simp [h] at hcomma
  · intro h
    simp [h] at hcomma

end Quadrant

namespace Scheduler

variable {host : Host} {shop : Workshop FileTree} {directory parent : Path} {t s : FileTree}
  {q : Quadrant} {regions : List RegionCoord} {order : List Quadrant} {rendered : RenderedTile}

/-- The job has a tile for the sink. -/
def HasTile (shop : Workshop FileTree) (q : Quadrant) (rendered : RenderedTile) : Prop :=
  (shop.rendering q.region q.tile).2 = .ok rendered

/-- The job has a tile, and the tree would take it. -/
structure Takes (host : Host) (shop : Workshop FileTree) (directory : Path) (t : FileTree)
    (q : Quadrant) (rendered : RenderedTile) : Prop where
  tile : HasTile shop q rendered
  taken : (Sink.writeInto host rendered.raster (outputPath directory q) t).1 = .ok ()

/-- The locations of the tiles that are taken. -/
def takenAt (host : Host) (shop : Workshop FileTree) (directory : Path) (t : FileTree)
    (order : List Quadrant) : Set Location :=
  {location | ∃ q ∈ order, ∃ rendered, Takes host shop directory t q rendered ∧
    location = t.destination (outputPath directory q)}

/-- What jobs leave behind in a tree, told by the tree they found. Without a tile
nothing is touched. Otherwise the parents are made, as far as they can be, and
every tile that is taken is in its place. -/
structure Drawn (host : Host) (shop : Workshop FileTree) (directory parent : Path) (t : FileTree)
    (order : List Quadrant) (s : FileTree) : Prop where
  workingDirectory : s.workingDirectory = t.workingDirectory
  tile : ∀ q ∈ order, ∀ rendered, Takes host shop directory t q rendered →
    s.node? (t.destination (outputPath directory q)) = some (.file (.image rendered.raster))
  untouched : (∀ q ∈ order, ∀ rendered, ¬ HasTile shop q rendered) →
    ∀ location, s.node? location = t.node? location
  ground : ∀ q ∈ order, ∀ rendered, HasTile shop q rendered →
    ∀ location ∉ takenAt host shop directory t order,
      s.node? location = (t.createDirectories parent).1.node? location

theorem hasTile_iff :
    HasTile shop q rendered ↔ ∃ handle, shop.world.openRegion q.region = .ok handle ∧
      (Tile.render handle shop.palette q.tile shop.policy).outcome = .ok rendered := by
  simp only [HasTile, Workshop.rendering]
  cases hopen : shop.world.openRegion q.region with
  | error cause => simp [Attempt.fail]
  | ok handle =>
      simp only [Except.ok.injEq, exists_eq_left']
      cases (Tile.render handle shop.palette q.tile shop.policy).outcome with
      | error halt => simp [Attempt.mapCause]
      | ok found => simp [Attempt.mapCause]

theorem HasTile.unique {rendered' : RenderedTile} (h : HasTile shop q rendered)
    (h' : HasTile shop q rendered') : rendered = rendered' := by
  rw [HasTile] at h h'
  exact Except.ok.inj (h.symm.trans h')

/-- Tiles are not empty. -/
theorem HasTile.size (h : HasTile shop q rendered) :
    rendered.raster.width ≠ 0 ∧ rendered.raster.height ≠ 0 := by
  obtain ⟨handle, -, hrender⟩ := hasTile_iff.mp h
  have hsame := Tile.sameSize_of_render hrender
  rw [q.tile_size.1, q.tile_size.2] at hsame
  rw [hsame.width_eq, hsame.height_eq]
  exact ⟨by decide, by decide⟩

theorem destination_outputPath (t : FileTree) (directory : Path) (q : Quadrant) :
    t.destination (outputPath directory q) =
      t.destination directory ++ [Quadrant.tileName q.tileCoord.1 q.tileCoord.2] := by
  rw [outputPath_eq, tilePath, FileTree.destination_join t directory (Quadrant.isName_tileName _ _)]

/-- Two jobs do not share a location. -/
theorem destination_outputPath_inj {q' : Quadrant} (hgrid : ∀ region ∈ regions, region.FitsGrid)
    (hq : q ∈ jobs regions) (hq' : q' ∈ jobs regions)
    (h : t.destination (outputPath directory q) = t.destination (outputPath directory q')) :
    q = q' := by
  rw [destination_outputPath, destination_outputPath] at h
  have hname := List.append_cancel_left h
  obtain ⟨hx, hz⟩ := Quadrant.tileName_inj (List.cons.inj hname).1
  exact tileCoord_inj_of_jobs hgrid hq hq' (Prod.ext hx hz)

theorem mem_takenAt_append {location : Location} :
    location ∈ takenAt host shop directory t (order ++ [q]) ↔
      location ∈ takenAt host shop directory t order ∨
        ∃ rendered, Takes host shop directory t q rendered ∧
          location = t.destination (outputPath directory q) := by
  simp only [takenAt, Set.mem_ofPred_eq, List.mem_append, List.mem_singleton]
  constructor
  · rintro ⟨q', hq' | rfl, hrendered⟩
    · exact .inl ⟨q', hq', hrendered⟩
    · exact .inr hrendered
  · rintro (⟨q', hq', hrendered⟩ | hrendered)
    · exact ⟨q', .inl hq', hrendered⟩
    · exact ⟨q, .inr rfl, hrendered⟩

/-- Once there is a tile, the parents have been made. -/
theorem drawn_of_tile (hq : q ∈ order) (htile : HasTile shop q rendered)
    (hstart : s.workingDirectory = t.workingDirectory)
    (htaken : ∀ q ∈ order, ∀ rendered, Takes host shop directory t q rendered →
      s.node? (t.destination (outputPath directory q)) = some (.file (.image rendered.raster)))
    (hground : ∀ location ∉ takenAt host shop directory t order,
      s.node? location = (t.createDirectories parent).1.node? location) :
    Drawn host shop directory parent t order s :=
  ⟨hstart, htaken, fun hnone => absurd htile (hnone q hq rendered), fun _ _ _ _ => hground⟩

/-! ### One more job -/

section Step

variable (hparent : ∀ name, Path.IsName name → (directory.join ⟨name⟩).parent? = some parent)
include hparent

theorem parent?_outputPath (q : Quadrant) : (outputPath directory q).parent? = some parent :=
  hparent _ (Quadrant.isName_tileName _ _)

theorem Takes.made (h : Takes host shop directory t q rendered) :
    (t.createDirectories parent).2 = .ok () ∧
      (t.createDirectories parent).1.HasRoom (outputPath directory q) :=
  have hanswer :=
    (Sink.writeInto_ok_iff h.tile.size.1 h.tile.size.2 (parent?_outputPath hparent q)).mp h.taken
  ⟨hanswer.1, hanswer.2.2⟩

theorem Takes.reaches (h : Takes host shop directory t q rendered) :
    (t.createDirectories parent).1.Reaches directory :=
  (h.made hparent).2.reaches (Quadrant.isName_tileName _ _)

/-- Once there is a tile, the tree is the one with the parents in it, filled with
the tiles that were taken. -/
theorem Drawn.fills (h : Drawn host shop directory parent t order s) (hq : q ∈ order)
    (htile : HasTile shop q rendered) :
    FileTree.Fills (takenAt host shop directory t order) (t.createDirectories parent).1 s := by
  refine ⟨?_, fun location => ?_⟩
  · rw [h.workingDirectory, (FileTree.grows_createDirectories t parent).workingDirectory]
  · by_cases hlocation : location ∈ takenAt host shop directory t order
    · refine .inr ⟨hlocation, ?_⟩
      obtain ⟨q', hq', rendered', htakes, hplace⟩ := hlocation
      have hroom := (htakes.made hparent).2.node?_ne
      rw [(FileTree.grows_createDirectories t parent).destination] at hroom
      rw [hplace]
      exact ⟨hroom, _, h.tile q' hq' rendered' htakes⟩
    · exact .inl ⟨hlocation, h.ground q hq rendered htile location hlocation⟩

/-- Either there was no tile, or the parents were made for one. -/
theorem Drawn.alike_or_fills (h : Drawn host shop directory parent t order s) :
    (FileTree.Alike t s ∧ ∀ location, location ∉ takenAt host shop directory t order) ∨
      FileTree.Fills (takenAt host shop directory t order) (t.createDirectories parent).1 s := by
  by_cases htiles : ∀ q ∈ order, ∀ rendered, ¬ HasTile shop q rendered
  · refine .inl ⟨⟨h.workingDirectory, h.untouched htiles⟩, ?_⟩
    rintro location ⟨q, hq, rendered, htakes, -⟩
    exact htiles q hq rendered htakes.tile
  · push Not at htiles
    obtain ⟨q, hq, rendered, htile⟩ := htiles
    exact .inr (h.fills hparent hq htile)

/-- The tree with its parents made once more: as far as they could be made they
were, and there is nothing beside them but tiles. -/
structure Prepared (host : Host) (shop : Workshop FileTree) (directory parent : Path) (t : FileTree)
    (order : List Quadrant) (s : FileTree) : Prop where
  answer : (s.createDirectories parent).2 = (t.createDirectories parent).2
  fills : FileTree.Fills (takenAt host shop directory t order) (t.createDirectories parent).1
    (s.createDirectories parent).1
  kept : ∀ location ∈ takenAt host shop directory t order,
    (s.createDirectories parent).1.node? location = s.node? location

theorem Drawn.prepared (h : Drawn host shop directory parent t order s) :
    Prepared host shop directory parent t order s := by
  obtain ⟨halike, hnone⟩ | hfills := h.alike_or_fills hparent
  · obtain ⟨hanswer, hmade⟩ := halike.createDirectories parent
    refine ⟨hanswer, ⟨hmade.workingDirectory, fun location => ?_⟩, fun location hlocation => ?_⟩
    · exact .inl ⟨hnone location, hmade.node location⟩
    · exact absurd hlocation (hnone location)
  · have hagain : s.createDirectories parent = (s, (t.createDirectories parent).2) := by
      refine FileTree.createDirectories_again rfl hfills.grows fun hfailed => ?_
      -- where the parents could not be made no tile was taken
      apply hfills.alike_of_empty
      rintro location ⟨q, -, rendered, htakes, -⟩
      exact hfailed (htakes.made hparent).1
    refine ⟨by rw [hagain], ?_, fun location _ => by rw [hagain]⟩
    rw [hagain]
    exact hfills

/-- Whether there is room for a file is not decided by the tiles that are
there. -/
theorem Prepared.write_answer (h : Prepared host shop directory parent t order s) {name : String}
    (hname : Path.IsName name) (content : FileContent) :
    ((s.createDirectories parent).1.write (directory.join ⟨name⟩) content).2 =
      ((t.createDirectories parent).1.write (directory.join ⟨name⟩) content).2 := by
  by_cases hreaches : (t.createDirectories parent).1.Reaches directory
  · exact h.fills.write_answer hreaches hname content
  · have hnone : ∀ location, location ∉ takenAt host shop directory t order := by
      rintro location ⟨q, -, rendered, htakes, -⟩
      exact hreaches (htakes.reaches hparent)
    exact ((h.fills.alike_of_empty hnone).write _ _).1

/-- The sink answers as if it had not been asked before. -/
theorem Drawn.answer (h : Drawn host shop directory parent t order s)
    (htile : HasTile shop q rendered) :
    (Sink.writeInto host rendered.raster (outputPath directory q) s).1 =
      (Sink.writeInto host rendered.raster (outputPath directory q) t).1 := by
  have hprepared := h.prepared hparent
  obtain ⟨hwidth, hheight⟩ := htile.size
  have hpath := parent?_outputPath hparent q
  rw [Sink.writeInto_eq hwidth hheight hpath, Sink.writeInto_eq hwidth hheight hpath,
    hprepared.answer, outputPath_eq, tilePath,
    hprepared.write_answer hparent (Quadrant.isName_tileName _ _)]

/-- A tile that is taken joins those that were. -/
theorem Drawn.step_taken (h : Drawn host shop directory parent t order s)
    (hgrid : ∀ region ∈ regions, region.FitsGrid) (hjobs : ∀ q' ∈ order ++ [q], q' ∈ jobs regions)
    (htile : HasTile shop q rendered)
    (htaken : (Sink.writeInto host rendered.raster (outputPath directory q) s).1 = .ok ()) :
    Drawn host shop directory parent t (order ++ [q])
      (Sink.writeInto host rendered.raster (outputPath directory q) s).2 := by
  obtain ⟨-, hfills, hkept⟩ := h.prepared hparent
  have hmine : Takes host shop directory t q rendered := ⟨htile, h.answer hparent htile ▸ htaken⟩
  have hroom := (hmine.made hparent).2.node?_ne
  have hplace : s.destination (outputPath directory q) =
      t.destination (outputPath directory q) := by
    rw [FileTree.destination, FileTree.destination, h.workingDirectory]
  rw [(FileTree.grows_createDirectories t parent).destination] at hroom
  rw [Sink.writeInto_of_ok htile.size.1 htile.size.2 (parent?_outputPath hparent q) htaken, hplace]
  have hset := FileTree.node?_set (t := (s.createDirectories parent).1)
    (FileTree.ne_nil_of_node? hroom) (.file (.image rendered.raster))
  refine drawn_of_tile (List.mem_append_right _ (List.mem_singleton_self q)) htile ?_ ?_ ?_
  · exact (FileTree.grows_createDirectories s parent).workingDirectory.trans h.workingDirectory
  · intro q' hq' rendered' htakes
    rw [hset]
    split
    · rename_i hsame
      obtain rfl := destination_outputPath_inj hgrid (hjobs q' hq')
        (hjobs q (List.mem_append_right _ (List.mem_singleton_self q))) hsame
      rw [htakes.tile.unique htile]
    · rename_i hother
      rcases List.mem_append.mp hq' with hq' | hq'
      · rw [hkept _ ⟨q', hq', rendered', htakes, rfl⟩, h.tile q' hq' rendered' htakes]
      · rw [List.mem_singleton.mp hq'] at hother
        exact absurd rfl hother
  · intro location hlocation
    rw [mem_takenAt_append, not_or] at hlocation
    rw [hset, if_neg fun heq => hlocation.2 ⟨rendered, hmine, heq⟩]
    exact ((hfills.node location).resolve_right fun hin => hlocation.1 hin.1).2

/-- A tile that is refused leaves nothing but its parents. -/
theorem Drawn.step_refused (h : Drawn host shop directory parent t order s)
    (htile : HasTile shop q rendered)
    (hrefused : (Sink.writeInto host rendered.raster (outputPath directory q) s).1 ≠ .ok ()) :
    Drawn host shop directory parent t (order ++ [q])
      (Sink.writeInto host rendered.raster (outputPath directory q) s).2 := by
  obtain ⟨-, hfills, hkept⟩ := h.prepared hparent
  rw [Sink.writeInto_of_error htile.size.1 htile.size.2 (parent?_outputPath hparent q) hrefused]
  refine drawn_of_tile (List.mem_append_right _ (List.mem_singleton_self q)) htile ?_ ?_ ?_
  · exact (FileTree.grows_createDirectories s parent).workingDirectory.trans h.workingDirectory
  · intro q' hq' rendered' htakes
    rcases List.mem_append.mp hq' with hq' | hq'
    · rw [hkept _ ⟨q', hq', rendered', htakes, rfl⟩, h.tile q' hq' rendered' htakes]
    · rw [List.mem_singleton.mp hq'] at htakes
      rw [htile.unique htakes.tile, h.answer hparent htakes.tile] at hrefused
      exact absurd htakes.taken hrefused
  · intro location hlocation
    rw [mem_takenAt_append, not_or] at hlocation
    exact ((hfills.node location).resolve_right fun hin => hlocation.1 hin.1).2

end Step

theorem Drawn.step_none (h : Drawn host shop directory parent t order s)
    (hnone : ∀ rendered, ¬ HasTile shop q rendered) :
    Drawn host shop directory parent t (order ++ [q]) s := by
  have hearlier : ∀ q' ∈ order ++ [q], ∀ rendered, HasTile shop q' rendered → q' ∈ order := by
    intro q' hq' rendered htile
    refine (List.mem_append.mp hq').resolve_right fun hq' => ?_
    rw [List.mem_singleton.mp hq'] at htile
    exact hnone rendered htile
  refine ⟨h.workingDirectory, ?_, ?_, ?_⟩
  · intro q' hq' rendered htakes
    exact h.tile q' (hearlier q' hq' rendered htakes.tile) rendered htakes
  · intro htiles
    exact h.untouched fun q' hq' => htiles q' (List.mem_append_left _ hq')
  · intro q' hq' rendered htile location hlocation
    rw [mem_takenAt_append, not_or] at hlocation
    exact h.ground q' (hearlier q' hq' rendered htile) rendered htile location hlocation.1

/-! ### Runs -/

theorem drawn_nil (host : Host) (shop : Workshop FileTree) (directory parent : Path)
    (t : FileTree) : Drawn host shop directory parent t [] t :=
  ⟨rfl, by simp, fun _ _ => rfl, by simp⟩

/-- A job ends the same where its tile gets the same answer. -/
theorem outcomeFrom_congr (hsink : shop.sink = Sink.imageFiles host)
    (hanswer : ∀ rendered, HasTile shop q rendered →
      (Sink.writeInto host rendered.raster (outputPath directory q) s).1 =
        (Sink.writeInto host rendered.raster (outputPath directory q) t).1) :
    outcomeFrom shop directory s q = outcomeFrom shop directory t q := by
  simp only [outcomeFrom, Workshop.renderQuadrant, Workshop.renderTile_eq, hsink]
  rcases hrendering : shop.rendering q.region q.tile with ⟨log, halt | rendered⟩
  · rfl
  · have htile : HasTile shop q rendered := by rw [HasTile, hrendering]
    simp only [Sink.imageFiles, hanswer rendered htile]

/-- One more job ends as it would end alone. -/
theorem Drawn.step (hsink : shop.sink = Sink.imageFiles host)
    (hparent : ∀ name, Path.IsName name → (directory.join ⟨name⟩).parent? = some parent)
    (h : Drawn host shop directory parent t order s)
    (hgrid : ∀ region ∈ regions, region.FitsGrid) (hjobs : ∀ q' ∈ order ++ [q], q' ∈ jobs regions) :
    outcomeFrom shop directory s q = outcomeFrom shop directory t q ∧
      Drawn host shop directory parent t (order ++ [q]) (stateAfter shop directory s q) := by
  refine ⟨outcomeFrom_congr hsink fun rendered htile => h.answer hparent htile, ?_⟩
  simp only [stateAfter, Workshop.renderQuadrant, Workshop.renderTile_eq, hsink]
  rcases hrendering : shop.rendering q.region q.tile with ⟨log, halt | rendered⟩
  · refine h.step_none fun rendered htile => ?_
    rw [HasTile, hrendering] at htile
    cases htile
  · have htile : HasTile shop q rendered := by rw [HasTile, hrendering]
    simp only [Sink.imageFiles]
    by_cases htaken : (Sink.writeInto host rendered.raster (outputPath directory q) s).1 = .ok ()
    · exact h.step_taken hparent hgrid hjobs htile htaken
    · exact h.step_refused hparent htile htaken

/-- A run ends its jobs as each would end alone. -/
theorem drawn_runJobs (hsink : shop.sink = Sink.imageFiles host)
    (hparent : ∀ name, Path.IsName name → (directory.join ⟨name⟩).parent? = some parent)
    (t : FileTree) (hgrid : ∀ region ∈ regions, region.FitsGrid)
    (horder : ∀ q ∈ order, q ∈ jobs regions) :
    (∀ o ∈ (runJobs shop directory order t).outcomes,
        o = outcomeFrom shop directory t o.quadrant) ∧
      Drawn host shop directory parent t order (runJobs shop directory order t).sinkState := by
  induction order using List.reverseRecOn with
  | nil => exact ⟨by simp [runJobs, runJobsAt], drawn_nil host shop directory parent t⟩
  | append_singleton order q ih =>
      obtain ⟨houtcomes, hdrawn⟩ := ih fun q' hq' => horder q' (List.mem_append_left _ hq')
      obtain ⟨hlast, hafter⟩ := runJobs_append_singleton shop directory order q t
      obtain ⟨hsame, hnext⟩ := hdrawn.step hsink hparent hgrid horder
      rw [hlast, hafter]
      refine ⟨?_, hnext⟩
      intro o ho
      rcases List.mem_cons.mp ho with rfl | ho
      · exact hsame
      · exact houtcomes o ho

/-! ### What a run leaves -/

theorem Drawn.of_mem_iff {order' : List Quadrant} (h : Drawn host shop directory parent t order s)
    (hmem : ∀ q, q ∈ order' ↔ q ∈ order) : Drawn host shop directory parent t order' s := by
  have htaken : takenAt host shop directory t order' = takenAt host shop directory t order := by
    simp only [takenAt, hmem]
  refine ⟨h.workingDirectory, ?_, ?_, ?_⟩
  · intro q hq
    exact h.tile q ((hmem q).mp hq)
  · intro hnone
    exact h.untouched fun q hq => hnone q ((hmem q).mpr hq)
  · intro q hq
    rw [htaken]
    exact h.ground q ((hmem q).mp hq)

/-- The same jobs leave the same tree. -/
theorem Drawn.alike {s' : FileTree} (h : Drawn host shop directory parent t order s)
    (h' : Drawn host shop directory parent t order s') : FileTree.Alike s s' := by
  refine ⟨h'.workingDirectory.trans h.workingDirectory.symm, fun location => ?_⟩
  by_cases htiles : ∀ q ∈ order, ∀ rendered, ¬ HasTile shop q rendered
  · rw [h.untouched htiles, h'.untouched htiles]
  · push Not at htiles
    obtain ⟨q, hq, rendered, htile⟩ := htiles
    by_cases hlocation : location ∈ takenAt host shop directory t order
    · obtain ⟨q', hq', rendered', htakes, hplace⟩ := hlocation
      rw [hplace, h.tile q' hq' rendered' htakes, h'.tile q' hq' rendered' htakes]
    · rw [h.ground q hq rendered htile location hlocation,
        h'.ground q hq rendered htile location hlocation]

section Left

variable (hparent : ∀ name, Path.IsName name → (directory.join ⟨name⟩).parent? = some parent)
include hparent

/-- Jobs add directories and the tiles that are taken, and nothing else. -/
theorem Drawn.grows (h : Drawn host shop directory parent t order s) :
    FileTree.Grows (takenAt host shop directory t order) t s := by
  obtain ⟨halike, -⟩ | hfills := h.alike_or_fills hparent
  · exact ⟨halike.workingDirectory, fun location => .inl (halike.node location)⟩
  · have hmade := FileTree.grows_createDirectories t parent
    exact (hmade.mono (Set.empty_subset _)).trans hfills.grows

/-- A tile that is taken is found under its path. -/
theorem Drawn.lookup (h : Drawn host shop directory parent t order s) (hq : q ∈ order)
    (htakes : Takes host shop directory t q rendered) :
    s.lookup (outputPath directory q) = .ok (.file (.image rendered.raster)) := by
  have hroom := (htakes.made hparent).2
  have hlocated := (h.fills hparent hq htakes.tile).grows.locate hroom.located
  have hplace := h.tile q hq rendered htakes
  have hstart : s.destination (outputPath directory q) =
      t.destination (outputPath directory q) := (h.grows hparent).destination _
  rw [FileTree.lookup_eq_ok_iff, hstart]
  rw [(FileTree.grows_createDirectories t parent).destination] at hlocated
  exact ⟨hlocated, hplace, .inr hroom.noDirectory⟩

end Left

/-- A job succeeds just when its tile is taken. -/
theorem outcomeFrom_ok_iff (hsink : shop.sink = Sink.imageFiles host) {report : TileReport} :
    (outcomeFrom shop directory t q).result = .ok report ↔
      ∃ rendered, Takes host shop directory t q rendered ∧ rendered.report = report := by
  have hwritten (answer : Attempt SinkError Unit) (found : TileReport) :
      contain ((answer.mapCause JobError.writing).map fun _ => found) = .ok report ↔
        answer = .ok () ∧ found = report := by
    rcases answer with (cause | _) | _
    · simp [Attempt.mapCause, Except.map, contain]
    · simp [Attempt.mapCause, Except.map, contain]
    · simp [Attempt.mapCause, Except.map, contain]
  simp only [outcomeFrom, Workshop.renderQuadrant, Workshop.renderTile_eq, hsink]
  rcases hrendering : shop.rendering q.region q.tile with ⟨log, halt | rendered⟩
  · have hnone (rendered : RenderedTile) : ¬ HasTile shop q rendered := by
      rw [HasTile, hrendering]
      simp
    constructor
    · cases halt <;> simp [contain]
    · rintro ⟨rendered, htakes, -⟩
      exact absurd htakes.tile (hnone rendered)
  · have htile : HasTile shop q rendered := by rw [HasTile, hrendering]
    simp only [Sink.imageFiles, hwritten]
    constructor
    · rintro ⟨htaken, rfl⟩
      exact ⟨rendered, ⟨htile, htaken⟩, rfl⟩
    · rintro ⟨rendered', htakes, rfl⟩
      obtain rfl := htile.unique htakes.tile
      exact ⟨htakes.taken, rfl⟩

section Serial

variable {outcomes outcomes' : List JobOutcome} {after : FileTree}

theorem IsSerial.of_perm (h : IsSerial shop directory t regions outcomes after)
    (hperm : outcomes'.Perm outcomes) : IsSerial shop directory t regions outcomes' after := by
  obtain ⟨order, hjobs, houtcomes, hafter⟩ := h
  exact ⟨order, hjobs, hperm.trans houtcomes, hafter⟩

variable (hsink : shop.sink = Sink.imageFiles host)
  (hparent : ∀ name, Path.IsName name → (directory.join ⟨name⟩).parent? = some parent)
  (hgrid : ∀ region ∈ regions, region.FitsGrid)
include hsink hparent hgrid

/-- Whatever the order of a run, its jobs end as they end alone and leave what
they leave in any other order. -/
theorem IsSerial.drawn (h : IsSerial shop directory t regions outcomes after) :
    (∀ o ∈ outcomes, o = outcomeFrom shop directory t o.quadrant) ∧
      Drawn host shop directory parent t (jobs regions) after := by
  obtain ⟨order, hjobs, houtcomes, rfl⟩ := h
  obtain ⟨halone, hdrawn⟩ := drawn_runJobs hsink hparent t hgrid fun q hq => hjobs.subset hq
  refine ⟨fun o ho => halone o (houtcomes.subset ho), hdrawn.of_mem_iff fun q => ?_⟩
  exact hjobs.mem_iff.symm

theorem IsSerial.mergeSort_outcomes (h : IsSerial shop directory t regions outcomes after) :
    (outcomes.mergeSort fun a b => a.quadrant.le b.quadrant) =
      ((jobs regions).mergeSort Quadrant.le).map (outcomeFrom shop directory t) :=
  Scheduler.mergeSort_outcomes h.jobs_perm (h.drawn hsink hparent hgrid).1

/-- Every complete execution hands back what the jobs come to alone. -/
theorem Completes.collected_alone {workers : Nat} (hworkers : 0 < workers)
    {last : Floor FileTree} (h : Completes shop directory workers regions t last) :
    last.collected = ((jobs regions).mergeSort Quadrant.le).map (outcomeFrom shop directory t) :=
  ((h.isSerial hworkers).of_perm (List.mergeSort_perm _ _).symm).mergeSort_outcomes hsink hparent
    hgrid

end Serial

end Scheduler

end TerrainMap
