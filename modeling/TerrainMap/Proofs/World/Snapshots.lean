import Mathlib.Data.Finset.Card
import TerrainMap.Proofs.World.Sharing
import TerrainMap.Proofs.World.Slots

/-!
Worlds that share their tables behave as worlds that share nothing. Each world
has a history of its own, which a clone takes over at its start; a region takes
it over when it is opened, and keeps to it whatever is put into any world later.
-/

namespace TerrainMap

namespace MemoryWorld

theorem ofInsertions_concat (insertions : List Insertion) (what : Insertion) :
    ofInsertions (insertions ++ [what]) = (ofInsertions insertions).put what := by
  rw [ofInsertions, List.foldl_concat, ofInsertions]

theorem mem_ofInsertions {insertions : List Insertion} {p : Int × Int} :
    p ∈ (ofInsertions insertions).entries ↔ p ∈ insertions.map Insertion.place := by
  rw [Std.HashMap.mem_iff_isSome_getElem?, entries_ofInsertions, lastAt, Option.isSome_map]
  simp

/-- A world counts the positions that something was put at. -/
theorem size_ofInsertions (insertions : List Insertion) :
    (ofInsertions insertions).size = (insertions.map Insertion.place).toFinset.card := by
  induction insertions using List.reverseRecOn with
  | nil => rfl
  | append_singleton before last ih =>
      have hplaces : ((before ++ [last]).map Insertion.place).toFinset =
          Insert.insert last.place (before.map Insertion.place).toFinset := by
        rw [List.map_append, List.toFinset_append, Finset.union_comm]
        rfl
      rw [ofInsertions_concat, size, entries_put, Std.HashMap.size_insert, hplaces]
      split
      case isTrue hmem =>
        rw [Finset.insert_eq_of_mem (List.mem_toFinset.mpr (mem_ofInsertions.mp hmem))]
        exact ih
      case isFalse hmem =>
        rw [Finset.card_insert_of_notMem (fun h => hmem (mem_ofInsertions.mpr
          (List.mem_toFinset.mp h))), ← ih, size]

end MemoryWorld

/-- What was put into each world, and into the world of each region before it
was opened. -/
structure Histories where
  worlds : List (List Insertion)
  regions : List (RegionCoord × List Insertion)

namespace Histories

/-- What a world was told stays with it alone. Where a world is cloned, or opened,
the new one starts from what the old one was told so far. -/
def record (told : Histories) : WorldOp → Histories
  | .create => { told with worlds := told.worlds ++ [[]] }
  | .insert w what => { told with worlds := told.worlds.modify w (· ++ [what]) }
  | .clone w => { told with worlds := told.worlds ++ told.worlds[w]?.toList }
  | .openRegion w coord =>
    { told with regions := told.regions ++ told.worlds[w]?.toList.map (coord, ·) }

def ofOps (ops : List WorldOp) : Histories := ops.foldl record ⟨[], []⟩

end Histories

namespace Sharing

open MemoryWorld

/-- The worlds and the opened regions hold what their histories tell. -/
structure Follows (s : Sharing) (told : Histories) : Prop where
  sound : s.Sound
  contents : s.contents = told.worlds.map fun history => some (ofInsertions history)
  views : s.views = told.regions.map fun r => (r.1, some (ofInsertions r.2))

theorem follows_start : start.Follows ⟨[], []⟩ := ⟨fun _ => rfl, rfl, rfl⟩

namespace Follows

variable {s : Sharing} {told : Histories} (h : s.Follows told)
include h

theorem world?_eq (w : Nat) : s.world? w = told.worlds[w]?.map ofInsertions := by
  rw [world?, h.contents, List.getElem?_map]
  rcases told.worlds[w]? with _ | history <;> rfl

theorem region?_eq (k : Nat) :
    s.region? k = told.regions[k]?.map fun r => (ofInsertions r.2).openRegion r.1 := by
  rw [region?, h.views, List.getElem?_map]
  rcases told.regions[k]? with _ | r <;> rfl

theorem length_regions : s.regions.length = told.regions.length := by
  have hlength := congrArg List.length h.views
  rwa [Sharing.views, List.length_map, List.length_map] at hlength

theorem world_cases (w : Nat) : (s.worlds[w]? = none ∧ told.worlds[w]? = none) ∨
    ∃ a t history, s.worlds[w]? = some a ∧ s.tables[a]? = some t ∧
      told.worlds[w]? = some history ∧ t.world = ofInsertions history := by
  have hcontent : (s.worlds[w]?).map (content? s.tables) =
      (told.worlds[w]?).map fun history => some (ofInsertions history) := by
    rw [← List.getElem?_map, ← List.getElem?_map]
    exact congrArg (·[w]?) h.contents
  rcases hw : s.worlds[w]? with _ | a <;> rcases htold : told.worlds[w]? with _ | history <;>
    simp only [hw, htold, Option.map_none, Option.map_some, reduceCtorEq] at hcontent
  · exact .inl ⟨rfl, rfl⟩
  · obtain ⟨t, ht, hworld⟩ := Option.map_eq_some_iff.mp (Option.some.inj hcontent)
    exact .inr ⟨a, t, history, rfl, ht, rfl, hworld⟩

theorem exists_history {w : Nat} (hw : w < s.worlds.length) :
    ∃ history, told.worlds[w]? = some history := by
  rcases h.world_cases w with ⟨hnone, -⟩ | ⟨-, -, history, -, -, htold, -⟩
  · exact absurd (List.getElem?_eq_none_iff.mp hnone) (Nat.not_le_of_lt hw)
  · exact ⟨history, htold⟩

theorem create : s.create.Follows (told.record .create) where
  sound := h.sound.create
  contents := by
    have hkeep : s.worlds.map (content? s.create.tables) = s.contents :=
      contents_of_keep fun b hb => content?_append_left (h.sound.lt_of_mem hb)
    have hself : content? s.create.tables s.tables.length = some empty :=
      content?_append_self _ _
    have hcontents : s.create.contents = s.contents ++ [some empty] := by
      rw [← hkeep, ← hself]
      exact List.map_append
    rw [hcontents, h.contents, Histories.record, List.map_append]
    rfl
  views := by
    have hkeep : s.create.views = s.views :=
      views_of_keep fun b hb => content?_append_left (h.sound.lt_of_mem hb)
    exact hkeep.trans h.views

theorem insert {w a : Nat} {t : SharedTable} {history : List Insertion} (what : Insertion)
    (hw : s.worlds[w]? = some a) (ht : s.tables[a]? = some t)
    (htold : told.worlds[w]? = some history) (hworld : t.world = ofInsertions history) :
    (s.insertInto w a t what).Follows (told.record (.insert w what)) where
  sound := by
    rw [insertInto]
    split
    · exact h.sound.changeTable ht
    · exact h.sound.changeCopy hw ht
  contents := by
    have hput : t.world.put what = ofInsertions (history ++ [what]) := by
      rw [hworld, ofInsertions_concat]
    rw [contents_insertInto h.sound hw ht, h.contents, hput, Histories.record,
      List.modify_eq_set_getElem?, htold]
    exact List.map_set.symm
  views := (views_insertInto h.sound hw ht).trans h.views

section Retain

variable {w a : Nat} {t : SharedTable} {history : List Insertion}
  (ht : s.tables[a]? = some t) (htold : told.worlds[w]? = some history)
  (hworld : t.world = ofInsertions history)

include ht hworld in
omit h in
theorem content?_retained : content? (retain s.tables a) a = some (ofInsertions history) := by
  rw [content?_retain, content?, ht, Option.map_some, hworld]

include ht htold hworld

theorem clone : (Sharing.mk (retain s.tables a) (s.worlds ++ [a]) s.regions).Follows
    (told.record (.clone w)) where
  sound := by
    have ha := (List.getElem?_eq_some_iff.mp ht).1
    refine h.sound.retain ha rfl ?_
    rw [held, held, List.append_assoc]
    exact List.perm_middle
  contents := by
    rw [Sharing.contents, List.map_append, contents_of_keep fun _ _ => content?_retain, h.contents,
      List.map_singleton, content?_retained ht hworld, Histories.record, htold, List.map_append]
    rfl
  views := (views_of_keep fun _ _ => content?_retain).trans h.views

theorem openRegion (coord : RegionCoord) :
    (Sharing.mk (retain s.tables a) s.worlds (s.regions ++ [(coord, a)])).Follows
      (told.record (.openRegion w coord)) where
  sound := by
    have ha := (List.getElem?_eq_some_iff.mp ht).1
    refine h.sound.retain ha rfl ?_
    rw [held, held, List.map_append, ← List.append_assoc]
    exact List.perm_append_singleton a _
  contents := (contents_of_keep fun _ _ => content?_retain).trans h.contents
  views := by
    rw [Sharing.views, List.map_append, views_of_keep fun _ _ => content?_retain, h.views,
      List.map_singleton, content?_retained ht hworld, Histories.record, htold, List.map_append]
    rfl

end Retain

/-- Sharing does not show: one step keeps the worlds and regions to their
histories. -/
theorem step (op : WorldOp) : (s.step op).Follows (told.record op) := by
  cases op with
  | create => exact h.create
  | insert w what =>
      rw [Sharing.step]
      rcases h.world_cases w with ⟨hw, htold⟩ | ⟨a, t, history, hw, ht, htold, hworld⟩
      · have hsame : told.record (.insert w what) = told := by
          rw [Histories.record, List.modify_eq_set_getElem?, htold]
          rfl
        rw [hw, hsame]
        exact h
      · simp only [hw, ht]
        exact h.insert what hw ht htold hworld
  | clone w =>
      rw [Sharing.step]
      rcases h.world_cases w with ⟨hw, htold⟩ | ⟨a, t, history, hw, ht, htold, hworld⟩
      · rw [hw, Histories.record, htold, Option.toList_none, List.append_nil]
        exact h
      · rw [hw]
        exact h.clone ht htold hworld
  | openRegion w coord =>
      rw [Sharing.step]
      rcases h.world_cases w with ⟨hw, htold⟩ | ⟨a, t, history, hw, ht, htold, hworld⟩
      · rw [hw, Histories.record, htold, Option.toList_none, List.map_nil, List.append_nil]
        exact h
      · rw [hw]
        exact h.openRegion ht htold hworld coord

theorem foldl (ops : List WorldOp) :
    (ops.foldl Sharing.step s).Follows (ops.foldl Histories.record told) := by
  induction ops generalizing s told with
  | nil => exact h
  | cons op ops ih => exact ih (h.step op)

end Follows

theorem follows_run (ops : List WorldOp) : (run ops).Follows (Histories.ofOps ops) :=
  follows_start.foldl ops

end Sharing

namespace Histories

theorem ofOps_append (before after : List WorldOp) :
    ofOps (before ++ after) = after.foldl record (ofOps before) := by
  rw [ofOps, ofOps, List.foldl_append]

/-- Once opened, a region keeps its number and its history. -/
theorem regions_prefix_foldl (told : Histories) (ops : List WorldOp) :
    told.regions <+: (ops.foldl record told).regions := by
  induction ops generalizing told with
  | nil => exact List.prefix_refl _
  | cons op ops ih =>
      refine List.IsPrefix.trans ?_ (ih (told.record op))
      cases op with
      | openRegion w coord => exact List.prefix_append _ _
      | _ => exact List.prefix_refl _

/-- The history of a world goes on only where something is put into that world. -/
theorem worlds_foldl {told : Histories} {w : Nat} {history : List Insertion}
    (h : told.worlds[w]? = some history) {ops : List WorldOp}
    (hops : ∀ what, .insert w what ∉ ops) : (ops.foldl record told).worlds[w]? = some history := by
  induction ops generalizing told with
  | nil => exact h
  | cons op ops ih =>
      have hlength : w < told.worlds.length := (List.getElem?_eq_some_iff.mp h).1
      refine ih ?_ fun what hmem => hops what (List.mem_cons_of_mem _ hmem)
      cases op with
      | create => exact (List.getElem?_append_left hlength).trans h
      | clone v => exact (List.getElem?_append_left hlength).trans h
      | openRegion v coord => exact h
      | insert v what =>
          have hv : v ≠ w := by
            rintro rfl
            exact hops what List.mem_cons_self
          exact (List.getElem?_modify_ne _ _ hv).trans h

end Histories

namespace Sharing

open MemoryWorld

theorem region?_run {before : List WorldOp} {w : Nat} {history : List Insertion}
    (h : (Histories.ofOps before).worlds[w]? = some history) (coord : RegionCoord)
    (after : List WorldOp) :
    (run (before ++ .openRegion w coord :: after)).region? (run before).regions.length =
      some ((ofInsertions history).openRegion coord) := by
  obtain ⟨later, hlater⟩ :=
    ((Histories.ofOps before).record (.openRegion w coord)).regions_prefix_foldl after
  rw [(follows_run _).region?_eq, (follows_run before).length_regions, Histories.ofOps_append,
    List.foldl_cons, ← hlater, Histories.record, h, Option.toList_some, List.map_singleton,
    List.append_assoc, List.singleton_append, List.getElem?_append_right (Nat.le_refl _),
    Nat.sub_self, List.getElem?_cons_zero, Option.map_some]

/-- **Regions read snapshots.** Whatever is done with some worlds before and
after, a region that is opened answers from the history that its world had then,
for each of its chunks with what was put last at the absolute position of the
chunk. Each position is read in one slot of one region. A world holds at each
position what its own history put there last, counts the positions of its
history, and does not change while nothing is put into it. -/
theorem regions_read_snapshots :
    (∀ before after w coord, w < (run before).worlds.length → Scheduler.InReach coord →
      ∃ (history : List Insertion) (handle : RegionHandle),
        (Histories.ofOps before).worlds[w]? = some history ∧
        (run (before ++ .openRegion w coord :: after)).region? (run before).regions.length =
          some handle ∧
        handle.coord = coord ∧
        ∀ cx < regionChunks, ∀ cz < regionChunks,
          let ax := coord.x * regionChunks + cx
          let az := coord.z * regionChunks + cz
          (Decimal.inInt32 ax ∧ Decimal.inInt32 az) ∧
            handle.chunk cx cz = answer cx cz (lastAt history ax az)) ∧
    (∀ ax az, Decimal.inInt32 ax → Decimal.inInt32 az →
      ∃! slot : Slot, slot.IsProper ∧ slot.Reads (ax, az)) ∧
    ∀ ops w, w < (run ops).worlds.length →
      ∃ (history : List Insertion) (world : MemoryWorld),
        (Histories.ofOps ops).worlds[w]? = some history ∧
        (run ops).world? w = some world ∧
        (∀ x z, world.entries[(x, z)]? = lastAt history x z) ∧
        world.size = (history.map Insertion.place).toFinset.card ∧
        ∀ after, (∀ what, .insert w what ∉ after) → (run (ops ++ after)).world? w = some world := by
  refine ⟨?_, ?_, ?_⟩
  · intro before after w coord hw hreach
    obtain ⟨history, hhistory⟩ := (follows_run before).exists_history hw
    refine ⟨history, _, hhistory, region?_run hhistory coord after, rfl, ?_⟩
    intro cx hcx cz hcz ax az
    have hproper : (Slot.mk coord cx cz).IsProper := ⟨hreach, hcx, hcz⟩
    have hposition : coord.chunkAt cx cz = (ax, az) := hproper.position_eq
    have hwords := hproper.position_inInt32
    rw [hproper.position_eq] at hwords
    refine ⟨hwords, ?_⟩
    rw [chunk_openRegion, hposition, entries_ofInsertions]
  · intro ax az hx hz
    exact Slot.existsUnique_reads hx hz
  · intro ops w hw
    obtain ⟨history, hhistory⟩ := (follows_run ops).exists_history hw
    refine ⟨history, ofInsertions history, hhistory, ?_, entries_ofInsertions history, ?_, ?_⟩
    · rw [(follows_run ops).world?_eq, hhistory, Option.map_some]
    · exact size_ofInsertions history
    · intro after hafter
      rw [(follows_run _).world?_eq, Histories.ofOps_append, Histories.worlds_foldl hhistory hafter,
        Option.map_some]

/-- The clone of a world is marked corrupt where both hold a chunk, and regions
opened before the chunk and the mark change places keep to what they saw. -/
theorem clones_part :
    let before : List WorldOp := [.create, .insert 0 (.chunk (-1) 3 .empty), .clone 0,
      .insert 1 (.corrupt (-1) 3)]
    let after : List WorldOp := [.insert 0 (.corrupt (-1) 3), .insert 1 (.chunk (-1) 3 .empty)]
    (run before).worlds.length = 2 ∧
    (∃ handle : RegionHandle,
      (run (before ++ .openRegion 0 ⟨-1, 0⟩ :: after)).region? 0 = some handle ∧
      handle.chunk 31 3 = .ok (some Chunk.PaintedChunk.empty.view)) ∧
    (∃ handle : RegionHandle,
      (run (before ++ .openRegion 1 ⟨-1, 0⟩ :: after)).region? 0 = some handle ∧
      handle.chunk 31 3 = .fail (.decode 31 3 .markedCorrupt)) ∧
    (∃! slot : Slot, slot.IsProper ∧ slot.Reads (-1, 3)) ∧
    ∃ world, (run (before ++ [.insert 1 (.corrupt 5 5)])).world? 0 = some world ∧
      world.size = 1 := by
  intro before after
  obtain ⟨hopened, hread, hworlds⟩ := regions_read_snapshots
  have hlength : (run before).worlds.length = 2 := rfl
  have hzero : 0 < (run before).worlds.length := by omega
  have hone : 1 < (run before).worlds.length := by omega
  have hreach : Scheduler.InReach ⟨-1, 0⟩ := by simp [Scheduler.InReach]
  have hcx : 31 < regionChunks := by simp [regionChunks]
  have hcz : 3 < regionChunks := by simp [regionChunks]
  refine ⟨hlength, ?_, ?_, hread (-1) 3 rfl rfl, ?_⟩
  · obtain ⟨_, handle, hhistory, hhandle, -, hanswers⟩ :=
      hopened before after 0 ⟨-1, 0⟩ hzero hreach
    cases hhistory
    exact ⟨handle, hhandle, (hanswers 31 hcx 3 hcz).2⟩
  · obtain ⟨_, handle, hhistory, hhandle, -, hanswers⟩ := hopened before after 1 ⟨-1, 0⟩ hone hreach
    cases hhistory
    exact ⟨handle, hhandle, (hanswers 31 hcx 3 hcz).2⟩
  · obtain ⟨_, world, hhistory, -, -, hsize, hlater⟩ := hworlds before 0 hzero
    cases hhistory
    exact ⟨world, hlater [.insert 1 (.corrupt 5 5)] (by simp), hsize⟩

end Sharing

end TerrainMap
