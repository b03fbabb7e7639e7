import Mathlib.Data.List.Forall2
import Mathlib.Data.List.Induction
import TerrainMap.Proofs.Scheduler.Serial

/-!
Runs that may change what they read. A job of such a run opens its region in some
state that the sink has shown by then, and meets the sink in another, since
other jobs go on in between.

Where all these states have the same regions to open, such a run is told from one
over a world that stays as it is by nothing but the causes for which regions
cannot be opened. The relation that shows it is kept by every move, so what is
known of the runs over a steady world carries over to these.
-/

namespace TerrainMap

namespace JobOutcome

/-- Both jobs ended the same, or neither could open its region. -/
structure Alike (o o' : JobOutcome) : Prop where
  quadrant : o'.quadrant = o.quadrant
  output : o'.output = o.output
  result : o'.result = o.result ∨
    (∃ cause, o.result = .error (.opening cause)) ∧ ∃ cause, o'.result = .error (.opening cause)

section Alike

variable {o o' o'' : JobOutcome} {outcomes outcomes' outcomes'' : List JobOutcome}

theorem Alike.refl (o : JobOutcome) : o.Alike o := ⟨rfl, rfl, .inl rfl⟩

theorem Alike.ok_iff (h : o.Alike o') {report : TileReport} :
    o'.result = .ok report ↔ o.result = .ok report := by
  obtain hsame | ⟨⟨cause, hcause⟩, cause', hcause'⟩ := h.result
  · rw [hsame]
  · simp [hcause, hcause']

/-- Outcomes that are like the same one are like each other. -/
theorem Alike.between (h : o.Alike o') (h' : o.Alike o'') : o'.Alike o'' := by
  refine ⟨h'.quadrant.trans h.quadrant.symm, h'.output.trans h.output.symm, ?_⟩
  obtain hsame | ⟨hopening, hopening'⟩ := h.result
  · rw [hsame]
    exact h'.result
  · obtain hsame | ⟨-, hopening''⟩ := h'.result
    · rw [hsame]
      exact .inr ⟨hopening', hopening⟩
    · exact .inr ⟨hopening', hopening''⟩

theorem forall₂_between (h : outcomes.Forall₂ Alike outcomes')
    (h' : outcomes.Forall₂ Alike outcomes'') : outcomes'.Forall₂ Alike outcomes'' := by
  induction h generalizing outcomes'' with
  | nil =>
      rw [List.forall₂_nil_left_iff.mp h']
      exact .nil
  | cons ho _ ih =>
      obtain ⟨o'', rest, ho'', hrest, rfl⟩ := List.forall₂_cons_left_iff.mp h'
      exact .cons (ho.between ho'') (ih hrest)

theorem forall₂_symm (h : outcomes.Forall₂ Alike outcomes') :
    outcomes'.Forall₂ Alike outcomes :=
  forall₂_between h (List.forall₂_same.mpr fun o _ => .refl o)

theorem exists_alike (h : outcomes.Forall₂ Alike outcomes') (ho : o' ∈ outcomes') :
    ∃ o ∈ outcomes, o.Alike o' := by
  induction h with
  | nil => cases ho
  | cons halike _ ih =>
      rcases List.mem_cons.mp ho with rfl | ho
      · exact ⟨_, List.mem_cons_self, halike⟩
      · obtain ⟨o, ho, halike⟩ := ih ho
        exact ⟨o, List.mem_cons_of_mem _ ho, halike⟩

/-- What is the same of outcomes that are alike is the same of lists of them. -/
theorem map_eq_of_forall₂ {α : Type} {g : JobOutcome → α}
    (hg : ∀ o o', o.Alike o' → g o' = g o) (h : outcomes.Forall₂ Alike outcomes') :
    outcomes'.map g = outcomes.map g := by
  induction h with
  | nil => rfl
  | cons halike _ ih => rw [List.map_cons, List.map_cons, hg _ _ halike, ih]

end Alike

end JobOutcome

/-- The same regions open and are rendered alike. -/
structure Workshop.OpensAlike {σ : Type} (shop shop' : Workshop σ) : Prop where
  palette : shop'.palette = shop.palette
  sink : shop'.sink = shop.sink
  policy : shop'.policy = shop.policy
  openRegion : ∀ coord handle,
    shop'.world.openRegion coord = .ok handle ↔ shop.world.openRegion coord = .ok handle

namespace Scheduler

variable {σ : Type}

/-- The floors differ at most in causes for which regions were not opened. -/
structure Floor.Alike (f f' : Floor σ) : Prop where
  pending : f'.pending = f.pending
  running : f'.running = f.running
  reporting : f.reporting.Forall₂ JobOutcome.Alike f'.reporting
  channel : f.channel.Forall₂ JobOutcome.Alike f'.channel
  sinkState : f'.sinkState = f.sinkState

/-- Floors that a run comes to, with the states that its sink has shown on the
way. The workshop in which a job comes to its end is that of any of them. -/
inductive LiveReaches (shopAt : σ → Workshop σ) (directory : Path) (workers : Nat)
    (start : Floor σ) : List σ → Floor σ → Prop
  | start : LiveReaches shopAt directory workers start [start.sinkState] start
  | move {seen : List σ} {past : σ} {f g : Floor σ}
      (hreach : LiveReaches shopAt directory workers start seen f) (hpast : past ∈ seen)
      (hstep : Step (shopAt past) directory workers f g) :
      LiveReaches shopAt directory workers start (g.sinkState :: seen) g

/-- One complete execution of such a run, whatever its order. -/
structure LiveCompletes (shopAt : σ → Workshop σ) (directory : Path) (workers : Nat)
    (regions : List RegionCoord) (state : σ) (last : Floor σ) : Prop where
  reached : ∃ seen, LiveReaches shopAt directory workers (Floor.opening regions state) seen last
  done : last.IsDone

section Relation

variable {shop shop' : Workshop σ} {directory : Path} {workers : Nat} {f f' g' : Floor σ}

theorem Floor.Alike.refl (f : Floor σ) : f.Alike f :=
  have hsame (outcomes : List JobOutcome) : outcomes.Forall₂ JobOutcome.Alike outcomes :=
    List.forall₂_same.mpr fun o _ => .refl o
  ⟨rfl, rfl, hsame _, hsame _, rfl⟩

/-- A job makes the same of the sink in both workshops. -/
theorem outcomeFrom_alike (h : shop.OpensAlike shop') (directory : Path) (state : σ)
    (q : Quadrant) :
    (outcomeFrom shop directory state q).Alike (outcomeFrom shop' directory state q) ∧
      stateAfter shop' directory state q = stateAfter shop directory state q := by
  simp only [outcomeFrom, stateAfter, Workshop.renderQuadrant, Workshop.renderTile]
  cases hopen : shop.world.openRegion q.region with
  | ok handle =>
      rw [(h.openRegion q.region handle).mpr hopen, h.palette, h.sink, h.policy]
      exact ⟨⟨rfl, rfl, .inl rfl⟩, rfl⟩
  | error cause =>
      cases hopen' : shop'.world.openRegion q.region with
      | ok handle =>
          rw [(h.openRegion q.region handle).mp hopen'] at hopen
          cases hopen
      | error cause' => exact ⟨⟨rfl, rfl, .inr ⟨⟨cause, rfl⟩, cause', rfl⟩⟩, rfl⟩

/-- A list beside one with an element in its middle has such a middle as well. -/
theorem exists_middle_of_forall₂ {outcomes before after : List JobOutcome} {o' : JobOutcome}
    (h : outcomes.Forall₂ JobOutcome.Alike (before ++ o' :: after)) :
    ∃ before₀ o after₀, outcomes = before₀ ++ o :: after₀ ∧ o.Alike o' ∧
      (before₀ ++ after₀).Forall₂ JobOutcome.Alike (before ++ after) := by
  have hfront := List.forall₂_take_append _ _ _ h
  obtain ⟨o, after₀, ho, hback, hdrop⟩ :=
    List.forall₂_cons_right_iff.mp (List.forall₂_drop_append _ _ _ h)
  refine ⟨outcomes.take before.length, o, after₀, ?_, ho, List.rel_append hfront hback⟩
  rw [← hdrop, List.take_append_drop]

/-- Every move in one workshop is one in the other. -/
theorem Step.alike (h : Step shop' directory workers f' g') (hshop : shop.OpensAlike shop')
    (hf : f.Alike f') : ∃ g, Step shop directory workers f g ∧ g.Alike g' := by
  obtain ⟨pending, running, reporting, channel, state⟩ := f
  obtain ⟨hpending, hrunning, hreporting, hchannel, hstate⟩ := hf
  cases h with
  | start before after hfree =>
      subst hpending hrunning hstate
      rw [← hreporting.length_eq] at hfree
      exact ⟨_, .start before after hfree, rfl, rfl, hreporting, hchannel, rfl⟩
  | finish before after =>
      subst hpending hrunning hstate
      obtain ⟨hended, hafter⟩ := outcomeFrom_alike hshop directory _ _
      exact ⟨_, .finish before after, rfl, rfl, hreporting.cons hended, hchannel, hafter⟩
  | report before after =>
      subst hpending hrunning hstate
      obtain ⟨before₀, o, after₀, rfl, ho, hothers⟩ := exists_middle_of_forall₂ hreporting
      exact ⟨_, .report before₀ after₀, rfl, rfl, hothers,
        List.rel_append hchannel (.cons ho .nil), rfl⟩

/-- Outcomes that are alike one by one are so when they are handed back. -/
theorem forall₂_mergeSort {outcomes outcomes' : List JobOutcome}
    (h : outcomes.Forall₂ JobOutcome.Alike outcomes') :
    (outcomes.mergeSort fun a b => a.quadrant.le b.quadrant).Forall₂ JobOutcome.Alike
      (outcomes'.mergeSort fun a b => a.quadrant.le b.quadrant) := by
  -- both are sorted as their pairs are
  have hpairs : ∀ pair ∈ outcomes.zip outcomes', pair.1.Alike pair.2 := fun pair hpair =>
    List.forall₂_zip h hpair
  have hfst : (outcomes.zip outcomes').map Prod.fst = outcomes :=
    List.map_fst_zip (Nat.le_of_eq h.length_eq)
  have hsnd : (outcomes.zip outcomes').map Prod.snd = outcomes' :=
    List.map_snd_zip (Nat.le_of_eq h.length_eq.symm)
  generalize outcomes.zip outcomes' = pairs at hpairs hfst hsnd
  subst hfst hsnd
  have hleft := List.map_mergeSort (f := Prod.fst) (l := pairs)
    (r := fun a b => a.1.quadrant.le b.1.quadrant) (s := fun a b => a.quadrant.le b.quadrant)
    fun a ha b hb => rfl
  have hright := List.map_mergeSort (f := Prod.snd) (l := pairs)
    (r := fun a b => a.1.quadrant.le b.1.quadrant) (s := fun a b => a.quadrant.le b.quadrant)
    fun a ha b hb => by rw [(hpairs a ha).quadrant, (hpairs b hb).quadrant]
  rw [← hleft, ← hright, List.forall₂_map_left_iff, List.forall₂_map_right_iff, List.forall₂_same]
  exact fun pair hpair => hpairs pair (List.mem_mergeSort.mp hpair)

theorem Floor.Alike.collected (h : f.Alike f') :
    f.collected.Forall₂ JobOutcome.Alike f'.collected :=
  forall₂_mergeSort h.channel

end Relation

section Runs

variable {shopAt : σ → Workshop σ} {shop : Workshop σ} {directory : Path} {workers : Nat}
  {start f : Floor σ} {seen : List σ}

theorem LiveReaches.mem (h : LiveReaches shopAt directory workers start seen f) :
    f.sinkState ∈ seen := by
  cases h with
  | start => exact List.mem_singleton_self _
  | move hreach hpast hstep => exact List.mem_cons_self

/-- What jobs leave as it is in the state of the sink is so in all states that are
shown. -/
theorem LiveReaches.holds {P : σ → Prop} (h : LiveReaches shopAt directory workers start seen f)
    (hstart : P start.sinkState)
    (hjob : ∀ past state q, P past → P state → P (stateAfter (shopAt past) directory state q)) :
    ∀ past ∈ seen, P past := by
  induction h with
  | start => simpa using hstart
  | move hreach hpast hstep ih =>
      rename_i seen past f g
      refine List.forall_mem_cons.mpr ⟨?_, ih⟩
      have hf := ih _ hreach.mem
      obtain ⟨-, -, hsame⟩ | ⟨q, -, -, hafter⟩ := hstep.moves
      · rw [hsame]
        exact hf
      · rw [hafter]
        exact hjob past _ q (ih past hpast) hf

/-- Every outcome is that of a job in the workshop of a state that was shown. -/
theorem LiveReaches.exists_outcomeFrom
    (h : LiveReaches shopAt directory workers start seen f) (hstart : start.ended = []) :
    ∀ o ∈ f.ended, ∃ past ∈ seen, ∃ state q, o = outcomeFrom (shopAt past) directory state q := by
  induction h with
  | start => simp [hstart]
  | move hreach hpast hstep ih =>
      rename_i seen past f g
      intro o ho
      have hearlier (ho : o ∈ f.ended) : ∃ past ∈ g.sinkState :: seen, ∃ state q,
          o = outcomeFrom (shopAt past) directory state q := by
        obtain ⟨past, hpast, hjob⟩ := ih o ho
        exact ⟨past, List.mem_cons_of_mem _ hpast, hjob⟩
      obtain ⟨-, hended, -⟩ | ⟨q, -, hended, -⟩ := hstep.moves
      · exact hearlier (hended.subset ho)
      · rcases List.mem_cons.mp (hended ▸ ho) with rfl | ho
        · exact ⟨past, List.mem_cons_of_mem _ hpast, _, q, rfl⟩
        · exact hearlier ho

/-- Where the same regions open in all states that are shown, a run goes as one in
which they stay. -/
theorem LiveReaches.alike (h : LiveReaches shopAt directory workers start seen f)
    (hopens : ∀ past ∈ seen, shop.OpensAlike (shopAt past)) :
    ∃ f₀, Reaches shop directory workers start f₀ ∧ f₀.Alike f := by
  induction h with
  | start => exact ⟨start, .refl, .refl start⟩
  | move hreach hpast hstep ih =>
      obtain ⟨f₀, hf₀, halike⟩ := ih fun past hmem => hopens past (List.mem_cons_of_mem _ hmem)
      obtain ⟨g₀, hmove, halike⟩ := hstep.alike (hopens _ (List.mem_cons_of_mem _ hpast)) halike
      exact ⟨g₀, hf₀.tail hmove, halike⟩

theorem Floor.Alike.isDone {f₀ : Floor σ} (h : f₀.Alike f) (hf : f.IsDone) : f₀.IsDone := by
  obtain ⟨hpending, hrunning, hreporting⟩ := hf
  refine ⟨h.pending.symm.trans hpending, h.running.symm.trans hrunning, ?_⟩
  have hnone := h.reporting
  rw [hreporting] at hnone
  exact List.forall₂_nil_right_iff.mp hnone

end Runs

/-! ### Jobs one after the other -/

section Alone

variable (shopAt : σ → Workshop σ) (directory : Path) {workers : Nat} (hworkers : 0 < workers)
  (state : σ)
include hworkers

/-- A worker that is left to itself starts each job when the one before it is
done with. -/
theorem liveReaches_runJobsAt (order rest : List Quadrant) :
    let run := runJobsAt shopAt directory order state
    ∃ seen, LiveReaches shopAt directory workers ⟨order ++ rest, [], [], [], state⟩ seen
      ⟨rest, [], [], run.outcomes.reverse, run.sinkState⟩ := by
  induction order using List.reverseRecOn generalizing rest with
  | nil => exact ⟨[state], .start⟩
  | append_singleton order q ih =>
      obtain ⟨seen, hreach⟩ := ih (q :: rest)
      obtain ⟨hlast, hafter⟩ := runJobsAt_append_singleton shopAt directory order q state
      simp only [List.append_assoc, List.cons_append, List.nil_append, hlast, hafter,
        List.reverse_cons]
      have htaken := hreach.move hreach.mem (.start [] rest hworkers)
      have hended := htaken.move htaken.mem (.finish [] [])
      exact ⟨_, hended.move hended.mem (.report [] [])⟩

/-- A run whose jobs are done one after the other is one of these executions. -/
theorem exists_liveCompletes_runAt (s : Scheduler) (worldAt : σ → WorldStore) (palette : Palette)
    (sink : Sink σ) (regions : List RegionCoord) :
    let run := s.runAt worldAt palette sink regions directory state
    ∃ last, LiveCompletes (fun past => ⟨worldAt past, palette, sink, s.policy⟩) directory workers
        regions state last ∧
      last.collected = run.outcomes ∧ last.sinkState = run.sinkState := by
  obtain ⟨seen, hreach⟩ := liveReaches_runJobsAt
    (fun past => ⟨worldAt past, palette, sink, s.policy⟩) directory hworkers state (jobs regions) []
  rw [List.append_nil] at hreach
  exact ⟨_, ⟨⟨seen, hreach⟩, rfl, rfl, rfl⟩, rfl, rfl⟩

end Alone

end Scheduler

end TerrainMap
