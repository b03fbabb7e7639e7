import Mathlib.Data.List.NodupEquivFin
import TerrainMap.Proofs.World.Memory

/-!
Worlds in memory that share their tables. A world that is cloned, or opened for
a region, does not copy its chunks: the clone and the region hold the same
table, and the table counts who holds it. What is put into a world changes its
table in place where nobody else holds it, and otherwise a copy, so that
nobody else sees it.
-/

namespace TerrainMap

/-- A table of chunks, and how many hold it. -/
structure SharedTable where
  world : MemoryWorld
  holders : Nat

/-- Tables, and the worlds and opened regions that hold them. Tables are known
by their numbers, worlds and regions are numbered in the order they come up. -/
structure Sharing where
  tables : List SharedTable
  worlds : List Nat
  regions : List (RegionCoord × Nat)

/-- One thing that is done with some worlds. -/
inductive WorldOp where
  | create
  | insert (world : Nat) (what : Insertion)
  | clone (world : Nat)
  | openRegion (world : Nat) (coord : RegionCoord)

namespace Sharing

def start : Sharing := ⟨[], [], []⟩

def create (s : Sharing) : Sharing :=
  { s with tables := s.tables ++ [⟨.empty, 1⟩], worlds := s.worlds ++ [s.tables.length] }

/-- Counts one more holder of a table. -/
def retain (tables : List SharedTable) (a : Nat) : List SharedTable :=
  tables.modify a fun t => { t with holders := t.holders + 1 }

/-- Puts something into the table `t` of number `a`. -/
def changeTable (s : Sharing) (a : Nat) (t : SharedTable) (what : Insertion) : Sharing :=
  { s with tables := s.tables.set a { t with world := t.world.put what } }

/-- Lets the world `w` go of the table `t` of number `a`, and hold a copy of it
with something put into it. -/
def changeCopy (s : Sharing) (w a : Nat) (t : SharedTable) (what : Insertion) : Sharing :=
  { s with
    tables := s.tables.set a { t with holders := t.holders - 1 } ++ [⟨t.world.put what, 1⟩]
    worlds := s.worlds.set w s.tables.length }

/-- Puts something into the world `w`. A table that others hold as well is left
to them. -/
def insertInto (s : Sharing) (w a : Nat) (t : SharedTable) (what : Insertion) : Sharing :=
  if t.holders = 1 then s.changeTable a t what else s.changeCopy w a t what

/-- Does one thing. Where the world does not exist, nothing is done. -/
def step (s : Sharing) : WorldOp → Sharing
  | .create => s.create
  | .insert w what =>
    match s.worlds[w]? with
    | some a =>
      match s.tables[a]? with
      | some t => s.insertInto w a t what
      | none => s
    | none => s
  | .clone w =>
    match s.worlds[w]? with
    | some a => { s with tables := retain s.tables a, worlds := s.worlds ++ [a] }
    | none => s
  | .openRegion w coord =>
    match s.worlds[w]? with
    | some a => { s with tables := retain s.tables a, regions := s.regions ++ [(coord, a)] }
    | none => s

def run (ops : List WorldOp) : Sharing := ops.foldl step start

def content? (tables : List SharedTable) (a : Nat) : Option MemoryWorld :=
  tables[a]?.map SharedTable.world

def holders (tables : List SharedTable) (a : Nat) : Nat :=
  (tables[a]?.map SharedTable.holders).getD 0

/-- What the worlds hold. -/
def contents (s : Sharing) : List (Option MemoryWorld) := s.worlds.map (content? s.tables)

/-- What the opened regions answer from. -/
def views (s : Sharing) : List (RegionCoord × Option MemoryWorld) :=
  s.regions.map fun r => (r.1, content? s.tables r.2)

/-- The opened region of a number. -/
def region? (s : Sharing) (k : Nat) : Option RegionHandle :=
  s.views[k]?.bind fun v => v.2.map (·.openRegion v.1)

def world? (s : Sharing) (w : Nat) : Option MemoryWorld := s.contents[w]?.join

/-! ### Tables -/

section Tables

variable {tables : List SharedTable} {a b : Nat} {t : SharedTable}

theorem content?_append_left (hb : b < tables.length) :
    content? (tables ++ [t]) b = content? tables b := by
  rw [content?, content?, List.getElem?_append_left hb]

theorem content?_append_self (tables : List SharedTable) (t : SharedTable) :
    content? (tables ++ [t]) tables.length = some t.world := by
  rw [content?, List.getElem?_concat_length, Option.map_some]

theorem content?_set (ha : a < tables.length) :
    content? (tables.set a t) b = if a = b then some t.world else content? tables b := by
  simp only [content?, List.getElem?_set, ha, if_true]
  split <;> rfl

theorem content?_retain : content? (retain tables a) b = content? tables b := by
  simp only [content?, retain, List.getElem?_modify]
  rcases tables[b]? with _ | u
  · rfl
  · by_cases hab : a = b <;> simp [hab]

theorem holders_append :
    holders (tables ++ [t]) b = holders tables b + if tables.length = b then t.holders else 0 := by
  rcases Nat.lt_trichotomy b tables.length with hb | rfl | hb
  · rw [holders, holders, List.getElem?_append_left hb, if_neg (Nat.ne_of_gt hb), Nat.add_zero]
  · simp [holders]
  · have hlength : (tables ++ [t]).length ≤ b := by
      rw [List.length_append, List.length_singleton]
      exact hb
    rw [holders, holders, List.getElem?_eq_none hlength, List.getElem?_eq_none (Nat.le_of_lt hb),
      if_neg (Nat.ne_of_lt hb), Nat.add_zero]

theorem holders_set (ha : a < tables.length) :
    holders (tables.set a t) b = if a = b then t.holders else holders tables b := by
  simp only [holders, List.getElem?_set, ha, if_true]
  split <;> rfl

theorem holders_retain (ha : a < tables.length) :
    holders (retain tables a) b = holders tables b + if a = b then 1 else 0 := by
  simp only [holders, retain, List.getElem?_modify]
  by_cases hab : a = b
  · subst hab
    simp [List.getElem?_eq_getElem ha]
  · simp [hab]

end Tables

/-! ### Counting -/

/-- The tables that are held, each as often as it is. -/
def held (s : Sharing) : List Nat := s.worlds ++ s.regions.map Prod.snd

/-- The counts of the tables are right. In particular a table that is counted once
is held by one world or one region, and a table that is held is there. -/
def Sound (s : Sharing) : Prop := ∀ a, s.held.count a = holders s.tables a

/-- What is held once is held in one place. -/
theorem ne_of_count_eq_one {l : List Nat} {i j a b : Nat} (hcount : l.count a = 1)
    (hi : l[i]? = some a) (hj : l[j]? = some b) (hne : j ≠ i) : a ≠ b := by
  rintro rfl
  obtain ⟨hi', hia⟩ := List.getElem?_eq_some_iff.mp hi
  obtain ⟨hj', hja⟩ := List.getElem?_eq_some_iff.mp hj
  have htwice : l.Duplicate a := by
    rw [List.duplicate_iff_exists_distinct_get]
    rcases Nat.lt_or_gt_of_ne hne with hlt | hlt
    · exact ⟨⟨j, hj'⟩, ⟨i, hi'⟩, hlt, hja.symm, hia.symm⟩
    · exact ⟨⟨i, hi'⟩, ⟨j, hj'⟩, hlt, hia.symm, hja.symm⟩
  have htwo := List.duplicate_iff_two_le_count.mp htwice
  omega

section Keep

variable {s : Sharing} {tables : List SharedTable}
  (hkeep : ∀ b ∈ s.held, content? tables b = content? s.tables b)
include hkeep

theorem contents_of_keep : s.worlds.map (content? tables) = s.contents :=
  List.map_congr_left fun b hb => hkeep b (List.mem_append_left _ hb)

theorem views_of_keep : s.regions.map (fun r => (r.1, content? tables r.2)) = s.views := by
  refine List.map_congr_left ?_
  intro r hr
  rw [hkeep r.2 (List.mem_append_right _ (List.mem_map_of_mem hr))]

end Keep

namespace Sound

variable {s : Sharing} (h : s.Sound)
include h

theorem lt_of_mem {a : Nat} (ha : a ∈ s.held) : a < s.tables.length := by
  by_contra hlength
  have hcount := h a
  rw [holders, List.getElem?_eq_none (Nat.le_of_not_lt hlength)] at hcount
  exact List.count_eq_zero.mp hcount ha

theorem create : s.create.Sound := by
  intro b
  have hcount : s.create.held.count b = s.held.count b + if s.tables.length = b then 1 else 0 := by
    simp only [Sharing.create, held, List.count_append, List.count_singleton, beq_iff_eq]
    omega
  rw [hcount, Sharing.create, holders_append, h b]

/-- Whoever comes to hold a table is counted. -/
theorem retain {s' : Sharing} {a : Nat} (ha : a < s.tables.length)
    (htables : s'.tables = Sharing.retain s.tables a)
    (hheld : s'.held.Perm (a :: s.held)) : s'.Sound := by
  intro b
  rw [hheld.count_eq, htables, holders_retain ha, List.count_cons, h b]
  simp only [beq_iff_eq]

end Sound

section Change

variable {s : Sharing} {w a : Nat} {t : SharedTable} {what : Insertion}

theorem Sound.holders_eq (h : s.Sound) (ht : s.tables[a]? = some t) :
    t.holders = s.held.count a := by
  rw [h a, holders, ht]
  rfl

theorem Sound.changeTable (h : s.Sound) (ht : s.tables[a]? = some t) :
    (s.changeTable a t what).Sound := by
  intro b
  have ha : a < s.tables.length := (List.getElem?_eq_some_iff.mp ht).1
  rw [Sharing.changeTable, holders_set ha]
  split
  case isTrue hab =>
    subst hab
    exact (h.holders_eq ht).symm
  case isFalse => exact h b

theorem Sound.changeCopy (h : s.Sound) (hw : s.worlds[w]? = some a)
    (ht : s.tables[a]? = some t) : (s.changeCopy w a t what).Sound := by
  intro b
  have ha : a < s.tables.length := (List.getElem?_eq_some_iff.mp ht).1
  obtain ⟨hlength, hheld⟩ := List.getElem?_eq_some_iff.mp hw
  have hset : (s.changeCopy w a t what).held = s.held.set w s.tables.length :=
    (List.set_append_left w s.tables.length hlength).symm
  have hlength' : w < s.held.length := by
    rw [held, List.length_append]
    omega
  have hheld' : s.held[w] = a := by
    rw [← hheld]
    exact List.getElem_append_left hlength
  rw [hset, List.count_set hlength', hheld', Sharing.changeCopy, holders_append, holders_set ha,
    List.length_set]
  simp only [beq_iff_eq]
  by_cases hab : a = b
  · subst hab
    rw [if_pos rfl, if_pos rfl, h.holders_eq ht]
  · rw [if_neg hab, if_neg hab, h b, Nat.sub_zero]

theorem content?_changeCopy (ht : s.tables[a]? = some t) {b : Nat} (hb : b < s.tables.length) :
    content? (s.changeCopy w a t what).tables b = content? s.tables b := by
  have ha : a < s.tables.length := (List.getElem?_eq_some_iff.mp ht).1
  rw [changeCopy, content?_append_left (by rwa [List.length_set]), content?_set ha]
  split
  case isTrue hab =>
    subst hab
    rw [content?, ht, Option.map_some]
  case isFalse => rfl

/-- Nobody but the world `w` sees what is put into a table that it holds alone. -/
theorem Sound.count_eq_one (h : s.Sound) (hw : s.worlds[w]? = some a)
    (ht : s.tables[a]? = some t) (halone : t.holders = 1) :
    s.worlds.count a = 1 ∧ ∀ r ∈ s.regions, a ≠ r.2 := by
  have hcount := h.holders_eq ht
  rw [halone, held, List.count_append] at hcount
  have hpos := List.count_pos_iff.mpr (List.mem_of_getElem? hw)
  have hregions : (s.regions.map Prod.snd).count a = 0 := by omega
  refine ⟨by omega, ?_⟩
  rintro r hr rfl
  exact List.count_eq_zero.mp hregions (List.mem_map_of_mem hr)

theorem contents_insertInto (h : s.Sound) (hw : s.worlds[w]? = some a)
    (ht : s.tables[a]? = some t) :
    (s.insertInto w a t what).contents = s.contents.set w (some (t.world.put what)) := by
  have ha : a < s.tables.length := (List.getElem?_eq_some_iff.mp ht).1
  have hlength : w < s.worlds.length := (List.getElem?_eq_some_iff.mp hw).1
  rw [insertInto]
  split
  case isTrue halone =>
    -- the table changes under the world, so the other worlds must hold other tables
    obtain ⟨hcount, -⟩ := h.count_eq_one hw ht halone
    apply List.ext_getElem?
    intro v
    simp only [contents, changeTable, List.getElem?_map, List.getElem?_set, List.length_map,
      hlength, if_true]
    by_cases hv : w = v
    · subst hv
      rw [hw, if_pos rfl, Option.map_some, content?_set ha, if_pos rfl]
    · rw [if_neg hv]
      refine Option.map_congr ?_
      intro b hb
      rw [content?_set ha, if_neg (ne_of_count_eq_one hcount hw hb (Ne.symm hv))]
  case isFalse =>
    have hcopy : content? (s.changeCopy w a t what).tables s.tables.length =
        some (t.world.put what) := by
      have hlast := content?_append_self (s.tables.set a { t with holders := t.holders - 1 })
        ⟨t.world.put what, 1⟩
      rwa [List.length_set] at hlast
    have hkeep : s.worlds.map (content? (s.changeCopy w a t what).tables) = s.contents :=
      contents_of_keep fun b hb => content?_changeCopy ht (h.lt_of_mem hb)
    rw [← hcopy, ← hkeep, contents]
    exact List.map_set

theorem views_insertInto (h : s.Sound) (hw : s.worlds[w]? = some a)
    (ht : s.tables[a]? = some t) : (s.insertInto w a t what).views = s.views := by
  have ha : a < s.tables.length := (List.getElem?_eq_some_iff.mp ht).1
  rw [insertInto]
  split
  case isTrue halone =>
    obtain ⟨-, hregions⟩ := h.count_eq_one hw ht halone
    refine List.map_congr_left ?_
    intro r hr
    simp only [changeTable, content?_set ha, if_neg (hregions r hr)]
  case isFalse =>
    exact views_of_keep fun b hb => content?_changeCopy ht (h.lt_of_mem hb)

end Change

end Sharing

end TerrainMap
