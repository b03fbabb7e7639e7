import Mathlib.Data.List.Basic
import Mathlib.Order.Bounds.Basic
import TerrainMap.Column

/-!
What a scan finds in a column, said without the scan. From above, the highest
opaque block below some limit is seen, or nothing where there is none. In the
overworld the limit is the top of the world. In the nether it is the highest
gap under the ceiling: until it meets the gap a scan is closed, and from there
on it sees what an open one sees. All that the scan cannot see is read off
these two descriptions.
-/

namespace TerrainMap

namespace Block

theorem isTransparent_iff {name : String} :
    isTransparent name = true ↔ normalize name ∈ airNames := by
  constructor
  · intro h
    have hall : ∀ name ∈ transparentNames, normalize name ∈ airNames := by decide
    exact hall name (List.contains_iff_mem.mp h)
  · intro h
    rw [isTransparent, List.contains_iff_mem, transparentNames, List.mem_append, List.mem_map]
    rw [normalize] at h
    split at h
    · rename_i rest hprefix
      refine .inr ⟨_, h, ?_⟩
      apply String.toList_injective
      rw [String.toList_append, String.toList_ofList]
      exact List.isPrefixOf?_eq_some_iff_append_eq.mp hprefix
    · exact .inl h

end Block

namespace Column

variable {chunk chunk' : ChunkView} {x z limit : Nat}

/-- The block at the height `y` of a column is one of the kinds of air, with or
without the vanilla namespace. -/
def IsClear (chunk : ChunkView) (x z y : Nat) : Prop :=
  Block.normalize (chunk.blockId x y z) ∈ Block.airNames

instance (chunk : ChunkView) (x z y : Nat) : Decidable (IsClear chunk x z y) :=
  inferInstanceAs (Decidable (_ ∈ _))

theorem isTransparent_iff_isClear {y : Nat} :
    Block.isTransparent (chunk.blockId x y z) = true ↔ IsClear chunk x z y :=
  Block.isTransparent_iff

section Greatest

variable {p : Nat → Prop} {n : Nat}

theorem isGreatest_below_succ (hn : p n) : IsGreatest {y | y < n + 1 ∧ p y} n :=
  ⟨⟨Nat.lt_succ_self n, hn⟩, fun _ hy => Nat.lt_succ_iff.mp hy.1⟩

theorem setOf_below_succ (hn : ¬ p n) : {y | y < n + 1 ∧ p y} = {y | y < n ∧ p y} := by
  ext y
  refine and_congr_left fun hy => ?_
  have hne : y ≠ n := by
    rintro rfl
    exact hn hy
  omega

end Greatest

/-- What shows of a column whose heights from `limit` on are taken away: its
highest block that is not clear. -/
inductive Shows (chunk : ChunkView) (x z limit : Nat) : Column → Prop
  | block {y : Nat} (htop : IsGreatest {y | y < limit ∧ ¬ IsClear chunk x z y} y) :
      Shows chunk x z limit (.block (chunk.blockId x y z) y)
  | empty (hclear : ∀ y < limit, IsClear chunk x z y) : Shows chunk x z limit .empty

theorem Shows.unique {c c' : Column} (h : Shows chunk x z limit c)
    (h' : Shows chunk x z limit c') : c = c' := by
  cases h with
  | block htop =>
      cases h' with
      | block htop' => rw [htop.unique htop']
      | empty hclear => exact absurd (hclear _ htop.1.1) htop.1.2
  | empty hclear =>
      cases h' with
      | block htop => exact absurd (hclear _ htop.1.1) htop.1.2
      | empty => rfl

theorem Shows.block_iff {c : Column} (h : Shows chunk x z limit c) (id : String) (e : Int) :
    c = .block id e ↔
      ∃ y : Nat, IsGreatest {y | y < limit ∧ ¬ IsClear chunk x z y} y ∧
        e = y ∧ id = chunk.blockId x y z := by
  constructor
  · rintro rfl
    cases h with
    | block htop => exact ⟨_, htop, rfl, rfl⟩
  · rintro ⟨y, htop, rfl, rfl⟩
    exact h.unique (.block htop)

theorem Shows.empty_iff {c : Column} (h : Shows chunk x z limit c) :
    c = .empty ↔ ∀ y < limit, IsClear chunk x z y := by
  constructor
  · rintro rfl
    cases h with
    | empty hclear => exact hclear
  · intro hclear
    exact h.unique (.empty hclear)

/-! ### Open and closed scans -/

/-- An open scan stops at the first block it meets. -/
theorem shows_scanBelow (chunk : ChunkView) (x z limit : Nat) :
    Shows chunk x z limit (scanBelow chunk x z true limit) := by
  induction limit with
  | zero => exact .empty fun y hy => absurd hy (Nat.not_lt_zero y)
  | succ n ih =>
      rw [scanBelow]
      by_cases hn : IsClear chunk x z n
      · simp only [isTransparent_iff_isClear.mpr hn, if_true]
        have hset := setOf_below_succ (p := fun y => ¬ IsClear chunk x z y) (not_not_intro hn)
        cases hscan : scanBelow chunk x z true n with
        | block id e =>
            obtain ⟨y, htop, rfl, rfl⟩ := (ih.block_iff id e).mp hscan
            exact .block (hset ▸ htop)
        | empty =>
            refine .empty fun y hy => ?_
            rcases Nat.lt_succ_iff_lt_or_eq.mp hy with hlt | rfl
            · exact ih.empty_iff.mp hscan y hlt
            · exact hn
      · simp only [Bool.eq_false_iff.mpr (mt isTransparent_iff_isClear.mp hn),
          Bool.false_eq_true, if_false, if_true]
        exact .block (isGreatest_below_succ hn)

/-- A closed scan finds nothing before it has met a gap, and opens at the
first. -/
theorem scanBelow_closed (chunk : ChunkView) (x z limit : Nat) :
    ((∀ y < limit, ¬ IsClear chunk x z y) ∧ scanBelow chunk x z false limit = .empty) ∨
      ∃ g, IsGreatest {y | y < limit ∧ IsClear chunk x z y} g ∧
        scanBelow chunk x z false limit = scanBelow chunk x z true g := by
  induction limit with
  | zero => exact .inl ⟨fun y hy => absurd hy (Nat.not_lt_zero y), rfl⟩
  | succ n ih =>
      rw [scanBelow]
      by_cases hn : IsClear chunk x z n
      · simp only [isTransparent_iff_isClear.mpr hn, if_true]
        exact .inr ⟨n, isGreatest_below_succ hn, rfl⟩
      · simp only [Bool.eq_false_iff.mpr (mt isTransparent_iff_isClear.mp hn),
          Bool.false_eq_true, if_false]
        rcases ih with ⟨hsolid, hscan⟩ | ⟨g, hgap, hscan⟩
        · refine .inl ⟨fun y hy => ?_, hscan⟩
          rcases Nat.lt_succ_iff_lt_or_eq.mp hy with hlt | rfl
          · exact hsolid y hlt
          · exact hn
        · rw [← setOf_below_succ hn] at hgap
          exact .inr ⟨g, hgap, hscan⟩

/-- A scan looks at nothing from its limit on. -/
theorem scanBelow_congr {isOpen : Bool}
    (h : ∀ y < limit, chunk.blockId x y z = chunk'.blockId x y z) :
    scanBelow chunk x z isOpen limit = scanBelow chunk' x z isOpen limit := by
  induction limit generalizing isOpen with
  | zero => rfl
  | succ n ih =>
      have hbelow : ∀ isOpen, scanBelow chunk x z isOpen n = scanBelow chunk' x z isOpen n :=
        fun isOpen => ih fun y hy => h y (Nat.lt_succ_of_lt hy)
      simp only [scanBelow, h n (Nat.lt_succ_self n), hbelow]

/-! ### The two policies -/

theorem shows_overworld (chunk : ChunkView) (x z : Nat) :
    Shows chunk x z 256 (resolve chunk x z .overworld) :=
  shows_scanBelow chunk x z 256

/-- The height of the highest gap under the ceiling of the nether. -/
def IsGap (chunk : ChunkView) (x z g : Nat) : Prop :=
  IsGreatest {y | y < 128 ∧ IsClear chunk x z y} g

theorem IsGap.shows {g : Nat} (h : IsGap chunk x z g) :
    Shows chunk x z g (resolve chunk x z .nether) := by
  rcases scanBelow_closed chunk x z 128 with ⟨hsolid, -⟩ | ⟨g', hgap, hscan⟩
  · exact absurd h.1.2 (hsolid g h.1.1)
  · rw [IsGreatest.unique h hgap]
    have hopen := shows_scanBelow chunk x z g'
    rwa [← hscan] at hopen

theorem nether_of_solid (h : ∀ y < 128, ¬ IsClear chunk x z y) :
    resolve chunk x z .nether = .empty := by
  rcases scanBelow_closed chunk x z 128 with ⟨-, hscan⟩ | ⟨g, hgap, -⟩
  · exact hscan
  · exact absurd hgap.1.2 (h g hgap.1.1)

theorem solid_or_isGap (chunk : ChunkView) (x z : Nat) :
    (∀ y < 128, ¬ IsClear chunk x z y) ∨ ∃ g, IsGap chunk x z g := by
  rcases scanBelow_closed chunk x z 128 with ⟨hsolid, -⟩ | ⟨g, hgap, -⟩
  · exact .inl hsolid
  · exact .inr ⟨g, hgap⟩

theorem nether_eq_block_iff (chunk : ChunkView) (x z : Nat) (id : String) (e : Int) :
    resolve chunk x z .nether = .block id e ↔
      ∃ g, IsGap chunk x z g ∧
        ∃ y : Nat, IsGreatest {y | y < g ∧ ¬ IsClear chunk x z y} y ∧
          e = y ∧ id = chunk.blockId x y z := by
  constructor
  · intro hblock
    rcases solid_or_isGap chunk x z with hsolid | ⟨g, hgap⟩
    · simp [nether_of_solid hsolid] at hblock
    · exact ⟨g, hgap, (hgap.shows.block_iff id e).mp hblock⟩
  · rintro ⟨g, hgap, hy⟩
    exact (hgap.shows.block_iff id e).mpr hy

theorem nether_eq_empty_iff (chunk : ChunkView) (x z : Nat) :
    resolve chunk x z .nether = .empty ↔
      (¬ ∃ g, IsGap chunk x z g) ∨ ∃ g, IsGap chunk x z g ∧ ∀ y < g, IsClear chunk x z y := by
  rcases solid_or_isGap chunk x z with hsolid | ⟨g, hgap⟩
  · refine iff_of_true (nether_of_solid hsolid) (.inl ?_)
    rintro ⟨g, hgap⟩
    exact hsolid g hgap.1.1 hgap.1.2
  · rw [hgap.shows.empty_iff]
    constructor
    · intro hclear
      exact .inr ⟨g, hgap, hclear⟩
    · rintro (hnone | ⟨g', hgap', hclear⟩)
      · exact absurd ⟨g, hgap⟩ hnone
      · rwa [IsGreatest.unique hgap hgap']

/-! ### What does not matter -/

/-- The chunk without what hides its gaps: of a column only what lies at or
below some gap under the ceiling is left, and all else is air. -/
def unroofed (chunk : ChunkView) : ChunkView where
  blockId x y z :=
    if ∃ g : Nat, g < 128 ∧ y ≤ g ∧ IsClear chunk x z g then chunk.blockId x y z else Block.air

theorem IsGap.unroofed_blockId {g : Nat} (h : IsGap chunk x z g) (y : Nat) :
    (unroofed chunk).blockId x y z = if y ≤ g then chunk.blockId x y z else Block.air := by
  have hkept : (∃ g' : Nat, g' < 128 ∧ y ≤ g' ∧ IsClear chunk x z g') ↔ y ≤ g := by
    refine ⟨?_, fun hy => ⟨g, h.1.1, hy, h.1.2⟩⟩
    rintro ⟨g', hlt, hy, hclear⟩
    exact Nat.le_trans hy (h.2 ⟨hlt, hclear⟩)
  simp only [unroofed, hkept]

theorem isClear_of_eq_air {y : Nat} (h : chunk.blockId x y z = Block.air) :
    IsClear chunk x z y := by
  rw [IsClear, h]
  decide

theorem IsGap.not_isClear_unroofed_iff {g : Nat} (h : IsGap chunk x z g) (y : Nat) :
    ¬ IsClear (unroofed chunk) x z y ↔ y < g ∧ ¬ IsClear chunk x z y := by
  have hblock := h.unroofed_blockId y
  by_cases hy : y ≤ g
  · have hsame : IsClear (unroofed chunk) x z y ↔ IsClear chunk x z y := by
      rw [IsClear, IsClear, hblock, if_pos hy]
    rw [hsame, iff_and_self]
    intro hsolid
    have hne : y ≠ g := by
      rintro rfl
      exact hsolid h.1.2
    omega
  · rw [if_neg hy] at hblock
    refine iff_of_false (not_not_intro (isClear_of_eq_air hblock)) ?_
    omega

/-- Looking through the roof is looking at the world without it. -/
theorem resolve_unroofed (chunk : ChunkView) (x z : Nat) :
    resolve (unroofed chunk) x z .overworld = resolve chunk x z .nether := by
  have hshows := shows_overworld (unroofed chunk) x z
  rcases solid_or_isGap chunk x z with hsolid | ⟨g, hgap⟩
  · rw [nether_of_solid hsolid, hshows.empty_iff]
    intro y _
    have hnone : ¬ ∃ g : Nat, g < 128 ∧ y ≤ g ∧ IsClear chunk x z g := by
      rintro ⟨g, hlt, -, hclear⟩
      exact hsolid g hlt hclear
    apply isClear_of_eq_air
    simp only [unroofed, if_neg hnone]
  · have hopaque : {y | y < 256 ∧ ¬ IsClear (unroofed chunk) x z y} =
        {y | y < g ∧ ¬ IsClear chunk x z y} := by
      ext y
      have hlt : g < 128 := hgap.1.1
      show y < 256 ∧ ¬ IsClear (unroofed chunk) x z y ↔ y < g ∧ ¬ IsClear chunk x z y
      rw [hgap.not_isClear_unroofed_iff, and_iff_right_iff_imp]
      omega
    cases hnether : resolve chunk x z .nether with
    | block id e =>
        obtain ⟨y, htop, rfl, rfl⟩ := (hgap.shows.block_iff id e).mp hnether
        rw [hshows.block_iff]
        refine ⟨y, hopaque ▸ htop, rfl, ?_⟩
        rw [hgap.unroofed_blockId, if_pos (Nat.le_of_lt htop.1.1)]
    | empty =>
        have hclear := hgap.shows.empty_iff.mp hnether
        rw [hshows.empty_iff]
        intro y _
        by_contra hsolid
        obtain ⟨hlt, hnot⟩ := (hgap.not_isClear_unroofed_iff y).mp hsolid
        exact hnot (hclear y hlt)

/-- Nothing below the block that shows matters. -/
theorem Shows.of_above {id : String} {e : Int} (h : Shows chunk x z limit (.block id e))
    (hsame : ∀ y : Nat, e ≤ y → chunk'.blockId x y z = chunk.blockId x y z) :
    Shows chunk' x z limit (.block id e) := by
  cases h with
  | block htop =>
      rename_i y
      have hclear : ∀ y' : Nat, y ≤ y' → (IsClear chunk' x z y' ↔ IsClear chunk x z y') := by
        intro y' hy'
        rw [IsClear, IsClear, hsame y' (by omega)]
      rw [← hsame y le_rfl]
      refine .block ⟨⟨htop.1.1, mt (hclear y le_rfl).mp htop.1.2⟩, ?_⟩
      rintro y' ⟨hlt, hsolid⟩
      by_contra hgt
      exact hgt (htop.2 ⟨hlt, mt (hclear y' (by omega)).mpr hsolid⟩)

theorem resolve_of_above {policy : ScanPolicy} {id : String} {e : Int}
    (h : resolve chunk x z policy = .block id e)
    (hsame : ∀ y : Nat, e ≤ y → chunk'.blockId x y z = chunk.blockId x y z) :
    resolve chunk' x z policy = .block id e := by
  cases policy with
  | overworld =>
      have hshows : Shows chunk' x z 256 (.block id e) :=
        (h ▸ shows_overworld chunk x z).of_above hsame
      exact (shows_overworld chunk' x z).unique hshows
  | nether =>
      obtain ⟨g, hgap, y, htop, rfl, -⟩ := (nether_eq_block_iff chunk x z id e).mp h
      have hlt : y < g := htop.1.1
      -- the gap lies above the block that shows, so it is where it was
      have hclear : ∀ y' : Nat, y ≤ y' → (IsClear chunk' x z y' ↔ IsClear chunk x z y') := by
        intro y' hy'
        rw [IsClear, IsClear, hsame y' (by omega)]
      have hgap' : IsGap chunk' x z g := by
        refine ⟨⟨hgap.1.1, (hclear g (by omega)).mpr hgap.1.2⟩, ?_⟩
        rintro y' ⟨hy', hopen⟩
        by_contra hgt
        exact hgt (hgap.2 ⟨hy', (hclear y' (by omega)).mp hopen⟩)
      have hshows : Shows chunk' x z g (.block id y) := (h ▸ hgap.shows).of_above hsame
      exact hgap'.shows.unique hshows

/-- The block at the height `y` belongs to the roof: from there up to the
ceiling there is no gap. -/
def IsRoof (chunk : ChunkView) (x z y : Nat) : Prop :=
  ∀ y', y ≤ y' → y' < 128 → ¬ IsClear chunk x z y'

/-- What the roof is made of does not matter, and neither does what is above
the ceiling. -/
theorem nether_of_roof
    (h : ∀ y < 128, chunk'.blockId x y z = chunk.blockId x y z ∨
      IsRoof chunk x z y ∧ ¬ IsClear chunk' x z y) :
    resolve chunk' x z .nether = resolve chunk x z .nether := by
  have hclear : ∀ y < 128, IsClear chunk' x z y ↔ IsClear chunk x z y := by
    intro y hy
    rcases h y hy with hsame | ⟨hroof, hsolid⟩
    · rw [IsClear, IsClear, hsame]
    · exact iff_of_false hsolid (hroof y le_rfl hy)
  rcases solid_or_isGap chunk x z with hsolid | ⟨g, hgap⟩
  · rw [nether_of_solid hsolid, nether_of_solid]
    intro y hy
    exact mt (hclear y hy).mp (hsolid y hy)
  · have hgap' : IsGap chunk' x z g := by
      have hset : {y | y < 128 ∧ IsClear chunk' x z y} = {y | y < 128 ∧ IsClear chunk x z y} :=
        Set.ext fun y => and_congr_right fun hy => hclear y hy
      rw [IsGap, hset]
      exact hgap
    have hscan := hgap.shows.unique (shows_scanBelow chunk x z g)
    have hscan' := hgap'.shows.unique (shows_scanBelow chunk' x z g)
    rw [hscan, hscan']
    apply scanBelow_congr
    -- below a gap there is no roof
    intro y hy
    have hlt : g < 128 := hgap.1.1
    rcases h y (by omega) with hsame | ⟨hroof, -⟩
    · exact hsame
    · exact absurd hgap.1.2 (hroof g (Nat.le_of_lt hy) hlt)

/-- **A scan finds the highest block it can see.** In the overworld this is the
highest block that is no air; in the nether the highest one below the highest
gap under the ceiling, which is what shows in the overworld once everything
above that gap is taken away. So neither what lies below the block that is
found, nor what lies above the ceiling, nor the kinds of blocks that the roof
is made of can change what is found. -/
theorem scan_finds_highest_visible (chunk : ChunkView) (x z : Nat) :
    (∀ id e, resolve chunk x z .overworld = .block id e ↔
      ∃ y : Nat, IsGreatest {y | y < 256 ∧ ¬ IsClear chunk x z y} y ∧
        e = y ∧ id = chunk.blockId x y z) ∧
    (resolve chunk x z .overworld = .empty ↔ ∀ y < 256, IsClear chunk x z y) ∧
    (∀ id e, resolve chunk x z .nether = .block id e ↔
      ∃ g, IsGap chunk x z g ∧
        ∃ y : Nat, IsGreatest {y | y < g ∧ ¬ IsClear chunk x z y} y ∧
          e = y ∧ id = chunk.blockId x y z) ∧
    (resolve chunk x z .nether = .empty ↔
      (¬ ∃ g, IsGap chunk x z g) ∨ ∃ g, IsGap chunk x z g ∧ ∀ y < g, IsClear chunk x z y) ∧
    resolve chunk x z .nether = resolve (unroofed chunk) x z .overworld ∧
    (∀ policy id e, resolve chunk x z policy = .block id e → ∀ chunk' : ChunkView,
      (∀ y : Nat, e ≤ y → chunk'.blockId x y z = chunk.blockId x y z) →
      resolve chunk' x z policy = .block id e) ∧
    ∀ chunk' : ChunkView,
      (∀ y < 128, chunk'.blockId x y z = chunk.blockId x y z ∨
        IsRoof chunk x z y ∧ ¬ IsClear chunk' x z y) →
      resolve chunk' x z .nether = resolve chunk x z .nether := by
  refine ⟨(shows_overworld chunk x z).block_iff, (shows_overworld chunk x z).empty_iff,
    nether_eq_block_iff chunk x z, nether_eq_empty_iff chunk x z,
    (resolve_unroofed chunk x z).symm, ?_, ?_⟩
  · intro policy id e hblock chunk' hsame
    exact resolve_of_above hblock hsame
  · intro chunk' hsame
    exact nether_of_roof hsame

/-- Ground up to the height 60, air above it, a roof of the given block that
goes up to the ceiling, and stone on top. -/
def cavern (roof : String) : ChunkView where
  blockId _ y _ :=
    if y ≤ 60 then "netherrack" else if y < 123 then "minecraft:cave_air"
    else if y < 128 then roof else "stone"

theorem isClear_cavern_iff {roof : String} (hroof : Block.normalize roof ∉ Block.airNames)
    {y : Nat} : IsClear (cavern roof) 2 3 y ↔ 60 < y ∧ y < 123 := by
  simp only [IsClear, cavern]
  split
  · exact iff_of_false (by decide) (by omega)
  · split
    · exact iff_of_true (by decide) (by omega)
    · split
      · exact iff_of_false hroof (by omega)
      · exact iff_of_false (by decide) (by omega)

/-- The ground of the cavern shows under its roof, and under a roof of another
block as well. -/
theorem cavern_shows_ground :
    resolve (cavern "bedrock") 2 3 .nether = .block "netherrack" 60 ∧
      resolve (cavern "bedrock") 2 3 .overworld = .block "stone" 255 ∧
      resolve (cavern "obsidian") 2 3 .nether = .block "netherrack" 60 := by
  obtain ⟨hover, -, hnether, -, -, -, hroof⟩ := scan_finds_highest_visible (cavern "bedrock") 2 3
  have hclear (y : Nat) : IsClear (cavern "bedrock") 2 3 y ↔ 60 < y ∧ y < 123 :=
    isClear_cavern_iff (by decide)
  have hground : resolve (cavern "bedrock") 2 3 .nether = .block "netherrack" 60 := by
    rw [hnether]
    refine ⟨122, ⟨⟨by decide, by decide⟩, ?_⟩, 60, ⟨⟨by decide, by decide⟩, ?_⟩, rfl, rfl⟩
    · rintro y ⟨-, hopen⟩
      have hair := (hclear y).mp hopen
      omega
    · rintro y ⟨hlt, hsolid⟩
      rw [hclear] at hsolid
      omega
  refine ⟨hground, ?_, ?_⟩
  · rw [hover]
    exact ⟨255, ⟨⟨by decide, by decide⟩, fun y hy => Nat.lt_succ_iff.mp hy.1⟩, rfl, rfl⟩
  · rw [hroof (cavern "obsidian"), hground]
    intro y hy
    by_cases hhigh : y < 123
    · left
      simp [cavern, hhigh]
    · refine .inr ⟨?_, ?_⟩
      · intro y' hy' _
        rw [hclear]
        omega
      · rw [isClear_cavern_iff (by decide)]
        omega

end Column

end TerrainMap
