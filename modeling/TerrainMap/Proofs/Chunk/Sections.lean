import Mathlib.Order.Bounds.Basic
import TerrainMap.Chunk.Stored
import TerrainMap.Proofs.Chunk.Reading
import TerrainMap.Proofs.Chunk.Unpacking

/-!
What a chunk says, whatever sections it has.

A record may hold any number of sections, at any heights, several of them at
the same one, with or without palettes and words. Of the sections at one height
the last usable one decides; where none is usable there is air; and the first
section whose words are too few ends the decoding. Decoding goes through the
sections one by one, and keeps up that the sixteen places hold what the
sections so far decide.
-/

namespace TerrainMap.Chunk

open PackedIndices

namespace Section

/-- The section shows something: its only name, for which it needs no words,
or several names with words to tell them apart. -/
def Usable (s : Section) : Prop :=
  s.names.length = 1 ∨ 2 ≤ s.names.length ∧ s.states.isSome

instance (s : Section) : Decidable s.Usable := inferInstanceAs (Decidable (_ ∨ _))

/-- The section lies at a kept height and has several names, but fewer words
than 4096 indices of the least sufficient width need. -/
structure Lacks (layout : Layout) (s : Section) (short : Shortage) : Prop where
  kept : 0 ≤ s.y ∧ s.y < 16
  several : 2 ≤ s.names.length
  longs : ∃ words, s.states = some words ∧ words.size = short.longs
  width : IsLeast {b | 4 ≤ b ∧ s.names.length ≤ 2 ^ b} short.bits
  needed : short.needed = wordCount layout short.bits 4096
  few : short.longs < short.needed

/-- The slot of the block number `i` of a usable section. -/
inductive Points (layout : Layout) (s : Section) (i : Nat) : Nat → Prop
  | single (hone : s.names.length = 1) : Points layout s i 0
  | several (words : Array UInt64) (bits : Nat) (slot : UInt16) (htwo : 2 ≤ s.names.length)
      (hwords : s.states = some words) (hbits : IsLeast {b | 4 ≤ b ∧ s.names.length ≤ 2 ^ b} bits)
      (hslot : IsIndex layout bits words i slot) : Points layout s i slot.toNat

/-- The decoded form of a usable section. -/
inductive IsStored (layout : Layout) (s : Section) : StoredSection → Prop
  | single (hone : s.names.length = 1) :
      IsStored layout s ⟨(s.names.map Block.normalize).toArray, #[]⟩
  | several (words : Array UInt64) (indices : Array UInt16) (htwo : 2 ≤ s.names.length)
      (hwords : s.states = some words) (hsize : indices.size = sectionVolume)
      (hindices : ∀ i < sectionVolume, ∃ slot, indices[i]? = some slot ∧
        IsIndex layout (bitsPerIndex s.names.length) words i slot) :
      IsStored layout s ⟨(s.names.map Block.normalize).toArray, indices⟩

end Section

/-- Of all sections, `s` is the last usable one in place `k`. -/
def Decides (sections : List Section) (k : Nat) (s : Section) : Prop :=
  ∃ front rest, sections = front ++ s :: rest ∧ s.y = k ∧ s.Usable ∧
    ∀ t ∈ rest, t.y = k → ¬ t.Usable

/-- The name that sections give to a position: air outside the chunk, where no
section is usable and where the slot has no name, else the short form of the
name that the deciding section points to. -/
inductive Shown (layout : Layout) (sections : List Section) (x y z : Nat) : String → Prop
  | outside (hout : 16 ≤ x ∨ 16 ≤ z ∨ 256 ≤ y) : Shown layout sections x y z "air"
  | vacant (hin : x < 16 ∧ z < 16 ∧ y < 256)
      (hnone : ∀ s ∈ sections, s.y = (y / 16 : Nat) → ¬ s.Usable) :
      Shown layout sections x y z "air"
  | nameless (hin : x < 16 ∧ z < 16 ∧ y < 256) (s : Section) (slot : Nat)
      (hs : Decides sections (y / 16) s) (hslot : s.Points layout ((y % 16 * 16 + z) * 16 + x) slot)
      (hname : s.names[slot]? = none) : Shown layout sections x y z "air"
  | named (hin : x < 16 ∧ z < 16 ∧ y < 256) (s : Section) (slot : Nat) (name : String)
      (hs : Decides sections (y / 16) s) (hslot : s.Points layout ((y % 16 * 16 + z) * 16 + x) slot)
      (hname : s.names[slot]? = some name) : Shown layout sections x y z (Block.normalize name)

/-- `short` is what the first lacking section lacks. -/
def FirstShortage (layout : Layout) (sections : List Section) (short : Shortage) : Prop :=
  ∃ front s rest, sections = front ++ s :: rest ∧ s.Lacks layout short ∧
    ∀ t ∈ front, ∀ other, ¬ t.Lacks layout other

/-! ### One section -/

section OneSection

variable {layout : Layout} {s : Section}

theorem Section.not_lacks_of_few (h : s.names.length < 2) (short : Shortage) :
    ¬ s.Lacks layout short := by
  intro hlacks
  have htwo := hlacks.several
  omega

theorem not_outside {k : Nat} (hk : k < 16) : ¬ ((k : Int) < 0 ∨ (sectionCount : Int) ≤ k) := by
  rw [sectionCount]
  omega

/-- A section with several names and with words is stored, or has too few of
them. -/
theorem addSection_of_words {k : Nat} (hk : k < 16) {palette : List String}
    (htwo : 2 ≤ palette.length) (hnames : palette.length ≤ 2 ^ 63) (words : Array UInt64)
    (c : StoredChunk) :
    let s : Section := ⟨k, some palette, some words⟩
    (∃ short, s.Lacks layout short ∧ StoredChunk.addSection layout c s = .fail short) ∨
    (∀ short, ¬ s.Lacks layout short) ∧
      ∃ stored, s.Usable ∧ s.IsStored layout stored ∧
        StoredChunk.addSection layout c s = .ok (c.put k stored) := by
  intro s
  have hone : palette.length ≠ 1 := by omega
  have hnone : palette ≠ [] := List.ne_nil_of_length_pos (by omega)
  have hwidth := bitsPerIndex_isLeast palette.length
  rcases Nat.lt_or_ge words.size (wordsNeeded layout (bitsPerIndex palette.length))
    with hfew | henough
  · refine .inl ⟨⟨words.size, wordsNeeded layout (bitsPerIndex palette.length),
      bitsPerIndex palette.length⟩, ?_, ?_⟩
    · exact ⟨⟨Int.natCast_nonneg k, Int.ofNat_lt.mpr hk⟩, htwo, ⟨words, rfl, rfl⟩, hwidth,
        wordsNeeded_eq_wordCount _ _, hfew⟩
    · rw [StoredChunk.addSection, if_neg (not_outside hk)]
      simp [s, hone, hnone, unpack_of_lt hfew, Attempt.fail]
  · obtain ⟨indices, hunpack, hsize, hindices⟩ := unpack_of_le hnames henough
    refine .inr ⟨?_, _, .inr ⟨htwo, rfl⟩, .several words indices htwo rfl hsize hindices, ?_⟩
    · rintro short ⟨-, -, ⟨_, ⟨⟩, hlongs⟩, hleast, hneeded, hshort⟩
      rw [hneeded, ← hlongs, hleast.unique hwidth] at hshort
      rw [wordsNeeded_eq_wordCount] at henough
      exact absurd hshort (Nat.not_lt.mpr henough)
    · have hunpack : unpack layout palette.length words = .ok indices := hunpack
      rw [StoredChunk.addSection, if_neg (not_outside hk)]
      simp [s, hone, hnone, hunpack, Section.names]

/-- A section in place `k` is stored there, or lacks words, or is not usable. -/
theorem addSection_kept {k : Nat} (hk : k < 16) (hy : s.y = k) (hnames : s.names.length ≤ 2 ^ 63)
    (c : StoredChunk) :
    (∃ short, s.Lacks layout short ∧ StoredChunk.addSection layout c s = .fail short) ∨
    (∀ short, ¬ s.Lacks layout short) ∧
      ((∃ stored, s.Usable ∧ s.IsStored layout stored ∧
          StoredChunk.addSection layout c s = .ok (c.put k stored)) ∨
        ¬ s.Usable ∧ StoredChunk.addSection layout c s = .ok c) := by
  obtain ⟨y, palette, states⟩ := s
  obtain rfl : y = k := hy
  have hkept := not_outside hk
  match palette, states with
  | none, states =>
      have hfew : (Section.mk k none states).names.length < 2 := Nat.zero_lt_two
      refine .inr ⟨Section.not_lacks_of_few hfew, .inr ⟨?_, ?_⟩⟩
      · simp [Section.Usable, Section.names]
      · rw [StoredChunk.addSection, if_neg hkept]
  | some [], states =>
      have hfew : (Section.mk k (some []) states).names.length < 2 := Nat.zero_lt_two
      refine .inr ⟨Section.not_lacks_of_few hfew, .inr ⟨?_, ?_⟩⟩
      · simp [Section.Usable, Section.names]
      · rw [StoredChunk.addSection, if_neg hkept]
        rfl
  | some [name], states =>
      have hfew : (Section.mk k (some [name]) states).names.length < 2 := Nat.one_lt_two
      refine .inr ⟨Section.not_lacks_of_few hfew, .inl ⟨_, .inl rfl, .single rfl, ?_⟩⟩
      rw [StoredChunk.addSection, if_neg hkept]
      rfl
  | some (first :: second :: more), none =>
      refine .inr ⟨?_, .inr ⟨?_, ?_⟩⟩
      · rintro short ⟨-, -, ⟨words, hwords, -⟩, -⟩
        cases hwords
      · simp [Section.Usable, Section.names]
      · rw [StoredChunk.addSection, if_neg hkept]
        simp
  | some (first :: second :: more), some words =>
      -- only here are there words to unpack
      have htwo : 2 ≤ (first :: second :: more).length := Nat.le_add_left 2 more.length
      rcases addSection_of_words hk htwo hnames words c with hlacks | ⟨hfine, hstored⟩
      · exact .inl hlacks
      · exact .inr ⟨hfine, .inl hstored⟩

theorem addSection_outside (hout : ∀ k : Nat, k < 16 → s.y ≠ k) (c : StoredChunk) :
    (∀ short, ¬ s.Lacks layout short) ∧ StoredChunk.addSection layout c s = .ok c := by
  have hy : s.y < 0 ∨ (sectionCount : Int) ≤ s.y := by
    rw [sectionCount]
    have hplace := hout s.y.toNat
    omega
  refine ⟨?_, ?_⟩
  · intro short hlacks
    have hkept := hlacks.kept
    rw [sectionCount] at hy
    omega
  · simp only [StoredChunk.addSection, if_pos hy]

end OneSection

/-! ### All sections -/

/-- A place holds what the sections decide about it. -/
def IsPlace (layout : Layout) (sections : List Section) (k : Nat) : Option StoredSection → Prop
  | none => ∀ s ∈ sections, s.y = k → ¬ s.Usable
  | some stored => ∃ s, Decides sections k s ∧ s.IsStored layout stored

/-- The sixteen places of a chunk hold what the sections decide about them. -/
structure Reflects (layout : Layout) (sections : List Section) (c : StoredChunk) : Prop where
  size : c.sections.size = sectionCount
  places : ∀ k : Nat, k < 16 →
    ∃ place, c.sections[k]? = some place ∧ IsPlace layout sections k place

section AllSections

variable {layout : Layout} {sections : List Section} {s : Section} {c : StoredChunk}

theorem reflects_empty (layout : Layout) : Reflects layout [] StoredChunk.empty := by
  refine ⟨by simp [StoredChunk.empty], ?_⟩
  intro k hk
  refine ⟨none, by simp [StoredChunk.empty, sectionCount, hk], ?_⟩
  intro s hs
  simp at hs

theorem decides_append_self {k : Nat} (hy : s.y = k) (hs : s.Usable) :
    Decides (sections ++ [s]) k s :=
  ⟨sections, [], rfl, hy, hs, by simp⟩

/-- A section that is not usable, or lies elsewhere, decides nothing in place
`k`. -/
theorem IsPlace.append {k : Nat} {place : Option StoredSection}
    (h : IsPlace layout sections k place) (hs : s.y = k → ¬ s.Usable) :
    IsPlace layout (sections ++ [s]) k place := by
  cases place with
  | none =>
      intro t ht
      rcases List.mem_append.mp ht with ht | ht
      · exact h t ht
      · obtain rfl := List.mem_singleton.mp ht
        exact hs
  | some stored =>
      obtain ⟨t, ⟨front, rest, rfl, hy, husable, hrest⟩, hstored⟩ := h
      refine ⟨t, ⟨front, rest ++ [s], by simp, hy, husable, ?_⟩, hstored⟩
      intro other hother
      rcases List.mem_append.mp hother with hother | hother
      · exact hrest other hother
      · obtain rfl := List.mem_singleton.mp hother
        exact hs

theorem Reflects.append (h : Reflects layout sections c)
    (hs : ∀ k : Nat, k < 16 → s.y = k → ¬ s.Usable) : Reflects layout (sections ++ [s]) c := by
  refine ⟨h.size, ?_⟩
  intro k hk
  obtain ⟨place, hplace, hreflects⟩ := h.places k hk
  exact ⟨place, hplace, hreflects.append (hs k hk)⟩

theorem Reflects.put (h : Reflects layout sections c) {k : Nat} (hy : s.y = k)
    (hs : s.Usable) {stored : StoredSection} (hstored : s.IsStored layout stored) :
    Reflects layout (sections ++ [s]) (c.put k stored) := by
  refine ⟨by simp [StoredChunk.put, h.size], ?_⟩
  intro place hplace
  -- the section takes its own place and leaves the other ones as they were
  by_cases hhere : place = k
  · subst hhere
    have hbound : place < c.sections.size := by
      rw [h.size]
      exact hplace
    exact ⟨some stored, by simp [StoredChunk.put, hbound], s, decides_append_self hy hs, hstored⟩
  · obtain ⟨entry, hentry, hreflects⟩ := h.places place hplace
    refine ⟨entry, ?_, hreflects.append ?_⟩
    · rw [StoredChunk.put, Array.getElem?_setIfInBounds_ne (fun heq => hhere heq.symm), hentry]
    · intro hother
      omega

/-- One section: it lacks words and ends the decoding, or the places hold what
is decided with it. -/
theorem Reflects.addSection (h : Reflects layout sections c) (hnames : s.names.length ≤ 2 ^ 63) :
    (∃ short, s.Lacks layout short ∧ StoredChunk.addSection layout c s = .fail short) ∨
    (∀ short, ¬ s.Lacks layout short) ∧ ∃ c', StoredChunk.addSection layout c s = .ok c' ∧
      Reflects layout (sections ++ [s]) c' := by
  by_cases hinside : ∃ k : Nat, k < 16 ∧ s.y = k
  · obtain ⟨k, hk, hy⟩ := hinside
    rcases addSection_kept hk hy hnames c with hlacks | ⟨hfine, hstored | hunusable⟩
    · exact .inl hlacks
    · obtain ⟨stored, husable, hstored, hadd⟩ := hstored
      exact .inr ⟨hfine, _, hadd, h.put hy husable hstored⟩
    · obtain ⟨hunusable, hadd⟩ := hunusable
      exact .inr ⟨hfine, c, hadd, h.append fun _ _ _ => hunusable⟩
  · have hout : ∀ k : Nat, k < 16 → s.y ≠ k := by
      intro k hk hy
      exact hinside ⟨k, hk, hy⟩
    obtain ⟨hfine, hadd⟩ := addSection_outside hout c
    exact .inr ⟨hfine, c, hadd, h.append fun k hk hy => absurd hy (hout k hk)⟩

/-- The sections that are still to come: the first one that lacks words ends
the decoding, and without one the places hold what all sections decide. -/
theorem Reflects.foldlM_addSection {rest : List Section} (h : Reflects layout sections c)
    (hnames : ∀ s ∈ rest, s.names.length ≤ 2 ^ 63) :
    (∃ short, FirstShortage layout rest short ∧
      rest.foldlM (StoredChunk.addSection layout) c = .fail short) ∨
    (∀ s ∈ rest, ∀ short, ¬ s.Lacks layout short) ∧
      ∃ c', rest.foldlM (StoredChunk.addSection layout) c = .ok c' ∧
        Reflects layout (sections ++ rest) c' := by
  induction rest generalizing sections c with
  | nil => exact .inr ⟨by simp, c, rfl, by simpa using h⟩
  | cons s rest ih =>
      rcases h.addSection (hnames s List.mem_cons_self) with hlacks | ⟨hfine, next, hadd, hnext⟩
      · obtain ⟨short, hlacks, hadd⟩ := hlacks
        refine .inl ⟨short, ⟨[], s, rest, rfl, hlacks, by simp⟩, ?_⟩
        rw [List.foldlM_cons, hadd]
        rfl
      · have hrest := ih hnext fun t ht => hnames t (List.mem_cons_of_mem s ht)
        rw [List.foldlM_cons, hadd]
        rcases hrest with hlacks | ⟨hothers, last, hlast, hreflects⟩
        · obtain ⟨short, ⟨front, t, behind, rfl, hlacks, hfront⟩, hfold⟩ := hlacks
          refine .inl ⟨short, ⟨s :: front, t, behind, rfl, hlacks, ?_⟩, hfold⟩
          intro other hother
          rcases List.mem_cons.mp hother with rfl | hother
          · exact hfine
          · exact hfront other hother
        · refine .inr ⟨?_, last, hlast, by simpa using hreflects⟩
          intro other hother
          rcases List.mem_cons.mp hother with rfl | hother
          · exact hfine
          · exact hothers other hother

end AllSections

/-! ### Reading a position -/

section Positions

variable {layout : Layout} {sections : List Section} {s : Section} {x y z : Nat}

/-- What a stored section reads at a position is named by its section. -/
theorem Section.IsStored.block? {stored : StoredSection} (h : s.IsStored layout stored)
    (hx : x < 16) (hy : y < 16) (hz : z < 16) :
    ∃ slot, s.Points layout ((y * 16 + z) * 16 + x) slot ∧
      stored.block? x y z = some (((s.names[slot]?).map Block.normalize).getD "air") := by
  have hread (slot : Nat) : (s.names.map Block.normalize).toArray.getD slot Block.air =
      ((s.names[slot]?).map Block.normalize).getD "air" := by
    rw [Array.getD_eq_getD_getElem?, List.getElem?_toArray, List.getElem?_map]
    rfl
  cases h with
  | single hone =>
      refine ⟨0, .single hone, ?_⟩
      simp only [StoredSection.block?, Array.isEmpty_empty, if_true, hread]
  | several words indices htwo hwords hsize hindices =>
      have hplace : (y * 16 + z) * 16 + x < sectionVolume := by
        rw [sectionVolume]
        omega
      obtain ⟨slot, hslot, hindex⟩ := hindices _ hplace
      refine ⟨slot.toNat, .several words _ slot htwo hwords (bitsPerIndex_isLeast _) hindex, ?_⟩
      have hsome : indices.isEmpty = false := by
        simp [← Array.size_eq_zero_iff, hsize, sectionVolume]
      simp only [StoredSection.block?, hsome, Bool.false_eq_true, if_false, indexInSection, hslot,
        hread]

theorem Reflects.block? {c : StoredChunk} (h : Reflects layout sections c) (x y z : Nat) :
    ∃ name, c.block? x y z = some name ∧ Shown layout sections x y z name := by
  by_cases hout : chunkEdge ≤ x ∨ chunkEdge ≤ z ∨ worldHeight ≤ y
  · exact ⟨"air", by rw [StoredChunk.block?, if_pos hout, Block.air], .outside hout⟩
  · have hin : x < 16 ∧ z < 16 ∧ y < 256 := by
      simp only [chunkEdge, worldHeight] at hout
      omega
    obtain ⟨hx, hz, hy⟩ := hin
    obtain ⟨place, hplace, hreflects⟩ := h.places (y / 16) (by omega)
    rw [StoredChunk.block?, if_neg hout, hplace]
    cases place with
    | none => exact ⟨"air", rfl, .vacant ⟨hx, hz, hy⟩ hreflects⟩
    | some stored =>
        obtain ⟨s, hs, hstored⟩ := hreflects
        obtain ⟨slot, hslot, hread⟩ := hstored.block? hx (Nat.mod_lt y (by decide)) hz
        refine ⟨_, hread, ?_⟩
        cases hname : s.names[slot]? with
        | none => exact .nameless ⟨hx, hz, hy⟩ s slot hs hslot hname
        | some name => exact .named ⟨hx, hz, hy⟩ s slot name hs hslot hname

/-! The sections leave no choice: at most one name is shown at a position. -/

theorem Decides.getLast? {k : Nat} (h : Decides sections k s) :
    (sections.filter fun t => decide (t.y = (k : Int) ∧ t.Usable)).getLast? = some s := by
  obtain ⟨front, rest, rfl, hy, husable, hrest⟩ := h
  have hnone : rest.filter (fun t => decide (t.y = (k : Int) ∧ t.Usable)) = [] := by
    rw [List.filter_eq_nil_iff]
    intro t ht
    simpa using hrest t ht
  rw [List.filter_append, List.filter_cons_of_pos (by simpa using ⟨hy, husable⟩), hnone,
    List.getLast?_concat]

theorem Decides.unique {k : Nat} {t : Section} (hs : Decides sections k s)
    (ht : Decides sections k t) : s = t := by
  have heq := hs.getLast?.symm.trans ht.getLast?
  exact Option.some_inj.mp heq

theorem Decides.mem {k : Nat} (h : Decides sections k s) : s ∈ sections ∧ s.y = k ∧ s.Usable := by
  obtain ⟨front, rest, rfl, hy, husable, -⟩ := h
  exact ⟨by simp, hy, husable⟩

theorem Section.Points.unique {i slot slot' : Nat} (h : s.Points layout i slot)
    (h' : s.Points layout i slot') : slot = slot' := by
  cases h with
  | single hone =>
      cases h' with
      | single => rfl
      | several _ _ _ htwo => omega
  | several words bits slot htwo hwords hbits hslot =>
      cases h' with
      | single hone => omega
      | several words' bits' slot' _ hwords' hbits' hslot' =>
          obtain rfl : words = words' := Option.some_inj.mp (hwords.symm.trans hwords')
          obtain rfl : bits = bits' := hbits.unique hbits'
          rw [hslot.unique hslot']

/-- What a place with a deciding section shows. -/
theorem Shown.of_decides (hin : x < 16 ∧ z < 16 ∧ y < 256) {slot : Nat}
    (hs : Decides sections (y / 16) s) (hslot : s.Points layout ((y % 16 * 16 + z) * 16 + x) slot)
    {name : String} (h : Shown layout sections x y z name) :
    name = ((s.names[slot]?).map Block.normalize).getD "air" := by
  have hunique {t : Section} {slot' : Nat} (ht : Decides sections (y / 16) t)
      (hslot' : t.Points layout ((y % 16 * 16 + z) * 16 + x) slot') :
      t.names[slot']? = s.names[slot]? := by
    obtain rfl := hs.unique ht
    rw [hslot.unique hslot']
  cases h with
  | outside hout => omega
  | vacant _ hnone =>
      obtain ⟨hmem, hy, husable⟩ := hs.mem
      exact absurd husable (hnone s hmem hy)
  | nameless _ t slot' ht hslot' hname =>
      rw [← hunique ht hslot', hname]
      rfl
  | named _ t slot' name ht hslot' hname =>
      rw [← hunique ht hslot', hname]
      rfl

theorem Shown.unique {name name' : String} (h : Shown layout sections x y z name)
    (h' : Shown layout sections x y z name') : name = name' := by
  cases h with
  | outside hout =>
      cases h' with
      | outside => rfl
      | vacant hin => omega
      | nameless hin => omega
      | named hin => omega
  | vacant hin hnone =>
      cases h' with
      | outside => rfl
      | vacant => rfl
      | nameless => rfl
      | named _ s _ _ hs =>
          obtain ⟨hmem, hy, husable⟩ := hs.mem
          exact absurd husable (hnone s hmem hy)
  | nameless hin s slot hs hslot hname =>
      rw [h'.of_decides hin hs hslot, hname]
      rfl
  | named hin s slot name hs hslot hname =>
      rw [h'.of_decides hin hs hslot, hname]
      rfl

end Positions

end TerrainMap.Chunk
