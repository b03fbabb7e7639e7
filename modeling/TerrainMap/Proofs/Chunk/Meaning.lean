import TerrainMap.Proofs.Chunk.Sections
import TerrainMap.Proofs.Chunk.Written

/-!
What decoding makes of the bytes of a chunk, for every chunk that can be read
at all: when it fails and with what, and which name it gives to each position.
-/

namespace TerrainMap.Chunk

open PackedIndices

section Decoding

variable {bytes : List UInt8} {r : Record}

theorem ofBytes_of_read (hread : Record.ofBytes bytes = .ok r) :
    StoredChunk.ofBytes bytes = (StoredChunk.ofRecord r).mapCause DecodeError.shortStates := by
  rw [StoredChunk.ofBytes, StoredChunk.decode, hread]
  rfl

/-- Decoding ends at the first lack of words, or reflects all sections. -/
theorem decoding_cases (hread : Record.ofBytes bytes = .ok r) :
    (∃ short, FirstShortage (StoredChunk.layoutOf r.dataVersion) r.activeSections short ∧
      StoredChunk.ofBytes bytes = .error (.failure (.shortStates short))) ∨
    (∀ s ∈ r.activeSections, ∀ short, ¬ s.Lacks (StoredChunk.layoutOf r.dataVersion) short) ∧
      ∃ c, StoredChunk.ofBytes bytes = .ok c ∧
        Reflects (StoredChunk.layoutOf r.dataVersion) r.activeSections c := by
  have hnames : ∀ s ∈ r.activeSections, s.names.length ≤ 2 ^ 63 := by
    intro s hs
    exact Nat.le_trans (Record.names_le_of_ofBytes hread hs) (by decide)
  rw [ofBytes_of_read hread, StoredChunk.ofRecord]
  rcases (reflects_empty _).foldlM_addSection hnames with hlacks | ⟨hfine, c, hfold, hreflects⟩
  · obtain ⟨short, hfirst, hfold⟩ := hlacks
    exact .inl ⟨short, hfirst, by rw [hfold]; rfl⟩
  · exact .inr ⟨hfine, c, by rw [hfold]; rfl, hreflects⟩

theorem FirstShortage.exists_lacks {layout : Layout} {sections : List Section} {short : Shortage}
    (h : FirstShortage layout sections short) : ∃ s ∈ sections, s.Lacks layout short := by
  obtain ⟨front, s, rest, rfl, hlacks, -⟩ := h
  exact ⟨s, by simp, hlacks⟩

/-- A section lacks one thing only. -/
theorem Section.Lacks.unique {layout : Layout} {s : Section} {short short' : Shortage}
    (h : s.Lacks layout short) (h' : s.Lacks layout short') : short = short' := by
  obtain ⟨-, -, ⟨words, hwords, hlongs⟩, hwidth, hneeded, -⟩ := h
  obtain ⟨-, -, ⟨words', hwords', hlongs'⟩, hwidth', hneeded', -⟩ := h'
  obtain rfl : words = words' := Option.some_inj.mp (hwords.symm.trans hwords')
  have hbits := hwidth.unique hwidth'
  obtain ⟨longs, needed, bits⟩ := short
  obtain ⟨longs', needed', bits'⟩ := short'
  simp only at hlongs hlongs' hbits hneeded hneeded'
  subst hbits hlongs hlongs' hneeded hneeded'
  rfl

/-- The first lack is found in one way. -/
theorem FirstShortage.unique {layout : Layout} {sections : List Section} {short short' : Shortage}
    (h : FirstShortage layout sections short) (h' : FirstShortage layout sections short') :
    short = short' := by
  obtain ⟨front, s, rest, hsections, hlacks, hfront⟩ := h
  obtain ⟨front', s', rest', hsections', hlacks', hfront'⟩ := h'
  rcases List.append_eq_append_iff.mp (hsections.symm.trans hsections') with
    ⟨mid, hmid, hbehind⟩ | ⟨mid, hmid, hbehind⟩
  · cases mid with
    | nil =>
        obtain ⟨rfl, -⟩ := List.cons.inj hbehind
        exact hlacks.unique hlacks'
    | cons t mid =>
        obtain ⟨rfl, -⟩ := List.cons.inj hbehind
        exact absurd hlacks (hfront' s (by simp [hmid]) short)
  · cases mid with
    | nil =>
        obtain ⟨rfl, -⟩ := List.cons.inj hbehind
        exact hlacks.unique hlacks'
    | cons t mid =>
        obtain ⟨rfl, -⟩ := List.cons.inj hbehind
        exact absurd hlacks' (hfront s' (by simp [hmid]) short')

end Decoding

/-- **What decoding makes of a chunk.** Whatever sections a chunk has that can
be read at all: decoding fails just where a section at a kept height has several
names and too few words, and then with what the first such section lacks. Else
it gives a chunk that can be asked for every position, however far outside, and
that answers what the last usable section there shows. -/
theorem decoding_follows_sections {bytes : List UInt8} {r : Record}
    (hread : Record.ofBytes bytes = .ok r) :
    let layout := if r.dataVersion < 2529 then Layout.spanning else Layout.padded
    let sections := match r.level with
      | some sections => sections
      | none => r.sections.map FlatSection.toSection
    ((∃ halt, StoredChunk.ofBytes bytes = .error halt) ↔
      ∃ s ∈ sections, ∃ short, s.Lacks layout short) ∧
    (∀ halt, StoredChunk.ofBytes bytes = .error halt ↔
      ∃ short, FirstShortage layout sections short ∧ halt = .failure (.shortStates short)) ∧
    ∀ c, StoredChunk.ofBytes bytes = .ok c → ∀ x y z,
      (∃ name, c.block? x y z = some name) ∧
      ∀ name, c.block? x y z = some name ↔ Shown layout sections x y z name := by
  intro layout sections
  have hcases : (∃ short, FirstShortage layout sections short ∧
      StoredChunk.ofBytes bytes = .error (.failure (.shortStates short))) ∨
      (∀ s ∈ sections, ∀ short, ¬ s.Lacks layout short) ∧
        ∃ c, StoredChunk.ofBytes bytes = .ok c ∧ Reflects layout sections c :=
    decoding_cases hread
  rcases hcases with ⟨short, hfirst, herror⟩ | ⟨hfine, c, hok, hreflects⟩
  · rw [herror]
    refine ⟨⟨fun _ => ?_, fun _ => ⟨_, rfl⟩⟩, ?_, by rintro c ⟨⟩⟩
    · obtain ⟨s, hs, hlacks⟩ := hfirst.exists_lacks
      exact ⟨s, hs, short, hlacks⟩
    · intro halt
      constructor
      · rintro ⟨⟩
        exact ⟨short, hfirst, rfl⟩
      · rintro ⟨short', hfirst', rfl⟩
        rw [hfirst.unique hfirst']
  · have hnone (short : Shortage) : ¬ FirstShortage layout sections short := by
      intro hfirst
      obtain ⟨s, hs, hlacks⟩ := hfirst.exists_lacks
      exact hfine s hs short hlacks
    rw [hok]
    refine ⟨⟨by rintro ⟨halt, ⟨⟩⟩, ?_⟩, ?_, ?_⟩
    · rintro ⟨s, hs, short, hlacks⟩
      exact absurd hlacks (hfine s hs short)
    · intro halt
      constructor
      · rintro ⟨⟩
      · rintro ⟨short, hfirst, -⟩
        exact absurd hfirst (hnone short)
    · rintro _ ⟨⟩ x y z
      obtain ⟨name, hname, hshown⟩ := hreflects.block? x y z
      refine ⟨⟨name, hname⟩, ?_⟩
      intro other
      rw [hname, Option.some_inj]
      exact ⟨fun heq => heq ▸ hshown, fun hother => hshown.unique hother⟩

/-- Three sections at one height and one below all kept ones. The last usable
one at height 3 is a single name; what comes behind it shows nothing. -/
def layeredRecord : Record where
  dataVersion := 3465
  level := some
    [⟨3, some ["dirt"], some #[]⟩, ⟨3, some ["minecraft:stone"], none⟩,
      ⟨3, some ["sand", "gravel"], none⟩, ⟨-1, some ["lava", "bedrock"], some #[]⟩]
  sections := [⟨3, some ⟨["water"], none⟩⟩]

/-- A section of four names with only ten words, behind one that is complete. -/
def tornRecord : Record where
  dataVersion := 3465
  level := some
    [⟨3, some ["minecraft:stone"], none⟩,
      ⟨5, some ["stone", "dirt", "sand", "gravel"], some (Array.replicate 10 0)⟩]
  sections := []

theorem layeredRecord_fits : layeredRecord.Fits := by
  refine ⟨by decide, by decide, ?_, by decide, ?_⟩
  · rintro sections ⟨⟩
    refine ⟨by decide, ?_⟩
    intro s hs
    simp only [List.mem_cons, List.not_mem_nil, or_false] at hs
    have hpalette {palette : List String} (hmem : palette ∈
        [["dirt"], ["minecraft:stone"], ["sand", "gravel"], ["lava", "bedrock"]]) :
        PaletteFits palette := by
      simp only [List.mem_cons, List.not_mem_nil, or_false] at hmem
      rcases hmem with rfl | rfl | rfl | rfl
      all_goals exact ⟨by decide, by decide⟩
    rcases hs with rfl | rfl | rfl | rfl
    · exact ⟨by decide, by decide, by rintro _ ⟨⟩; exact hpalette (by simp), by simp⟩
    · exact ⟨by decide, by decide, by rintro _ ⟨⟩; exact hpalette (by simp), by simp⟩
    · exact ⟨by decide, by decide, by rintro _ ⟨⟩; exact hpalette (by simp), by simp⟩
    · exact ⟨by decide, by decide, by rintro _ ⟨⟩; exact hpalette (by simp), by simp⟩
  · intro s hs
    simp only [layeredRecord, List.mem_cons, List.not_mem_nil, or_false] at hs
    subst hs
    refine ⟨by decide, by decide, ?_⟩
    rintro states ⟨⟩
    exact ⟨⟨by decide, by decide⟩, by simp⟩

theorem tornRecord_fits : tornRecord.Fits := by
  refine ⟨by decide, by decide, ?_, by decide, by simp [tornRecord]⟩
  rintro sections ⟨⟩
  refine ⟨by decide, ?_⟩
  intro s hs
  simp only [List.mem_cons, List.not_mem_nil, or_false] at hs
  rcases hs with rfl | rfl
  · refine ⟨by decide, by decide, ?_, by simp⟩
    rintro palette ⟨⟩
    exact ⟨by decide, by decide⟩
  · refine ⟨by decide, by decide, ?_, ?_⟩
    · rintro palette ⟨⟩
      exact ⟨by decide, by decide⟩
    · rintro words ⟨⟩
      simp

/-- The section of single stone is the last usable one at height 3. -/
theorem decides_layered :
    Decides layeredRecord.activeSections 3 ⟨3, some ["minecraft:stone"], none⟩ :=
  ⟨[⟨3, some ["dirt"], some #[]⟩],
    [⟨3, some ["sand", "gravel"], none⟩, ⟨-1, some ["lava", "bedrock"], some #[]⟩], rfl, rfl,
    by decide, by decide⟩

theorem firstShortage_torn :
    FirstShortage .padded tornRecord.activeSections ⟨10, 256, 4⟩ := by
  refine ⟨[⟨3, some ["minecraft:stone"], none⟩],
    ⟨5, some ["stone", "dirt", "sand", "gravel"], some (Array.replicate 10 0)⟩, [], rfl, ?_, ?_⟩
  · refine ⟨by decide, by decide, ⟨_, rfl, by simp⟩, ?_, by decide, by decide⟩
    exact ⟨by decide, fun b hb => hb.1⟩
  · intro s hs
    obtain rfl := List.mem_singleton.mp hs
    exact Section.not_lacks_of_few (by decide)

/-- Stone is read from the layers, air above and beside them, and of the torn
chunk what it lacks. -/
theorem layers_read_torn_fails :
    (Record.ofBytes layeredRecord.toBytes = .ok layeredRecord ∧
      ∃ c, StoredChunk.ofBytes layeredRecord.toBytes = .ok c ∧
        c.block? 15 50 0 = some "stone" ∧ c.block? 15 64 0 = some "air" ∧
          c.block? 16 50 0 = some "air") ∧
    Record.ofBytes tornRecord.toBytes = .ok tornRecord ∧
    StoredChunk.ofBytes tornRecord.toBytes = .error (.failure (.shortStates ⟨10, 256, 4⟩)) := by
  have hlayered := ofBytes_toBytes layeredRecord_fits
  have htorn := ofBytes_toBytes tornRecord_fits
  obtain ⟨hlacks, -, hreads⟩ := decoding_follows_sections hlayered
  obtain ⟨-, hfails, -⟩ := decoding_follows_sections htorn
  refine ⟨⟨hlayered, ?_⟩, htorn, (hfails _).mpr ⟨_, firstShortage_torn, rfl⟩⟩
  cases hdecode : StoredChunk.ofBytes layeredRecord.toBytes with
  | error halt =>
      obtain ⟨s, hs, short, hshort⟩ := hlacks.mp ⟨halt, hdecode⟩
      -- the only sections with several names have no words or lie too low
      have hfine : ∀ s ∈ layeredRecord.activeSections,
          s.names.length < 2 ∨ s.states = none ∨ s.y < 0 := by decide
      rcases hfine s hs with hfew | hnone | hlow
      · exact absurd hshort (Section.not_lacks_of_few hfew short)
      · obtain ⟨words, hwords, -⟩ := hshort.longs
        exact absurd (hnone.symm.trans hwords) (by simp)
      · exact absurd hshort.kept.1 (by omega)
  | ok c =>
      have hshown := hreads c hdecode
      refine ⟨c, rfl, ((hshown 15 50 0).2 _).mpr ?_, ((hshown 15 64 0).2 _).mpr ?_,
        ((hshown 16 50 0).2 _).mpr (.outside (by decide))⟩
      · exact .named (by decide) _ 0 "minecraft:stone" decides_layered (.single rfl) rfl
      · exact .vacant (by decide) (by decide)

end TerrainMap.Chunk
