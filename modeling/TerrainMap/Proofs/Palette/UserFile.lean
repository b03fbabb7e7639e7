import Mathlib.Data.Finset.Card
import Mathlib.Data.Finset.Dedup
import Mathlib.Tactic.MkIffOfInductiveProp
import TerrainMap.Palette.File
import TerrainMap.Proofs.Block
import TerrainMap.Proofs.ByteOrder
import TerrainMap.Proofs.Palette
import TerrainMap.Proofs.Toml.Keys

/-!
The palette of a run. A palette file gives every key once, but a block can be
spelled with and without the vanilla namespace, and then the spelling with the
greater bytes decides. The places of the entries in the file do not matter. What
the file leaves open is taken from the built-in palette.
-/

namespace TerrainMap.Palette

/-- The colours of a palette file under the keys that they are given for. -/
def entriesOf? (text : String) : Option (List (String × Color)) :=
  (Toml.parse? text).bind colorEntries?

/-- The key is read as the short name. A short name that itself begins with the
vanilla namespace can only be written with one more. -/
def Spells (key short : String) : Prop :=
  key = Block.vanillaNamespace ++ short ∨ key = short ∧ ¬ Block.IsPrefixed short

/-- Of all the entries for a block this one has the greatest key. -/
@[mk_iff]
structure Decides (entries : List (String × Color)) (short : String)
    (entry : String × Color) : Prop where
  given : entry ∈ entries
  spells : Spells entry.1 short
  greatest : ∀ other ∈ entries, Spells other.1 short →
    ByteOrder.bytes other.1 ≤ ByteOrder.bytes entry.1

/-- The short names of the entries' blocks. -/
def shortNames (entries : List (String × Color)) : List String :=
  entries.map fun entry => Block.normalize entry.1

theorem spells_iff {key short : String} : Spells key short ↔ Block.normalize key = short := by
  constructor
  · rintro (rfl | ⟨rfl, hshort⟩)
    · exact Block.normalize_append short
    · exact Block.normalize_of_not_isPrefixed hshort
  · rintro rfl
    by_cases hkey : Block.IsPrefixed key
    · obtain ⟨rest, rfl⟩ := hkey
      rw [Block.normalize_append]
      exact .inl rfl
    · rw [Block.normalize_of_not_isPrefixed hkey]
      exact .inr ⟨rfl, hkey⟩

instance (key short : String) : Decidable (Spells key short) :=
  decidable_of_iff _ spells_iff.symm

instance (entries : List (String × Color)) (short : String) (entry : String × Color) :
    Decidable (Decides entries short entry) :=
  decidable_of_iff _ (decides_iff ..).symm

theorem mem_shortNames {entries : List (String × Color)} {short : String} :
    short ∈ shortNames entries ↔ ∃ entry ∈ entries, Spells entry.1 short := by
  simp [shortNames, spells_iff]

/-! ### The entry that decides -/

/-- Whatever becomes of the values, the keys are kept. -/
theorem map_fst_of_mapM {α β γ : Type} {f : β → Option γ} {pairs : List (α × β)}
    {pairs' : List (α × γ)}
    (h : (pairs.mapM fun pair => (f pair.2).map fun value => (pair.1, value)) = some pairs') :
    pairs'.map Prod.fst = pairs.map Prod.fst := by
  induction pairs generalizing pairs' with
  | nil =>
      cases h
      rfl
  | cons pair pairs ih =>
      rw [List.mapM_cons] at h
      obtain ⟨first, hfirst, hrest⟩ := Option.bind_eq_some_iff.1 h
      obtain ⟨others, hothers, hlast⟩ := Option.bind_eq_some_iff.1 hrest
      obtain ⟨value, -, rfl⟩ := Option.map_eq_some_iff.1 hfirst
      cases hlast
      rw [List.map_cons, List.map_cons, ih hothers]

section Entries

variable {entries entries' : List (String × Color)} {name : String}

theorem Decides.congr {short : String} {entry : String × Color} (h : Decides entries short entry)
    (hsame : ∀ other, other ∈ entries' ↔ other ∈ entries) : Decides entries' short entry where
  given := (hsame entry).2 h.given
  spells := h.spells
  greatest other hother := h.greatest other ((hsame other).1 hother)

theorem Decides.unique {short : String} {entry entry' : String × Color}
    (hkeys : (entries.map Prod.fst).Nodup) (h : Decides entries short entry)
    (h' : Decides entries short entry') : entry = entry' := by
  refine List.inj_on_of_nodup_map hkeys h.given h'.given (le_antisymm ?_ ?_)
  · exact ByteOrder.le_iff_bytes_le.2 (h'.greatest entry h.given h.spells)
  · exact ByteOrder.le_iff_bytes_le.2 (h.greatest entry' h'.given h'.spells)

theorem pairwise_mergeSort_keys (entries : List (String × Color)) :
    (entries.mergeSort fun a b => decide (a.1 ≤ b.1)).Pairwise fun a b => a.1 ≤ b.1 := by
  have hsorted : (entries.mergeSort fun a b => decide (a.1 ≤ b.1)).Pairwise
      fun a b => decide (a.1 ≤ b.1) = true := by
    apply List.pairwise_mergeSort
    · intro a b c hab hbc
      exact decide_eq_true (le_trans (of_decide_eq_true hab) (of_decide_eq_true hbc))
    · intro a b
      simpa using le_total a.1 b.1
  exact hsorted.imp of_decide_eq_true

/-- The last of the sorted entries for a block has the greatest key of them. -/
theorem decides_of_lastGiven? {entry : String × Color}
    (h : lastGiven? (entries.mergeSort fun a b => decide (a.1 ≤ b.1)) name = some entry) :
    Decides entries (Block.normalize name) entry := by
  obtain ⟨hentry, later, earlier, hsplit, hlater⟩ := List.find?_eq_some_iff_append.1 h
  have hmem : ∀ other, other ∈ entries ↔ other ∈ later ++ entry :: earlier := fun other => by
    rw [← hsplit, List.mem_reverse, List.mem_mergeSort]
  have hsorted : (later ++ entry :: earlier).Pairwise fun a b => b.1 ≤ a.1 := by
    rw [← hsplit, List.pairwise_reverse]
    exact pairwise_mergeSort_keys entries
  refine ⟨(hmem entry).2 (by simp), spells_iff.2 (by simpa using hentry), ?_⟩
  intro other hother hspells
  rw [← ByteOrder.le_iff_bytes_le]
  -- from the end, the entry is the first one for its block, and no greater key comes after it
  rcases List.mem_append.1 ((hmem other).1 hother) with hmem' | hmem'
  · have hnot := hlater other hmem'
    simp [spells_iff.1 hspells] at hnot
  · rcases List.mem_cons.1 hmem' with rfl | hearlier
    · exact le_refl _
    · exact (List.pairwise_cons.1 (List.pairwise_append.1 hsorted).2.1).1 other hearlier

theorem isSome_lookup_ofList_iff :
    ((ofList entries).lookup name).isSome ↔ Block.normalize name ∈ shortNames entries := by
  rw [lookup_ofList, Option.isSome_map, lastGiven?, List.find?_isSome, shortNames]
  simp

theorem isSome_lookup_ofEntries_iff :
    ((ofEntries entries).lookup name).isSome ↔ Block.normalize name ∈ shortNames entries := by
  rw [ofEntries, isSome_lookup_ofList_iff]
  exact ((List.mergeSort_perm entries _).map _).mem_iff

theorem lookup_ofEntries_eq_none_iff :
    (ofEntries entries).lookup name = none ↔
      ∀ entry ∈ entries, ¬ Spells entry.1 (Block.normalize name) := by
  rw [← Option.not_isSome_iff_eq_none, isSome_lookup_ofEntries_iff, mem_shortNames]
  simp only [not_exists, not_and]

theorem exists_decides_of_lookup {color : Color}
    (h : (ofEntries entries).lookup name = some color) :
    ∃ key, Decides entries (Block.normalize name) (key, color) := by
  rw [ofEntries, lookup_ofList, Option.map_eq_some_iff] at h
  obtain ⟨⟨key, _⟩, hlast, rfl⟩ := h
  exact ⟨key, decides_of_lastGiven? hlast⟩

theorem lookup_ofEntries_eq_some_iff (hkeys : (entries.map Prod.fst).Nodup) {color : Color} :
    (ofEntries entries).lookup name = some color ↔
      ∃ key, Decides entries (Block.normalize name) (key, color) := by
  refine ⟨exists_decides_of_lookup, ?_⟩
  rintro ⟨key, hkey⟩
  cases hfound : (ofEntries entries).lookup name with
  | none => exact absurd hkey.spells (lookup_ofEntries_eq_none_iff.1 hfound _ hkey.given)
  | some found =>
      obtain ⟨key', hkey'⟩ := exists_decides_of_lookup hfound
      cases hkey'.unique hkeys hkey
      rfl

/-- The same entries give the same palette, in whatever order they stand. -/
theorem lookup_ofEntries_congr (hkeys : (entries.map Prod.fst).Nodup)
    (hkeys' : (entries'.map Prod.fst).Nodup)
    (hsame : ∀ entry, entry ∈ entries' ↔ entry ∈ entries) :
    (ofEntries entries').lookup name = (ofEntries entries).lookup name := by
  refine Option.ext fun color => ?_
  rw [lookup_ofEntries_eq_some_iff hkeys, lookup_ofEntries_eq_some_iff hkeys']
  constructor
  · rintro ⟨key, hkey⟩
    exact ⟨key, hkey.congr fun entry => (hsame entry).symm⟩
  · rintro ⟨key, hkey⟩
    exact ⟨key, hkey.congr hsame⟩

end Entries

/-! ### One palette laid over another -/

section Merge

variable {p q : Palette} {name : String}

theorem lookup_merge : (p.merge q).lookup name = (q.lookup name).or (p.lookup name) := by
  rw [lookup, merge]
  cases hfound : q.lookup name with
  | some color =>
      have hmem : (Block.normalize name, color) ∈ q.colors.toList :=
        Std.HashMap.mem_toList_iff_getElem?_eq_some.2 hfound
      exact Std.HashMap.getElem?_insertMany_list_of_mem BEq.rfl q.colors.distinct_keys_toList hmem
  | none =>
      refine Std.HashMap.getElem?_insertMany_list_of_contains_eq_false ?_
      rw [Std.HashMap.map_fst_toList_eq_keys, List.contains_eq_mem, decide_eq_false_iff_not,
        Std.HashMap.mem_keys, ← Std.HashMap.isSome_getElem?_iff_mem, Bool.not_eq_true,
        Option.isSome_eq_false_iff, Option.isNone_iff_eq_none]
      exact hfound

/-- A palette has as many colours as there are short names with a colour. -/
theorem size_eq_card {names : List String}
    (h : ∀ short, (p.lookup (Block.vanillaNamespace ++ short)).isSome ↔ short ∈ names) :
    p.size = names.toFinset.card := by
  have hkeys : p.colors.keys.toFinset = names.toFinset := by
    ext short
    rw [List.mem_toFinset, List.mem_toFinset, Std.HashMap.mem_keys, ← h, lookup,
      Block.normalize_append, Std.HashMap.isSome_getElem?_iff_mem]
  rw [size, ← Std.HashMap.length_keys, ← hkeys,
    List.toFinset_card_of_nodup Std.HashMap.nodup_keys]

end Merge

/-! ### The palette of a run -/

theorem ofText_eq_ok {text : String} {entries : List (String × Color)}
    (h : entriesOf? text = some entries) : ofText text = .ok (ofEntries entries) := by
  rw [entriesOf?] at h
  rw [ofText, h]

theorem ofText_eq_error {text : String} (h : entriesOf? text = none) :
    ofText text = .error .malformed := by
  rw [entriesOf?] at h
  rw [ofText, h]

/-- No key of a palette file is given twice. -/
theorem nodup_keys_of_entriesOf? {text : String} {entries : List (String × Color)}
    (h : entriesOf? text = some entries) : (entries.map Prod.fst).Nodup := by
  obtain ⟨document, hdocument, hentries⟩ := Option.bind_eq_some_iff.1 h
  have hkeyed := Toml.keyed_of_parse? hdocument
  rw [colorEntries?] at hentries
  split at hentries
  · cases hentries
    exact List.nodup_nil
  · next kind values hcolors =>
      have hvalues := (Toml.isKeyed_table_iff.1 (hkeyed.lookup hcolors)).keys
      rw [map_fst_of_mapM hentries]
      exact hvalues
  · cases hentries

section Load

variable {t : FileTree} {path : Path} {text : String} {entries : List (String × Color)}

theorem load_of_unreadable {cause : FileError} (h : t.readText path = .error cause) :
    load t (some path) = .error (.unreadable path cause) := by
  rw [load, ofFile, h]
  rfl

theorem load_of_malformed (h : t.readText path = .ok text) (htext : entriesOf? text = none) :
    load t (some path) = .error .malformed := by
  rw [load, ofFile, h]
  show (ofText text).map builtin.merge = _
  rw [ofText_eq_error htext]
  rfl

theorem load_of_entries (h : t.readText path = .ok text) (htext : entriesOf? text = some entries) :
    load t (some path) = .ok (builtin.merge (ofEntries entries)) := by
  rw [load, ofFile, h]
  show (ofText text).map builtin.merge = _
  rw [ofText_eq_ok htext]
  rfl

theorem size_merge_ofEntries (given : List (String × Color)) :
    ((ofList given).merge (ofEntries entries)).size =
      (shortNames (given ++ entries)).toFinset.card := by
  refine size_eq_card fun short => ?_
  rw [lookup_merge, Option.isSome_or, Bool.or_eq_true, isSome_lookup_ofEntries_iff,
    isSome_lookup_ofList_iff, Block.normalize_append, shortNames, shortNames, shortNames,
    List.map_append, List.mem_append, or_comm]

end Load

/-- **The colours of a run with a palette file.** The keys of a file that can be
read are distinct. A block has the colour under its short name or the one under
the short name with the vanilla namespace in front, and if the file has both, the
one whose key has the greater bytes; the order of the entries does not matter.
Over the built-in palette, the file decides wherever it has a colour, and the two
count every short name once. From a file that cannot be read or understood there
is no palette. -/
theorem user_file_decides :
    (∀ text entries, entriesOf? text = some entries →
      (entries.map Prod.fst).Nodup ∧
      ∃ user, ofText text = .ok user ∧
        (∀ id color, user.lookup id = some color ↔
          ∃ key, Decides entries (Block.normalize id) (key, color)) ∧
        (∀ id, user.lookup id = none ↔
          ∀ entry ∈ entries, ¬ Spells entry.1 (Block.normalize id)) ∧
        (∀ text' entries', entriesOf? text' = some entries' →
          (∀ entry, entry ∈ entries' ↔ entry ∈ entries) →
          ∃ user', ofText text' = .ok user' ∧ ∀ id, user'.lookup id = user.lookup id) ∧
        ∀ t path, FileTree.readText t path = .ok text →
          ∃ both, load t (some path) = .ok both ∧
            (∀ id, both.lookup id = (user.lookup id).or (builtin.lookup id)) ∧
            both.size = (shortNames (builtinColors ++ entries)).toFinset.card) ∧
    ∀ t path,
      (∀ cause, FileTree.readText t path = .error cause →
        load t (some path) = .error (.unreadable path cause)) ∧
      ∀ text, FileTree.readText t path = .ok text → entriesOf? text = none →
        ofText text = .error .malformed ∧ load t (some path) = .error .malformed := by
  constructor
  · intro text entries htext
    have hkeys := nodup_keys_of_entriesOf? htext
    refine ⟨hkeys, ofEntries entries, ofText_eq_ok htext, ?_, ?_, ?_, ?_⟩
    · exact fun id color => lookup_ofEntries_eq_some_iff hkeys
    · exact fun id => lookup_ofEntries_eq_none_iff
    · intro text' entries' htext' hsame
      exact ⟨ofEntries entries', ofText_eq_ok htext', fun id =>
        lookup_ofEntries_congr hkeys (nodup_keys_of_entriesOf? htext') hsame⟩
    · intro t path hread
      exact ⟨builtin.merge (ofEntries entries), load_of_entries hread htext,
        fun id => lookup_merge, size_merge_ofEntries builtinColors⟩
  · intro t path
    exact ⟨fun cause => load_of_unreadable,
      fun text hread htext => ⟨ofText_eq_error htext, load_of_malformed hread htext⟩⟩

/-- A palette file with both spellings of two blocks. -/
def quarryText : String :=
  "[colors]\nstone = [1, 2, 3]\n\"minecraft:stone\" = [4, 5, 6]\n" ++
    "\"minecraft:dirt\" = \x7b r = 7, g = 8, b = 9 \x7d\ndirt = [10, 11, 12]\n"

def quarryEntries : List (String × Color) :=
  [("stone", ⟨1, 2, 3⟩), ("minecraft:stone", ⟨4, 5, 6⟩), ("minecraft:dirt", ⟨7, 8, 9⟩),
    ("dirt", ⟨10, 11, 12⟩)]

/-- The palette file, and one that is cut off. -/
def quarryFiles : FileTree :=
  ⟨[], [(["p.toml"], .file (.bytes quarryText.toUTF8)),
    (["torn.toml"], .file (.bytes "[colors".toUTF8))]⟩

/-- The plain key decides for stone and the longer one for dirt, and obsidian
keeps its colour. The file adds no name to the built-in ones. -/
theorem quarry_file_decides :
    (∃ both, load quarryFiles (some ⟨"p.toml"⟩) = .ok both ∧
      both.lookup "minecraft:stone" = some ⟨1, 2, 3⟩ ∧ both.lookup "dirt" = some ⟨7, 8, 9⟩ ∧
      both.lookup "obsidian" = some ⟨15, 10, 24⟩ ∧ both.size = builtinColors.length) ∧
    load quarryFiles (some ⟨"torn.toml"⟩) = .error .malformed ∧
    load quarryFiles (some ⟨"q.toml"⟩) = .error (.unreadable ⟨"q.toml"⟩ .notFound) := by
  have hentries : entriesOf? quarryText = some quarryEntries := by decide +kernel
  have hread : quarryFiles.readText ⟨"p.toml"⟩ = .ok quarryText := by decide +kernel
  have hreadTorn : quarryFiles.readText ⟨"torn.toml"⟩ = .ok "[colors" := by decide +kernel
  obtain ⟨hdecides, hfails⟩ := user_file_decides
  obtain ⟨-, user, -, hsome, hnone, -, hload⟩ := hdecides quarryText quarryEntries hentries
  obtain ⟨both, hboth, hlookup, hsize⟩ := hload quarryFiles ⟨"p.toml"⟩ hread
  have hstone : user.lookup "minecraft:stone" = some ⟨1, 2, 3⟩ :=
    (hsome _ _).2 ⟨"stone", by decide +kernel⟩
  have hdirt : user.lookup "dirt" = some ⟨7, 8, 9⟩ :=
    (hsome _ _).2 ⟨"minecraft:dirt", by decide +kernel⟩
  have hobsidian : user.lookup "obsidian" = none := (hnone _).2 (by decide +kernel)
  refine ⟨⟨both, hboth, ?_, ?_, ?_, ?_⟩, ?_, ?_⟩
  · rw [hlookup, hstone, Option.some_or]
  · rw [hlookup, hdirt, Option.some_or]
  · rw [hlookup, hobsidian, Option.none_or, lookup_builtin_of_obsidian (by decide)]
  · rw [hsize]
    decide +kernel
  · exact ((hfails quarryFiles ⟨"torn.toml"⟩).2 _ hreadTorn (by decide +kernel)).2
  · exact (hfails quarryFiles ⟨"q.toml"⟩).1 .notFound (by decide +kernel)

end TerrainMap.Palette
