import TerrainMap.Proofs.Discovery
import TerrainMap.Proofs.FileTree.Alike

/-!
The list of regions that a directory gives. A directory may be enumerated in
any order; the list has one entry for each regular file that is named as a
region file is, and sorting takes out the order the names came in.
-/

namespace TerrainMap

namespace RegionCoord

theorem le_iff (a b : RegionCoord) : a.le b = true ↔ a.x < b.x ∨ a.x = b.x ∧ a.z ≤ b.z := by
  rw [le, decide_eq_true_iff]

theorem pairwise_mergeSort (l : List RegionCoord) :
    (l.mergeSort le).Pairwise fun a b => a.le b = true := by
  apply List.pairwise_mergeSort
  · intro a b c hab hbc
    rw [le_iff] at *
    omega
  · intro a b
    rw [Bool.or_eq_true, le_iff, le_iff]
    omega

theorem mergeSort_eq_of_perm {l l' : List RegionCoord} (h : l.Perm l') :
    l.mergeSort le = l'.mergeSort le := by
  have hperm : (l.mergeSort le).Perm (l'.mergeSort le) :=
    (List.mergeSort_perm l _).trans (h.trans (List.mergeSort_perm l' _).symm)
  refine List.Perm.eq_of_pairwise ?_ (pairwise_mergeSort l) (pairwise_mergeSort l') hperm
  rintro ⟨x, z⟩ ⟨x', z'⟩ _ _ hab hba
  simp only [le_iff, mk.injEq] at hab hba ⊢
  omega

end RegionCoord

namespace Discovery

variable {t t' : FileTree} {directory : Path} {regions : List RegionCoord} {names : List String}
  {skipped : List LogLine}

/-- The names in a directory, each of them once and in any order. -/
structure Enumerates (t : FileTree) (directory : Path) (names : List String) : Prop where
  distinct : names.Nodup
  entries : ∀ name, name ∈ names ↔ t.node? (t.destination directory ++ [name]) ≠ none

/-- What an entry is read as. Only regular files are read. -/
def readAs? (t : FileTree) (directory : Path) (name : String) : Option RegionCoord :=
  if t.isFile (directory.join ⟨name⟩) then RegionCoord.ofFileName? name else none

/-- One region for each regular file whose name is that of a region, and no
others, in ascending order. -/
structure IsListing (t : FileTree) (directory : Path) (regions : List RegionCoord) : Prop where
  enumerated : ∃ names, Enumerates t directory names
  entries : ∀ names, Enumerates t directory names →
    regions.Perm (names.filterMap (readAs? t directory))
  ascending : regions.Pairwise fun a b => a.x < b.x ∨ a.x = b.x ∧ a.z ≤ b.z

theorem Enumerates.perm {names' : List String} (h : Enumerates t directory names)
    (h' : Enumerates t directory names') : names.Perm names' := by
  rw [List.perm_ext_iff_of_nodup h.distinct h'.distinct]
  intro name
  rw [h.entries, h'.entries]

/-! ### The names in a directory -/

/-- The names of the nodes one step below a directory, in their order. -/
def entryNames (t : FileTree) (directory : Path) : List String :=
  (t.nodes.map (·.1)).filterMap (FileTree.childName? (t.destination directory))

theorem list_of_directory (h : t.lookup directory = .ok .directory) :
    t.list directory = .ok (entryNames t directory) := by
  simp only [FileTree.list, bind, Except.bind, h, (FileTree.lookup_eq_ok_iff.mp h).1, entryNames,
    List.filterMap_map]
  rfl

/-- Whether there is a list, and why not, is a matter of what the path leads to. -/
theorem list_of_other (h : t.lookup directory ≠ .ok .directory)
    (hsame : t'.lookup directory = t.lookup directory) :
    t'.list directory = t.list directory := by
  simp only [FileTree.list, bind, Except.bind, hsame]
  cases hlookup : t.lookup directory with
  | error cause => rfl
  | ok node =>
      cases node with
      | file content => rfl
      | directory => exact absurd hlookup h

theorem mem_locations_iff {location : Location} (hlocation : location ≠ []) :
    location ∈ t.nodes.map (·.1) ↔ t.node? location ≠ none := by
  rw [FileTree.node?, if_neg hlocation, ne_eq, List.lookup_eq_none_iff]
  simp

theorem eq_entryNames (h : t.list directory = .ok names) : names = entryNames t directory :=
  Except.ok.inj (h.symm.trans (list_of_directory (FileTree.list_spec h).1))

theorem enumerates_of_list (ht : t.WellFormed) (h : t.list directory = .ok names) :
    Enumerates t directory names := by
  refine ⟨FileTree.nodup_of_list ht h, fun name => ?_⟩
  rw [eq_entryNames h, entryNames, List.mem_filterMap,
    ← mem_locations_iff (List.concat_ne_nil name (t.destination directory))]
  simp only [FileTree.childName?_eq_some_iff, exists_eq_right]

theorem filterMap_regionOf? (ht : t.WellFormed) (h : t.list directory = .ok names) :
    names.filterMap (regionOf? t directory) = names.filterMap (readAs? t directory) := by
  apply List.filterMap_congr
  intro name hname
  ext coord
  rw [regionOf?_eq_some_iff (FileTree.isName_of_list ht h hname), readAs?]
  split
  · rename_i hfile
    rw [hfile, and_iff_right rfl]
  · rename_i hfile
    exact iff_of_false (fun hread => hfile hread.1) (by simp)

/-- What is discovered is the listing of the directory. -/
theorem isListing_of_discover (ht : t.WellFormed)
    (h : discover t directory = .ok (regions, skipped)) : IsListing t directory regions := by
  obtain ⟨names, hlist, rfl⟩ := discover_spec h
  have hnames := enumerates_of_list ht hlist
  refine ⟨⟨names, hnames⟩, fun names' hnames' => ?_, ?_⟩
  · rw [regionsAmong, filterMap_regionOf? ht hlist]
    exact (List.mergeSort_perm _ _).trans ((hnames.perm hnames').filterMap _)
  · exact (RegionCoord.pairwise_mergeSort _).imp fun hab => (RegionCoord.le_iff _ _).mp hab

/-! ### The order of enumeration -/

/-- However a directory is enumerated, the same regions are discovered and the
same entries are passed over. -/
theorem discover_of_perm (ht : t.WellFormed) (hnodes : t'.nodes.Perm t.nodes)
    (hstart : t'.workingDirectory = t.workingDirectory) (directory : Path) :
    (∃ regions skipped skipped', discover t directory = .ok (regions, skipped) ∧
        discover t' directory = .ok (regions, skipped') ∧ skipped'.Perm skipped) ∨
      ∃ cause, discover t directory = .error cause ∧ discover t' directory = .error cause := by
  have halike := FileTree.alike_of_perm ht hnodes hstart
  have hregion : regionOf? t' directory = regionOf? t directory := by
    funext name
    simp only [regionOf?, halike.isFile]
  by_cases hlookup : t.lookup directory = .ok .directory
  · have hnames : (entryNames t' directory).Perm (entryNames t directory) := by
      rw [entryNames, halike.destination]
      exact (hnodes.map _).filterMap _
    have hsorted : regionsAmong t' directory (entryNames t' directory) =
        regionsAmong t directory (entryNames t directory) := by
      rw [regionsAmong, regionsAmong, hregion]
      exact RegionCoord.mergeSort_eq_of_perm (hnames.filterMap _)
    have hlist' := list_of_directory ((halike.lookup directory).trans hlookup)
    refine .inl ⟨regionsAmong t directory (entryNames t directory),
      skippedLines t directory (entryNames t directory),
      skippedLines t' directory (entryNames t' directory), ?_, ?_, ?_⟩
    · simp only [discover, list_of_directory hlookup]
      rfl
    · simp only [discover, hlist', ← hsorted]
      rfl
    · rw [skippedLines, skippedLines, hregion]
      exact (hnames.filter _).map _
  · have hlist := list_of_other hlookup (halike.lookup directory)
    cases hfailed : t.list directory with
    | ok names => exact absurd (FileTree.list_spec hfailed).1 hlookup
    | error cause =>
        refine .inr ⟨cause, ?_, ?_⟩
        · simp only [discover, hfailed]
          rfl
        · simp only [discover, hlist, hfailed]
          rfl

end Discovery

end TerrainMap
