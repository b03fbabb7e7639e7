import Mathlib.Data.List.Pairwise
import TerrainMap.Discovery
import TerrainMap.Proofs.FileTree
import TerrainMap.Proofs.Region.FileName
import TerrainMap.World.Saved

/-!
Discovery against the names that regions are opened by. Discovery reads a name
and gets a position; opening writes the position and gets a name. The two meet
only where every file is named as its region is, for more names are read than
are ever written.
-/

namespace TerrainMap.Discovery

variable {t : FileTree} {directory : Path} {regions : List RegionCoord} {skipped : List LogLine}
  {name : String} {coord : RegionCoord}

/-- The entry of that name is a regular file of the directory, and its name is
read as the position of the region. -/
structure Accepts (t : FileTree) (directory : Path) (name : String) (coord : RegionCoord) :
    Prop where
  listed : ∃ names, t.list directory = .ok names ∧ name ∈ names
  isFile : t.isFile (directory.join ⟨name⟩) = true
  reads : RegionCoord.ofFileName? name = some coord

/-- Every file that is accepted has the name of the region it is accepted for. -/
def NamedCanonically (t : FileTree) (directory : Path) : Prop :=
  ∀ name coord, Accepts t directory name coord → name = coord.fileName

theorem regionOf?_eq_some_iff (hname : Path.IsName name) :
    regionOf? t directory name = some coord ↔
      t.isFile (directory.join ⟨name⟩) = true ∧ RegionCoord.ofFileName? name = some coord := by
  simp only [regionOf?, RegionCoord.ofPath?, Path.fileName?_join directory hname, Option.bind_some]
  split
  · rename_i hfile
    rw [and_iff_right hfile]
  · rename_i hfile
    exact iff_of_false (by simp) fun h => hfile h.1

theorem discover_spec (h : discover t directory = .ok (regions, skipped)) :
    ∃ names, t.list directory = .ok names ∧ regions = regionsAmong t directory names := by
  simp only [discover, bind, Except.bind] at h
  cases hlist : t.list directory with
  | error cause => simp [hlist] at h
  | ok names =>
      simp only [hlist, pure, Except.pure, Except.ok.injEq, Prod.mk.injEq] at h
      exact ⟨names, rfl, h.1.symm⟩

theorem regionPath_eq (h : discover t directory = .ok (regions, skipped)) (coord : RegionCoord) :
    SavedWorld.regionPath t directory coord = directory.join ⟨coord.fileName⟩ := by
  obtain ⟨names, hlist, -⟩ := discover_spec h
  rw [SavedWorld.regionPath, if_pos (FileTree.isDirectory_of_list hlist)]

theorem Accepts.isName (ht : t.WellFormed) (h : Accepts t directory name coord) :
    Path.IsName name := by
  obtain ⟨names, hlist, hname⟩ := h.listed
  exact FileTree.isName_of_list ht hlist hname

theorem accepts_iff (ht : t.WellFormed) {names : List String}
    (hlist : t.list directory = .ok names) :
    Accepts t directory name coord ↔ name ∈ names ∧ regionOf? t directory name = some coord := by
  constructor
  · rintro ⟨⟨names', hlist', hname⟩, hfile, hreads⟩
    cases hlist.symm.trans hlist'
    exact ⟨hname, (regionOf?_eq_some_iff (FileTree.isName_of_list ht hlist hname)).mpr
      ⟨hfile, hreads⟩⟩
  · rintro ⟨hname, hregion⟩
    obtain ⟨hfile, hreads⟩ :=
      (regionOf?_eq_some_iff (FileTree.isName_of_list ht hlist hname)).mp hregion
    exact ⟨⟨names, hlist, hname⟩, hfile, hreads⟩

section Discovered

variable (ht : t.WellFormed) (h : discover t directory = .ok (regions, skipped))
include ht h

theorem mem_discover : coord ∈ regions ↔ ∃ name, Accepts t directory name coord := by
  obtain ⟨names, hlist, rfl⟩ := discover_spec h
  simp only [regionsAmong, List.mem_mergeSort, List.mem_filterMap, accepts_iff ht hlist]

/-- A region is listed once unless two files are read as that region. -/
theorem nodup_discover_iff :
    regions.Nodup ↔
      ∀ name name' coord, Accepts t directory name coord → Accepts t directory name' coord →
        name = name' := by
  obtain ⟨names, hlist, rfl⟩ := discover_spec h
  have hnames := FileTree.nodup_of_list ht hlist
  rw [regionsAmong, (List.mergeSort_perm _ _).nodup_iff, List.Nodup, List.pairwise_filterMap]
  constructor
  · intro hpairs name name' coord hname hname'
    rw [accepts_iff ht hlist] at hname hname'
    by_contra hne
    have : Std.Symm fun a a' : String =>
        ∀ c, regionOf? t directory a = some c → ∀ c', regionOf? t directory a' = some c' →
          c ≠ c' :=
      ⟨fun a a' haa' c hc c' hc' heq => haa' c' hc' c hc heq.symm⟩
    exact hpairs.forall hname.1 hname'.1 hne coord hname.2 coord hname'.2 rfl
  · intro hinj
    apply hnames.pairwise_of_forall_ne
    intro name hname name' hname' hne c hc c' hc' heq
    subst heq
    exact hne (hinj name name' c ((accepts_iff ht hlist).mpr ⟨hname, hc⟩)
      ((accepts_iff ht hlist).mpr ⟨hname', hc'⟩))

/-- Listing every region once, and opening it by an accepted file, takes the
canonical names, and they are enough. -/
theorem namedCanonically_iff :
    (regions.Nodup ∧ ∀ coord ∈ regions, ∃ name coord',
        Accepts t directory name coord' ∧
          SavedWorld.regionPath t directory coord = directory.join ⟨name⟩) ↔
      NamedCanonically t directory := by
  constructor
  · rintro ⟨hnodup, hopened⟩ name coord hname
    obtain ⟨name', coord', hname', hpath⟩ := hopened coord ((mem_discover ht h).mpr ⟨name, hname⟩)
    -- the file that the region is opened by is the one with the region's name
    have hsame : coord.fileName = name' :=
      Path.join_inj coord.isName_fileName.noSlash (hname'.isName ht).noSlash
        ((regionPath_eq h coord).symm.trans hpath)
    subst hsame
    have hread := RegionCoord.ofFileName?_fileName (RegionCoord.inRange_of_ofFileName? hname.reads)
    cases hread.symm.trans hname'.reads
    exact (nodup_discover_iff ht h).mp hnodup name _ coord hname hname'
  · intro hcanonical
    constructor
    · rw [nodup_discover_iff ht h]
      intro name name' coord hname hname'
      rw [hcanonical name coord hname, hcanonical name' coord hname']
    · intro coord hcoord
      obtain ⟨name, hname⟩ := (mem_discover ht h).mp hcoord
      refine ⟨name, coord, hname, ?_⟩
      rw [regionPath_eq h, hcanonical name coord hname]

end Discovered

end TerrainMap.Discovery
