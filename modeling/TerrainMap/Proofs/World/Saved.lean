import TerrainMap.Proofs.FileTree.Filling
import TerrainMap.Proofs.Region.FileName
import TerrainMap.World.Saved

/-!
What a saved world is read from. A region is opened by the bytes of one file,
so trees in which that file is the same open the same regions. A run may
therefore read its regions while it writes: the files of regions stay as they
were.
-/

namespace TerrainMap

namespace FileTree

variable {t t' : FileTree} {changed : Set Location}

/-- A name that ends as the names of region files do. -/
def IsRegionName (name : String) : Prop := ".mca".toList <:+ name.toList

/-- The files with such names are those that were there, and hold what they
held. -/
def KeepsRegionFiles (t t' : FileTree) : Prop :=
  ∀ location name content, IsRegionName name →
    (t'.node? (location ++ [name]) = some (.file content) ↔
      t.node? (location ++ [name]) = some (.file content))

theorem not_isRegionName {name : String} {c : Char} (h : name.toList.getLast? = some c)
    (hc : c ≠ 'a') : ¬ IsRegionName name := by
  rintro ⟨front, hfront⟩
  rw [← hfront, List.getLast?_append] at h
  exact hc (Option.some.inj h).symm

theorem Grows.keepsRegionFiles (h : Grows changed t t')
    (hchanged : ∀ location name, location ++ [name] ∈ changed → ¬ IsRegionName name) :
    KeepsRegionFiles t t' := by
  intro location name content hname
  exact h.node_file_iff fun hmem => hchanged location name hmem hname

end FileTree

theorem RegionCoord.isRegionName_fileName (c : RegionCoord) :
    FileTree.IsRegionName c.fileName := by
  rw [FileTree.IsRegionName, RegionCoord.toList_fileName]
  exact (List.suffix_append _ _).trans (List.suffix_append _ _)

namespace SavedWorld

variable {host : Host} {t t' : FileTree} {source : Path} {coord : RegionCoord}

theorem openFile_eq_ok_iff {path : Path} {read : ChunkReader} :
    openFile host t path = .ok read ↔
      ∃ data, t.lookup path = .ok (.file (.bytes data)) ∧ host.openRegion? data = some read := by
  rw [openFile]
  split
  · rename_i hlookup
    simp [hlookup]
  · rename_i cause _ hlookup
    simp [hlookup]
  · rename_i data hlookup
    rw [hlookup]
    cases hbytes : host.openRegion? data with
    | none => simp [hbytes]
    | some found => simp [hbytes]
  · rename_i node hother hlookup
    simp only [hlookup, reduceCtorEq, false_iff]
    rintro ⟨data, heq, -⟩
    exact hother data (Except.ok.inj heq)

theorem openRegion_eq_ok_iff {handle : RegionHandle} :
    openRegion host t source coord = .ok handle ↔
      ∃ read, openFile host t (regionPath t source coord) = .ok read ∧
        handle = ⟨coord, fun cx cz =>
          (loadChunk host (regionPath t source coord) read cx cz).map
            (·.map Chunk.StoredChunk.view)⟩ := by
  simp only [openRegion, bind, Except.bind]
  cases openFile host t (regionPath t source coord) with
  | error cause => simp
  | ok read => simp [pure, Except.pure, eq_comm]

/-- The order of the nodes does not matter. -/
theorem store_alike (host : Host) (h : FileTree.Alike t t') (source : Path) :
    store host t' source = store host t source := by
  simp only [store, WorldStore.mk.injEq]
  funext coord
  simp only [openRegion, regionPath, openFile, h.isDirectory, h.lookup]

section Grown

variable {changed : Set Location} (h : FileTree.Grows changed t t')
  (hchanged : ∀ location name, location ++ [name] ∈ changed → ¬ FileTree.IsRegionName name)
  (hsource : t.isDirectory source = true)
include h hchanged hsource

/-- In a tree that has grown, but not at region files, the files of the regions of a
directory are found as before. -/
theorem lookup_regionPath_iff {content : FileContent} :
    t'.lookup (regionPath t' source coord) = .ok (.file content) ↔
      t.lookup (regionPath t source coord) = .ok (.file content) := by
  have hreaches := FileTree.reaches_of_lookup (FileTree.isDirectory_iff.mp hsource)
  have hkept : t.destination source ++ [coord.fileName] ∉ changed := fun hmem =>
    hchanged _ _ hmem coord.isRegionName_fileName
  rw [regionPath, regionPath, if_pos hsource, if_pos (h.isDirectory hsource),
    h.lookup_join_iff coord.isName_fileName hreaches hkept]

omit hchanged in
theorem regionPath_grows : regionPath t' source coord = regionPath t source coord := by
  rw [regionPath, regionPath, if_pos hsource, if_pos (h.isDirectory hsource)]

theorem isFile_regionPath (hfile : t.isFile (regionPath t source coord) = true) :
    t'.isFile (regionPath t' source coord) = true := by
  rw [FileTree.isFile] at hfile ⊢
  split at hfile
  · rename_i content hlookup
    rw [(lookup_regionPath_iff h hchanged hsource).mpr hlookup]
  · cases hfile

/-- The regions are opened as before, too. -/
theorem openRegion_grows {handle : RegionHandle} :
    openRegion host t' source coord = .ok handle ↔
      openRegion host t source coord = .ok handle := by
  have hpath : regionPath t' source coord = regionPath t source coord :=
    regionPath_grows h hsource
  have hlookup (content : FileContent) :
      t'.lookup (regionPath t' source coord) = .ok (.file content) ↔
        t.lookup (regionPath t source coord) = .ok (.file content) :=
    lookup_regionPath_iff h hchanged hsource
  rw [hpath] at hlookup
  simp only [openRegion_eq_ok_iff, openFile_eq_ok_iff, hpath, hlookup]

end Grown

end SavedWorld

end TerrainMap
