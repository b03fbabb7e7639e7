import Mathlib.Data.Set.Insert
import TerrainMap.Proofs.FileTree.Alike

/-!
Filling a directory. Making directories a second time changes nothing and ends
as it did before. Once they are made, only files are added to a tree, and
whether there is room for a further one does not depend on those that are
there.
-/

namespace TerrainMap.FileTree

variable {t t' made : FileTree} {changed filled : Set Location}

/-! ### Making directories again -/

theorem makeDirectories_again {location : Location} {components : List Path.Component}
    {result : Except FileError Unit}
    (h : t.makeDirectories location components = (made, result))
    (hkept : ∀ location, made.node? location = some .directory →
      t'.node? location = some .directory)
    (hsame : result ≠ .ok () → Alike made t') :
    t'.makeDirectories location components = (t', result) := by
  induction components generalizing t location with
  | nil =>
      cases h
      rfl
  | cons component rest ih =>
      cases component with
      | root => exact ih h
      | here => exact ih h
      | up => exact ih h
      | name name =>
          simp only [makeDirectories] at h ⊢
          have hmade : ∀ {u : FileTree}, u.makeDirectories (location ++ [name]) rest =
              (made, result) → u.node? (location ++ [name]) = some .directory →
              t'.node? (location ++ [name]) = some .directory := by
            intro u hu hnode
            apply hkept
            have hgrows := grows_makeDirectories u (location ++ [name]) rest
            rw [hu] at hgrows
            exact hgrows.node_directory hnode
          split at h
          · rename_i hlong
            cases h
            rw [if_pos hlong]
          · rename_i hshort
            rw [if_neg hshort]
            split at h
            · rename_i hnode
              rw [hmade h hnode]
              exact ih h
            · rename_i content hnode
              cases h
              rw [(hsame (by simp)).node, hnode]
            · rename_i hnode
              have hset : (t.set (location ++ [name]) .directory).node? (location ++ [name]) =
                  some .directory := by
                rw [node?_set (List.concat_ne_nil _ _), if_pos rfl]
              rw [hmade h hset]
              exact ih h

/-- Directories that were made, or could not be, are not made a second time. -/
theorem createDirectories_again {p : Path} {result : Except FileError Unit}
    (h : t.createDirectories p = (made, result)) (hgrows : Grows changed made t')
    (hsame : result ≠ .ok () → Alike made t') : t'.createDirectories p = (t', result) := by
  have hstart : t'.workingDirectory = t.workingDirectory := by
    have hmade := grows_createDirectories t p
    rw [h] at hmade
    exact hgrows.workingDirectory.trans hmade.workingDirectory
  simp only [createDirectories, hstart] at h ⊢
  split at h
  · rename_i hnull
    cases h
    rw [if_pos hnull]
  · rename_i hplain
    rw [if_neg hplain]
    split at h
    · rename_i hlong
      cases h
      rw [if_pos hlong]
    · rename_i hshort
      rw [if_neg hshort]
      split at h
      · rename_i hdot
        rw [if_pos hdot]
        rcases hrun : t.makeDirectories t.workingDirectory p.components.dropLast with
          ⟨parents, cause | _⟩
        · rw [hrun] at h
          cases h
          rw [makeDirectories_again hrun (fun _ => hgrows.node_directory) hsame]
        · rw [hrun] at h
          obtain ⟨rfl, rfl⟩ := Prod.mk.inj h
          rw [makeDirectories_again hrun (fun _ => hgrows.node_directory) (by simp)]
          by_cases hthere : parents.isDirectory p = true
          · simp only [hthere, hgrows.isDirectory hthere]
          · have halike : Alike parents t' := hsame (by simp [hthere])
            simp only [halike.isDirectory]
      · rename_i hdot
        rw [if_neg hdot]
        exact makeDirectories_again h (fun _ => hgrows.node_directory) hsame

/-! ### Filling -/

/-- Files were put at the given locations, none of them in the place of a
directory, and nothing else was done. -/
structure Fills (filled : Set Location) (t t' : FileTree) : Prop where
  workingDirectory : t'.workingDirectory = t.workingDirectory
  node : ∀ location, location ∉ filled ∧ t'.node? location = t.node? location ∨
    location ∈ filled ∧ t.node? location ≠ some .directory ∧
      ∃ content, t'.node? location = some (.file content)

/-- A path leads to a directory. -/
def Reaches (t : FileTree) (p : Path) : Prop :=
  t.walk t.workingDirectory p.components = .ok (t.destination p) ∧
    t.node? (t.destination p) = some .directory

theorem HasRoom.reaches {base : Path} {name : String} (hname : Path.IsName name)
    (h : t.HasRoom (base.join ⟨name⟩)) : t.Reaches base := by
  have hwalk := (locate_eq_ok_iff.mp h.located).2.2.2
  rw [Path.components_join base hname, walk_append_eq_ok_iff] at hwalk
  obtain ⟨middle, hmiddle, hlast⟩ := hwalk
  obtain rfl := walk_eq_foldl hmiddle
  exact ⟨hmiddle, (walk_cons_eq_ok_iff.mp hlast).1⟩

theorem walk_append_of_ok {location middle : Location} {components : List Path.Component}
    (h : t.walk location components = .ok middle) (rest : List Path.Component) :
    t.walk location (components ++ rest) = t.walk middle rest := by
  induction components generalizing location with
  | nil =>
      cases h
      rfl
  | cons component components ih =>
      obtain ⟨hnode, hfits, hrest⟩ := walk_cons_eq_ok_iff.mp h
      rw [List.cons_append, walk.eq_def, hnode]
      cases component with
      | name name =>
          have hshort : ¬ maxNameLength < name.utf8ByteSize := Nat.not_lt.mpr hfits
          simp only [if_neg hshort]
          exact ih hrest
      | _ => exact ih hrest

/-- The path of an entry is followed to the directory, and then one step on. -/
theorem Reaches.walk_join {base : Path} {name : String} (hname : Path.IsName name)
    (h : t.Reaches base) :
    t.walk t.workingDirectory (base.join ⟨name⟩).components =
      if maxNameLength < name.utf8ByteSize then .error .nameTooLong
      else .ok (t.destination base ++ [name]) := by
  rw [Path.components_join base hname, walk_append_of_ok h.1, walk.eq_def, h.2]
  simp only [walk]

theorem Reaches.locate_join {base : Path} {name : String} (hname : Path.IsName name)
    (h : t.Reaches base) (h' : t'.Reaches base)
    (hstart : t'.workingDirectory = t.workingDirectory) :
    t'.locate (base.join ⟨name⟩) = t.locate (base.join ⟨name⟩) := by
  have hplace : t'.destination base = t.destination base := by
    rw [destination, destination, hstart]
  simp only [locate, h.walk_join hname, h'.walk_join hname, hplace]

theorem reaches_of_lookup {p : Path} (h : t.lookup p = .ok .directory) : t.Reaches p := by
  obtain ⟨hlocate, hnode, -⟩ := lookup_eq_ok_iff.mp h
  exact ⟨(locate_eq_ok_iff.mp hlocate).2.2.2, hnode⟩

theorem Reaches.grows {p : Path} (h : t.Reaches p) (hgrows : Grows changed t t') :
    t'.Reaches p := by
  rw [Reaches, hgrows.workingDirectory, hgrows.destination]
  exact ⟨walk_of_directories (fun _ => hgrows.node_directory) h.1, hgrows.node_directory h.2⟩

/-- A file of a directory is found just where it was found before, unless it is
one of those that were put there. -/
theorem Grows.lookup_join_iff {base : Path} {name : String} {content : FileContent}
    (hgrows : Grows changed t t') (hname : Path.IsName name) (h : t.Reaches base)
    (hkept : t.destination base ++ [name] ∉ changed) :
    t'.lookup (base.join ⟨name⟩) = .ok (.file content) ↔
      t.lookup (base.join ⟨name⟩) = .ok (.file content) := by
  rw [lookup_eq_ok_iff, lookup_eq_ok_iff, h.locate_join hname (h.grows hgrows)
    hgrows.workingDirectory, hgrows.destination, destination_join t base hname,
    hgrows.node_file_iff hkept]

/-- In a directory that is there, there is no room just where directories are. -/
theorem Reaches.write_answer {base : Path} {name : String} (hname : Path.IsName name)
    (h : t.Reaches base) (content : FileContent) :
    (t.write (base.join ⟨name⟩) content).2 =
      match t.locate (base.join ⟨name⟩) with
      | .error cause => .error cause
      | .ok target =>
        if (base.join ⟨name⟩).demandsDirectory ∨ t.node? target = some .directory then
          .error .isDirectory
        else .ok () := by
  rw [write]
  cases hlocate : t.locate (base.join ⟨name⟩) with
  | error cause => rfl
  | ok target =>
      obtain rfl := locate_eq_destination hlocate
      simp only
      split
      · rename_i hdemands
        simp [hdemands]
      · rename_i hdemands
        split
        · rename_i hnode
          simp [hnode]
        · rename_i old hnode
          simp [hdemands, hnode]
        · rename_i hnode
          rw [destination_join t base hname, List.dropLast_concat, h.2,
            ← destination_join t base hname]
          simp [hdemands, hnode]

namespace Fills

theorem grows (h : Fills filled t t') : Grows filled t t' :=
  ⟨h.workingDirectory, fun location => (h.node location).imp And.right .inr⟩

theorem alike_of_empty (h : Fills filled t t') (hempty : ∀ location, location ∉ filled) :
    Alike t t' := by
  refine ⟨h.workingDirectory, fun location => ?_⟩
  rcases h.node location with ⟨-, hsame⟩ | ⟨hmem, -⟩
  · exact hsame
  · exact absurd hmem (hempty location)

theorem node_directory_iff (h : Fills filled t t') {location : Location} :
    t'.node? location = some .directory ↔ t.node? location = some .directory := by
  rcases h.node location with ⟨-, hsame⟩ | ⟨-, hnot, content, hfile⟩
  · rw [hsame]
  · simp [hnot, hfile]

/-- Whether a further file can be written does not depend on those that were. -/
theorem write_answer (h : Fills filled t t') {base : Path} (hbase : t.Reaches base) {name : String}
    (hname : Path.IsName name) (content : FileContent) :
    (t'.write (base.join ⟨name⟩) content).2 = (t.write (base.join ⟨name⟩) content).2 := by
  have hbase' := hbase.grows h.grows
  rw [hbase.write_answer hname, hbase'.write_answer hname,
    hbase.locate_join hname hbase' h.workingDirectory]
  simp only [h.node_directory_iff]

end Fills

end TerrainMap.FileTree
