import Mathlib.Data.List.Nodup
import TerrainMap.FileTree
import TerrainMap.Proofs.Path

/-!
What a directory lists. A tree is well formed when every location has one node
and every step on the way to it has the name of an entry; a directory of such a
tree lists its entries once each.
-/

namespace TerrainMap.FileTree

variable {t : FileTree} {directory : Path} {names : List String}

@[mk_iff] structure WellFormed (t : FileTree) : Prop where
  distinct : (t.nodes.map (·.1)).Nodup
  names : ∀ entry ∈ t.nodes, ∀ name ∈ entry.1, Path.IsName name

instance (t : FileTree) : Decidable t.WellFormed := decidable_of_iff _ (wellFormed_iff t).symm

theorem childName?_eq_some_iff {location child : Location} {name : String} :
    childName? location child = some name ↔ child = location ++ [name] := by
  rw [childName?]
  split
  · rename_i name' hprefix
    have hchild := List.isPrefixOf?_eq_some_iff_append_eq.mp hprefix
    rw [← hchild]
    simp
  · rename_i hother
    refine iff_of_false (by simp) ?_
    rintro rfl
    exact hother name (List.isPrefixOf?_eq_some_iff_append_eq.mpr rfl)

/-- What can be listed is a directory, and its entries are the nodes one step
below it. -/
theorem list_spec (h : t.list directory = .ok names) :
    t.lookup directory = .ok .directory ∧
      ∃ location, names = (t.nodes.map (·.1)).filterMap (childName? location) := by
  simp only [list, bind, Except.bind] at h
  cases hlookup : t.lookup directory with
  | error cause => simp [hlookup] at h
  | ok node =>
      cases node with
      | file content => simp [hlookup] at h
      | directory =>
          cases hlocate : t.locate directory with
          | error cause => simp [hlookup, hlocate] at h
          | ok location =>
              simp only [hlookup, hlocate, pure, Except.pure, Except.ok.injEq] at h
              refine ⟨rfl, location, ?_⟩
              rw [← h, List.filterMap_map]
              rfl

theorem isDirectory_of_list (h : t.list directory = .ok names) :
    t.isDirectory directory = true := by
  rw [isDirectory, (list_spec h).1]

theorem nodup_of_list (ht : t.WellFormed) (h : t.list directory = .ok names) : names.Nodup := by
  obtain ⟨-, location, rfl⟩ := list_spec h
  apply ht.distinct.filterMap
  intro child child' name hchild hchild'
  rw [childName?_eq_some_iff.mp hchild, childName?_eq_some_iff.mp hchild']

theorem isName_of_list (ht : t.WellFormed) (h : t.list directory = .ok names) {name : String}
    (hname : name ∈ names) : Path.IsName name := by
  obtain ⟨-, location, rfl⟩ := list_spec h
  obtain ⟨child, hchild, hstep⟩ := List.mem_filterMap.mp hname
  obtain ⟨entry, hentry, rfl⟩ := List.mem_map.mp hchild
  apply ht.names entry hentry
  rw [childName?_eq_some_iff.mp hstep]
  exact List.mem_append_right location (List.mem_singleton_self name)

end TerrainMap.FileTree
