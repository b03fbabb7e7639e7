import Mathlib.Data.List.Perm.Basic
import TerrainMap.Proofs.FileTree.Growth

/-!
Trees that differ in nothing but the order in which their nodes are kept, which
is the order that a directory is listed in. Nothing else that is done with a
tree can tell them apart.
-/

namespace TerrainMap.FileTree

variable {t t' : FileTree}

/-- Two trees with the same nodes. -/
structure Alike (t t' : FileTree) : Prop where
  workingDirectory : t'.workingDirectory = t.workingDirectory
  node : ∀ location, t'.node? location = t.node? location

/-! ### The order of the nodes -/

theorem lookup_eq_of_perm {nodes nodes' : List (Location × FileNode)} (h : nodes.Perm nodes')
    (hnodup : (nodes.map (·.1)).Nodup) (location : Location) :
    nodes.lookup location = nodes'.lookup location := by
  induction h with
  | nil => rfl
  | cons entry _ ih =>
      rw [List.lookup_cons, List.lookup_cons, ih (List.nodup_cons.mp hnodup).2]
  | swap entry entry' rest =>
      have hne : entry'.1 ≠ entry.1 := by
        rintro heq
        simp only [List.map_cons, List.nodup_cons, heq] at hnodup
        exact hnodup.1 List.mem_cons_self
      rw [List.lookup_cons, List.lookup_cons, List.lookup_cons, List.lookup_cons]
      cases hfirst : location == entry'.1 with
      | false => rfl
      | true =>
          have hother : (location == entry.1) = false := by
            rw [beq_iff_eq.mp hfirst]
            simpa using hne
          rw [hother]
  | trans h₁ _ ih₁ ih₂ => exact (ih₁ hnodup).trans (ih₂ ((h₁.map _).nodup_iff.mp hnodup))

theorem alike_of_perm (ht : t.WellFormed) (h : t'.nodes.Perm t.nodes)
    (hstart : t'.workingDirectory = t.workingDirectory) : Alike t t' := by
  refine ⟨hstart, fun location => ?_⟩
  rw [node?, node?, lookup_eq_of_perm h.symm ht.distinct]

namespace Alike

/-! ### What is found -/

theorem walk (h : Alike t t') (location : Location) (components : List Path.Component) :
    t'.walk location components = t.walk location components := by
  induction components generalizing location with
  | nil => rfl
  | cons component rest ih =>
      rw [FileTree.walk.eq_def, FileTree.walk.eq_def t]
      simp only [h.node, ih]

theorem locate (h : Alike t t') (p : Path) : t'.locate p = t.locate p := by
  rw [FileTree.locate, FileTree.locate, h.workingDirectory, h.walk]

theorem lookup (h : Alike t t') (p : Path) : t'.lookup p = t.lookup p := by
  simp only [FileTree.lookup, h.locate, h.node]

theorem isDirectory (h : Alike t t') (p : Path) : t'.isDirectory p = t.isDirectory p := by
  rw [FileTree.isDirectory, FileTree.isDirectory, h.lookup]

theorem isFile (h : Alike t t') (p : Path) : t'.isFile p = t.isFile p := by
  rw [FileTree.isFile, FileTree.isFile, h.lookup]

/-! ### What is changed -/

theorem set (h : Alike t t') {location : Location} (hlocation : location ≠ []) (node : FileNode) :
    Alike (t.set location node) (t'.set location node) := by
  refine ⟨h.workingDirectory, fun other => ?_⟩
  rw [node?_set hlocation, node?_set hlocation, h.node]

theorem makeDirectories (h : Alike t t') (location : Location) (components : List Path.Component) :
    (t'.makeDirectories location components).2 = (t.makeDirectories location components).2 ∧
      Alike (t.makeDirectories location components).1
        (t'.makeDirectories location components).1 := by
  induction components generalizing t t' location with
  | nil => exact ⟨rfl, h⟩
  | cons component rest ih =>
      cases component with
      | name name =>
          simp only [FileTree.makeDirectories, h.node]
          split
          · exact ⟨rfl, h⟩
          · split
            · exact ih h _
            · exact ⟨rfl, h⟩
            · exact ih (h.set (List.concat_ne_nil _ _) _) _
      | root => exact ih h _
      | here => exact ih h _
      | up => exact ih h _

theorem createDirectories (h : Alike t t') (p : Path) :
    (t'.createDirectories p).2 = (t.createDirectories p).2 ∧
      Alike (t.createDirectories p).1 (t'.createDirectories p).1 := by
  simp only [FileTree.createDirectories, h.workingDirectory]
  split
  · exact ⟨rfl, h⟩
  · split
    · exact ⟨rfl, h⟩
    · split
      · obtain ⟨hresult, hmade⟩ :=
          h.makeDirectories t.workingDirectory p.components.dropLast
        generalize t.makeDirectories t.workingDirectory p.components.dropLast = run at *
        generalize t'.makeDirectories t.workingDirectory p.components.dropLast = run' at *
        obtain ⟨made, result⟩ := run
        obtain ⟨made', result'⟩ := run'
        obtain rfl : result' = result := hresult
        cases result' with
        | ok _ => exact ⟨by simp only [hmade.isDirectory], hmade⟩
        | error cause => exact ⟨rfl, hmade⟩
      · exact h.makeDirectories t.workingDirectory p.components

theorem destination (h : Alike t t') (p : Path) : t'.destination p = t.destination p := by
  rw [FileTree.destination, FileTree.destination, h.workingDirectory]

theorem write (h : Alike t t') (p : Path) (content : FileContent) :
    (t'.write p content).2 = (t.write p content).2 ∧
      Alike (t.write p content).1 (t'.write p content).1 := by
  simp only [FileTree.write, h.locate]
  cases t.locate p with
  | error cause => exact ⟨rfl, h⟩
  | ok target =>
      simp only [h.node]
      split
      · exact ⟨rfl, h⟩
      · split
        · exact ⟨rfl, h⟩
        · rename_i old hfile
          have hplace : t.node? target ≠ some .directory := by simp [hfile]
          exact ⟨rfl, h.set (ne_nil_of_node? hplace) _⟩
        · rename_i hnone
          have hplace : t.node? target ≠ some .directory := by simp [hnone]
          split
          · exact ⟨rfl, h.set (ne_nil_of_node? hplace) _⟩
          · exact ⟨rfl, h⟩
          · exact ⟨rfl, h⟩

end Alike

end TerrainMap.FileTree
