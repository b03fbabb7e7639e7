import Mathlib.Data.Set.Basic
import TerrainMap.Proofs.FileTree

/-!
How a tree grows. Without symbolic links a path leads to a location that does
not depend on the tree, if it leads anywhere. Making directories and writing
files therefore changes a tree in one way only: directories appear where
nothing was, and files appear, or get new contents, at known locations. What
was there stays, and so does every way to it.
-/

namespace TerrainMap.FileTree

variable {t t' t'' : FileTree} {changed changed' : Set Location} {location : Location}

/-! ### Where paths lead -/

/-- One component further. -/
def follow (location : Location) : Path.Component → Location
  | .root => []
  | .here => location
  | .up => location.dropLast
  | .name name => location ++ [name]

/-- The location that a path leads to. -/
def destination (t : FileTree) (p : Path) : Location :=
  p.components.foldl follow t.workingDirectory

/-- No name is too long. -/
def Fits : Path.Component → Prop
  | .name name => name.utf8ByteSize ≤ maxNameLength
  | _ => True

theorem walk_cons_eq_ok_iff {component : Path.Component} {rest : List Path.Component}
    {target : Location} :
    t.walk location (component :: rest) = .ok target ↔
      t.node? location = some .directory ∧ Fits component ∧
        t.walk (follow location component) rest = .ok target := by
  rw [walk.eq_def]
  cases t.node? location with
  | none => simp
  | some node =>
      cases node with
      | file content => simp
      | directory =>
          cases component with
          | name name =>
              by_cases hlong : maxNameLength < name.utf8ByteSize
              · simp [hlong, Fits]
              · simp [hlong, Fits, follow, Nat.le_of_not_lt hlong]
          | _ => simp [Fits, follow]

theorem walk_append_eq_ok_iff {components rest : List Path.Component} {target : Location} :
    t.walk location (components ++ rest) = .ok target ↔
      ∃ middle, t.walk location components = .ok middle ∧ t.walk middle rest = .ok target := by
  induction components generalizing location with
  | nil => simp [walk]
  | cons component components ih =>
      simp only [List.cons_append, walk_cons_eq_ok_iff, ih]
      constructor
      · rintro ⟨hnode, hfits, middle, hmiddle, hrest⟩
        exact ⟨middle, ⟨hnode, hfits, hmiddle⟩, hrest⟩
      · rintro ⟨middle, ⟨hnode, hfits, hmiddle⟩, hrest⟩
        exact ⟨hnode, hfits, middle, hmiddle, hrest⟩

theorem walk_eq_foldl {components : List Path.Component} {target : Location}
    (h : t.walk location components = .ok target) : target = components.foldl follow location := by
  induction components generalizing location with
  | nil => exact (Except.ok.inj h).symm
  | cons component components ih => exact ih (walk_cons_eq_ok_iff.mp h).2.2

/-- A way leads on as long as its directories are there. -/
theorem walk_of_directories
    (h : ∀ location, t.node? location = some .directory → t'.node? location = some .directory)
    {components : List Path.Component} {target : Location}
    (hwalk : t.walk location components = .ok target) :
    t'.walk location components = .ok target := by
  induction components generalizing location with
  | nil => exact hwalk
  | cons component components ih =>
      rw [walk_cons_eq_ok_iff] at hwalk ⊢
      exact ⟨h location hwalk.1, hwalk.2.1, ih hwalk.2.2⟩

theorem locate_eq_ok_iff {p : Path} {target : Location} :
    t.locate p = .ok target ↔
      p.text.toList.contains (Char.ofNat 0) = false ∧ p.text.utf8ByteSize ≤ maxPathLength ∧
        p.text ≠ "" ∧ t.walk t.workingDirectory p.components = .ok target := by
  rw [locate]
  split
  · simp_all
  · split
    · simp_all
    · split
      · simp_all
      · simp_all

theorem locate_eq_destination {p : Path} {target : Location} (h : t.locate p = .ok target) :
    target = t.destination p :=
  walk_eq_foldl (locate_eq_ok_iff.mp h).2.2.2

theorem lookup_eq_ok_iff {p : Path} {node : FileNode} :
    t.lookup p = .ok node ↔
      t.locate p = .ok (t.destination p) ∧ t.node? (t.destination p) = some node ∧
        (node = .directory ∨ p.demandsDirectory = false) := by
  simp only [lookup, bind, Except.bind]
  cases hlocate : t.locate p with
  | error cause => simp
  | ok target =>
      obtain rfl := locate_eq_destination hlocate
      simp only
      cases t.node? (t.destination p) with
      | none => simp [throw, throwThe, MonadExceptOf.throw]
      | some found =>
          cases found with
          | directory =>
              simp only [pure, Except.pure, Except.ok.injEq, Option.some.injEq, true_and,
                iff_self_and]
              rintro rfl
              exact .inl rfl
          | file content =>
              simp only [pure, Except.pure, throw, throwThe, MonadExceptOf.throw]
              split
              · rename_i hdemands
                simp only [reduceCtorEq, Option.some.injEq, true_and, hdemands, false_iff]
                rintro ⟨rfl, h | h⟩
                · cases h
                · cases h
              · rename_i hdemands
                simp [hdemands]

theorem isDirectory_iff {p : Path} : t.isDirectory p = true ↔ t.lookup p = .ok .directory := by
  rw [isDirectory]
  split
  · rename_i hlookup
    exact iff_of_true rfl hlookup
  · rename_i hother
    exact iff_of_false Bool.false_ne_true fun hlookup => hother hlookup

theorem destination_join (t : FileTree) (base : Path) {name : String} (hname : Path.IsName name) :
    t.destination (base.join ⟨name⟩) = t.destination base ++ [name] := by
  rw [destination, destination, Path.components_join base hname, List.foldl_append]
  rfl

/-! ### Growth -/

/-- A tree has grown: there are directories where nothing was, and files at some
of the given locations, none of them in the place of a directory. -/
structure Grows (changed : Set Location) (t t' : FileTree) : Prop where
  workingDirectory : t'.workingDirectory = t.workingDirectory
  node : ∀ location, t'.node? location = t.node? location ∨
    t.node? location = none ∧ t'.node? location = some .directory ∨
    location ∈ changed ∧ t.node? location ≠ some .directory ∧
      ∃ content, t'.node? location = some (.file content)

namespace Grows

theorem refl (changed : Set Location) (t : FileTree) : Grows changed t t :=
  ⟨rfl, fun _ => .inl rfl⟩

theorem mono (h : Grows changed t t') (hsubset : changed ⊆ changed') : Grows changed' t t' := by
  refine ⟨h.workingDirectory, fun location => ?_⟩
  rcases h.node location with hsame | hmade | ⟨hmem, hput⟩
  · exact .inl hsame
  · exact .inr (.inl hmade)
  · exact .inr (.inr ⟨hsubset hmem, hput⟩)

theorem trans (h : Grows changed t t') (h' : Grows changed t' t'') : Grows changed t t'' := by
  refine ⟨h'.workingDirectory.trans h.workingDirectory, fun location => ?_⟩
  have hnode := h.node location
  have hnode' := h'.node location
  grind

theorem node_directory (h : Grows changed t t') (hnode : t.node? location = some .directory) :
    t'.node? location = some .directory := by
  rcases h.node location with hsame | ⟨hnone, -⟩ | ⟨-, hnot, -⟩
  · rw [hsame, hnode]
  · simp [hnode] at hnone
  · exact absurd hnode hnot

/-- Away from the changed locations the files are those that were there. -/
theorem node_file_iff (h : Grows changed t t') (hlocation : location ∉ changed)
    {content : FileContent} :
    t'.node? location = some (.file content) ↔ t.node? location = some (.file content) := by
  rcases h.node location with hsame | ⟨hnone, hmade⟩ | ⟨hmem, -⟩
  · rw [hsame]
  · simp [hnone, hmade]
  · exact absurd hmem hlocation

theorem locate (h : Grows changed t t') {p : Path} {target : Location}
    (hlocate : t.locate p = .ok target) : t'.locate p = .ok target := by
  rw [locate_eq_ok_iff] at hlocate ⊢
  rw [h.workingDirectory]
  exact ⟨hlocate.1, hlocate.2.1, hlocate.2.2.1,
    walk_of_directories (fun _ => h.node_directory) hlocate.2.2.2⟩

theorem destination (h : Grows changed t t') (p : Path) : t'.destination p = t.destination p := by
  rw [FileTree.destination, FileTree.destination, h.workingDirectory]

theorem lookup_directory (h : Grows changed t t') {p : Path}
    (hlookup : t.lookup p = .ok .directory) : t'.lookup p = .ok .directory := by
  rw [lookup_eq_ok_iff] at hlookup ⊢
  rw [h.destination]
  exact ⟨h.locate hlookup.1, h.node_directory hlookup.2.1, .inl rfl⟩

theorem isDirectory (h : Grows changed t t') {p : Path} (hp : t.isDirectory p = true) :
    t'.isDirectory p = true := by
  rw [isDirectory_iff] at hp ⊢
  exact h.lookup_directory hp

theorem lookup_file (h : Grows changed t t') {p : Path} {content : FileContent}
    (hlookup : t.lookup p = .ok (.file content)) (hp : t.destination p ∉ changed) :
    t'.lookup p = .ok (.file content) := by
  rw [lookup_eq_ok_iff] at hlookup ⊢
  rw [h.destination]
  exact ⟨h.locate hlookup.1, (h.node_file_iff hp).mpr hlookup.2.1, hlookup.2.2⟩

end Grows

/-! ### Making directories -/

theorem lookup_filter_ne {other : Location} (h : other ≠ location)
    (nodes : List (Location × FileNode)) :
    (nodes.filter fun entry => entry.1 != location).lookup other = nodes.lookup other := by
  induction nodes with
  | nil => rfl
  | cons entry nodes ih =>
      obtain ⟨place, node⟩ := entry
      by_cases hplace : place = location
      · have hskip : (other == place) = false := by simpa [hplace] using h
        rw [List.filter_cons_of_neg (by simpa using hplace), ih, List.lookup_cons, hskip]
      · rw [List.filter_cons_of_pos (by simpa using hplace), List.lookup_cons, List.lookup_cons,
          ih]

theorem node?_set (hlocation : location ≠ []) (node : FileNode) (other : Location) :
    (t.set location node).node? other =
      if other = location then some node else t.node? other := by
  rw [node?, node?, set]
  by_cases hother : other = location
  · subst hother
    simp [hlocation]
  · have hskip : (other == location) = false := by simpa using hother
    rw [List.lookup_cons, hskip, lookup_filter_ne hother, if_neg hother]

theorem ne_nil_of_node? (h : t.node? location ≠ some .directory) : location ≠ [] := by
  rintro rfl
  exact h rfl

theorem grows_set_directory (hnode : t.node? location = none) :
    Grows changed t (t.set location .directory) := by
  have hroot : location ≠ [] := by
    rintro rfl
    cases hnode
  refine ⟨rfl, fun other => ?_⟩
  rw [node?_set hroot]
  split
  · rename_i hother
    subst hother
    exact .inr (.inl ⟨hnode, rfl⟩)
  · exact .inl rfl

theorem grows_set_file (hnode : t.node? location ≠ some .directory) (content : FileContent) :
    Grows {location} t (t.set location (.file content)) := by
  refine ⟨rfl, fun other => ?_⟩
  rw [node?_set (ne_nil_of_node? hnode)]
  split
  · rename_i hother
    subst hother
    exact .inr (.inr ⟨rfl, hnode, content, rfl⟩)
  · exact .inl rfl

theorem grows_makeDirectories (t : FileTree) (location : Location)
    (components : List Path.Component) :
    Grows ∅ t (t.makeDirectories location components).1 := by
  induction components generalizing t location with
  | nil => exact .refl ∅ t
  | cons component rest ih =>
      cases component with
      | name name =>
          simp only [makeDirectories]
          split
          · exact .refl ∅ t
          · split
            · exact ih t _
            · exact .refl ∅ t
            · rename_i hnode
              exact (grows_set_directory hnode).trans (ih _ _)
      | root => exact ih t _
      | here => exact ih t _
      | up => exact ih t _

theorem grows_createDirectories (t : FileTree) (p : Path) :
    Grows ∅ t (t.createDirectories p).1 := by
  rw [createDirectories]
  split
  · exact .refl ∅ t
  · split
    · exact .refl ∅ t
    · split
      · have hmade := grows_makeDirectories t t.workingDirectory p.components.dropLast
        split
        · rename_i made hresult
          rwa [hresult] at hmade
        · exact hmade
      · exact grows_makeDirectories t t.workingDirectory p.components

/-! ### Writing files -/

/-- There is room for a file at a path: the path leads somewhere, and there is a
file or nothing yet in a directory. -/
structure HasRoom (t : FileTree) (p : Path) : Prop where
  located : t.locate p = .ok (t.destination p)
  noDirectory : p.demandsDirectory = false
  room : (∃ content, t.node? (t.destination p) = some (.file content)) ∨
    t.node? (t.destination p) = none ∧ t.node? (t.destination p).dropLast = some .directory

theorem HasRoom.node?_ne {p : Path} (h : t.HasRoom p) :
    t.node? (t.destination p) ≠ some .directory := by
  rcases h.room with ⟨content, hfile⟩ | ⟨hnone, -⟩
  · simp [hfile]
  · simp [hnone]

/-- A file is written where there is room for it, and otherwise nothing is. -/
theorem write_cases (t : FileTree) (p : Path) (content : FileContent) :
    t.HasRoom p ∧ t.write p content = (t.set (t.destination p) (.file content), .ok ()) ∨
      ¬ t.HasRoom p ∧ ∃ cause, t.write p content = (t, .error cause) := by
  rw [write]
  cases hlocate : t.locate p with
  | error cause =>
      refine .inr ⟨fun h => ?_, cause, rfl⟩
      cases hlocate.symm.trans h.located
  | ok target =>
      obtain rfl := locate_eq_destination hlocate
      simp only
      by_cases hdemands : p.demandsDirectory
      · rw [if_pos hdemands]
        exact .inr ⟨fun h => by simp [h.noDirectory] at hdemands, _, rfl⟩
      · rw [if_neg hdemands]
        have hplain : p.demandsDirectory = false := by simpa using hdemands
        split
        · rename_i hdirectory
          exact .inr ⟨fun h => h.node?_ne hdirectory, _, rfl⟩
        · rename_i old hfile
          exact .inl ⟨⟨hlocate, hplain, .inl ⟨old, hfile⟩⟩, rfl⟩
        · rename_i hnone
          split
          · rename_i hparent
            exact .inl ⟨⟨hlocate, hplain, .inr ⟨hnone, hparent⟩⟩, rfl⟩
          · rename_i other hparent
            refine .inr ⟨fun h => ?_, _, rfl⟩
            simpa [hnone, hparent] using h.room
          · rename_i hparent
            refine .inr ⟨fun h => ?_, _, rfl⟩
            simpa [hnone, hparent] using h.room

theorem HasRoom.write {p : Path} (h : t.HasRoom p) (content : FileContent) :
    t.write p content = (t.set (t.destination p) (.file content), .ok ()) :=
  (write_cases t p content).elim And.right fun hnone => absurd h hnone.1

theorem write_of_not_hasRoom {p : Path} {content : FileContent} (h : ¬ t.HasRoom p) :
    (t.write p content).1 = t := by
  rcases write_cases t p content with ⟨hroom, -⟩ | ⟨-, cause, hwrite⟩
  · exact absurd hroom h
  · rw [hwrite]

theorem write_eq_ok_iff {p : Path} {content : FileContent} :
    (t.write p content).2 = .ok () ↔ t.HasRoom p := by
  rcases write_cases t p content with ⟨hroom, hwrite⟩ | ⟨hroom, cause, hwrite⟩
  · simp [hroom, hwrite]
  · simp [hroom, hwrite]

/-- What was written is found. -/
theorem HasRoom.lookup_set {p : Path} (h : t.HasRoom p) (content : FileContent) :
    (t.set (t.destination p) (.file content)).lookup p = .ok (.file content) := by
  have hgrows := grows_set_file h.node?_ne content
  rw [lookup_eq_ok_iff, hgrows.destination, node?_set (ne_nil_of_node? h.node?_ne), if_pos rfl]
  exact ⟨hgrows.locate h.located, rfl, .inr h.noDirectory⟩

end TerrainMap.FileTree
