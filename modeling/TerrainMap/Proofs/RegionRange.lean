import TerrainMap.Proofs.FileTree.Alike
import TerrainMap.RegionRange

/-!
Writing the range file. Its directory is made first, and then the file is
written if there is room for it. Where it cannot be written, directories are
all that is made.
-/

namespace TerrainMap.RegionRange

variable {range : RegionRange} {directory : Path} {t t' : FileTree}

theorem isName_fileName : Path.IsName fileName := by decide

def filePath (directory : Path) : Path := directory.join ⟨fileName⟩

/-- The directory can be made, and then there is room for the range file. -/
structure Fits (directory : Path) (t : FileTree) : Prop where
  made : (t.createDirectories directory).2 = .ok ()
  room : (t.createDirectories directory).1.HasRoom (filePath directory)

theorem write_of_fits (range : RegionRange) (h : Fits directory t) :
    range.write directory t =
      ((t.createDirectories directory).1.set (t.destination (filePath directory))
        (.file (.bytes range.text.toUTF8)), .ok (filePath directory)) := by
  obtain ⟨hmade, hroom⟩ := h
  have hplace := (FileTree.grows_createDirectories t directory).destination (filePath directory)
  rcases hrun : t.createDirectories directory with ⟨made, cause | _⟩
  · simp [hrun] at hmade
  · rw [hrun] at hroom hplace
    simp only [write, hrun]
    rw [filePath] at hroom hplace
    rw [hroom.write, hplace, filePath]

theorem write_of_not_fits (range : RegionRange) (h : ¬ Fits directory t) :
    ∃ cause, range.write directory t = ((t.createDirectories directory).1, .error cause) := by
  rcases hrun : t.createDirectories directory with ⟨made, cause | _⟩
  · exact ⟨.directory directory cause, by simp only [write, hrun]⟩
  · have hroom : ¬ made.HasRoom (filePath directory) := fun hroom =>
      h ⟨by rw [hrun], by rw [hrun]; exact hroom⟩
    rcases FileTree.write_cases made (filePath directory) (.bytes range.text.toUTF8) with
      ⟨hroom', -⟩ | ⟨-, cause, hwrite⟩
    · exact absurd hroom' hroom
    · rw [filePath] at hwrite
      exact ⟨.file (filePath directory) cause, by simp only [write, hrun, hwrite, filePath]⟩

/-- The range file is found with its text. -/
theorem lookup_write (range : RegionRange) (h : Fits directory t) :
    (range.write directory t).1.lookup (filePath directory) =
      .ok (.file (.bytes range.text.toUTF8)) := by
  have hplace := (FileTree.grows_createDirectories t directory).destination (filePath directory)
  rw [write_of_fits range h, ← hplace]
  exact h.room.lookup_set _

/-- Nothing is written but the range file. -/
theorem grows_write (range : RegionRange) (h : Fits directory t) :
    FileTree.Grows {t.destination (filePath directory)} t (range.write directory t).1 := by
  have hmade := FileTree.grows_createDirectories t directory
  have hroom := h.room.node?_ne
  rw [hmade.destination] at hroom
  rw [write_of_fits range h]
  exact (hmade.mono (Set.empty_subset _)).trans (FileTree.grows_set_file hroom _)

/-- The order of the nodes does not matter. -/
theorem alike_write (range : RegionRange) (directory : Path) (h : FileTree.Alike t t') :
    (range.write directory t').2 = (range.write directory t).2 ∧
      FileTree.Alike (range.write directory t).1 (range.write directory t').1 := by
  obtain ⟨hresult, hmade⟩ := h.createDirectories directory
  rcases hrun : t.createDirectories directory with ⟨made, result⟩
  rcases hrun' : t'.createDirectories directory with ⟨made', result'⟩
  rw [hrun, hrun'] at hresult hmade
  obtain rfl : result' = result := hresult
  simp only [write, hrun, hrun']
  cases result' with
  | error cause => exact ⟨rfl, hmade⟩
  | ok _ =>
      obtain ⟨hanswer, hwritten⟩ :=
        hmade.write (directory.join ⟨fileName⟩) (.bytes range.text.toUTF8)
      simp only
      rcases hwrite : made.write (directory.join ⟨fileName⟩) (.bytes range.text.toUTF8) with
        ⟨after, answer⟩
      rcases hwrite' : made'.write (directory.join ⟨fileName⟩) (.bytes range.text.toUTF8) with
        ⟨after', answer'⟩
      rw [hwrite, hwrite'] at hanswer hwritten
      obtain rfl : answer' = answer := hanswer
      cases answer' with
      | error cause => exact ⟨rfl, hwritten⟩
      | ok _ => exact ⟨rfl, hwritten⟩

theorem ofRegions?_eq_none_iff {regions : List RegionCoord} :
    ofRegions? regions = none ↔ regions = [] := by
  cases regions with
  | nil => exact iff_of_true rfl rfl
  | cons first rest => exact iff_of_false (Option.some_ne_none _) (List.cons_ne_nil _ _)

end TerrainMap.RegionRange
