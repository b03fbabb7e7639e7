import TerrainMap.Proofs.FileTree.Filling
import TerrainMap.Sink

/-!
What the image sink does to a tree. It makes the directories above a file, then
the image, and then writes the file, if there is room for it; what it answers is
decided by these three steps, and an image that is refused leaves no more than
directories.
-/

namespace TerrainMap

namespace FileTree

/-- The empty path asks for no directory. -/
theorem createDirectories_empty (t : FileTree) : t.createDirectories ⟨""⟩ = (t, .ok ()) := by
  have hcomponents : (Path.mk "").components = [] := by decide
  have hdot : (Path.mk "").endsInDot = false := by decide
  simp [createDirectories, hcomponents, hdot, makeDirectories, maxPathLength]

end FileTree

namespace Sink

/-- The answer of the sink, from what came of its three steps. -/
def answer (path parent : Path) (made : Except FileError Unit) (fault? : Option String)
    (written : Except FileError Unit) : Attempt SinkError Unit :=
  match made, fault?, written with
  | .error cause, _, _ => .fail (.create parent cause)
  | .ok (), some detail, _ => .fail (.encode path detail)
  | .ok (), none, .error cause => .fail (.encode path cause.message)
  | .ok (), none, .ok () => .ok ()

theorem answer_eq_ok_iff {path parent : Path} {made written : Except FileError Unit}
    {fault? : Option String} :
    answer path parent made fault? written = .ok () ↔
      made = .ok () ∧ fault? = none ∧ written = .ok () := by
  rcases made with cause | _
  · simp [answer, Attempt.fail]
  · rcases fault? with _ | detail
    · rcases written with cause | _
      · simp [answer, Attempt.fail]
      · simp [answer]
    · simp [answer, Attempt.fail]

variable {host : Host} {raster : Raster} {path parent : Path} {t t' : FileTree}

section Image

variable (hwidth : raster.width ≠ 0) (hheight : raster.height ≠ 0)
include hwidth hheight

theorem saveImage_eq (u : FileTree) :
    saveImage raster path u =
      (answer path parent (.ok ()) none (u.write path (.image raster)).2,
        (u.write path (.image raster)).1) := by
  simp only [saveImage, hwidth, hheight, ne_eq, not_false_eq_true, and_self, if_true]
  rcases u.write path (.image raster) with ⟨written, cause | _⟩
  · rfl
  · rfl

theorem writeImage_eq (host : Host) (path parent : Path) (u : FileTree) :
    writeImage host raster path u =
      (answer path parent (.ok ()) (host.encodingFault? raster path)
        (u.write path (.image raster)).2,
      if host.encodingFault? raster path = none then (u.write path (.image raster)).1 else u) := by
  rw [writeImage]
  rcases host.encodingFault? raster path with _ | detail
  · exact saveImage_eq hwidth hheight u
  · rfl

variable (hparent : path.parent? = some parent)
include hparent

/-- The sink at work on an image that has pixels. -/
theorem writeInto_eq (t : FileTree) :
    writeInto host raster path t =
      (answer path parent (t.createDirectories parent).2 (host.encodingFault? raster path)
        ((t.createDirectories parent).1.write path (.image raster)).2,
      if (t.createDirectories parent).2 = .ok () ∧ host.encodingFault? raster path = none then
        ((t.createDirectories parent).1.write path (.image raster)).1
      else (t.createDirectories parent).1) := by
  have himage := writeImage_eq hwidth hheight host path parent
  rw [writeInto, hparent]
  simp only
  split
  · rename_i hempty
    have hnone : parent = ⟨""⟩ := congrArg Path.mk hempty
    rw [himage, hnone, FileTree.createDirectories_empty]
    simp
  · rcases t.createDirectories parent with ⟨made, cause | _⟩
    · simp [answer]
    · simp [himage]

/-- An image is taken where its directories can be made, the host can make it,
and there is room for it. -/
theorem writeInto_ok_iff :
    (writeInto host raster path t).1 = .ok () ↔
      (t.createDirectories parent).2 = .ok () ∧ host.encodingFault? raster path = none ∧
        (t.createDirectories parent).1.HasRoom path := by
  rw [writeInto_eq hwidth hheight hparent, answer_eq_ok_iff, FileTree.write_eq_ok_iff]

theorem writeInto_of_ok (h : (writeInto host raster path t).1 = .ok ()) :
    (writeInto host raster path t).2 =
      (t.createDirectories parent).1.set (t.destination path) (.file (.image raster)) := by
  obtain ⟨hmade, hmakes, hroom⟩ := (writeInto_ok_iff hwidth hheight hparent).mp h
  have hgrows := FileTree.grows_createDirectories t parent
  rw [writeInto_eq hwidth hheight hparent, if_pos ⟨hmade, hmakes⟩, hroom.write, hgrows.destination]

/-- An image that is refused leaves the directories that could be made. -/
theorem writeInto_of_error (h : (writeInto host raster path t).1 ≠ .ok ()) :
    (writeInto host raster path t).2 = (t.createDirectories parent).1 := by
  rw [writeInto_eq hwidth hheight hparent]
  split
  · next hsteps =>
    have hroom : ¬ (t.createDirectories parent).1.HasRoom path := fun hroom =>
      h ((writeInto_ok_iff hwidth hheight hparent).mpr ⟨hsteps.1, hsteps.2, hroom⟩)
    rw [FileTree.write_of_not_hasRoom hroom]
  · rfl

/-- An image changes nothing but its own place. -/
theorem grows_writeInto :
    FileTree.Grows {t.destination path} t (writeInto host raster path t).2 := by
  have hmade := FileTree.grows_createDirectories t parent
  by_cases h : (writeInto host raster path t).1 = .ok ()
  · have hroom := ((writeInto_ok_iff hwidth hheight hparent).mp h).2.2.node?_ne
    rw [hmade.destination] at hroom
    rw [writeInto_of_ok hwidth hheight hparent h]
    exact (hmade.mono (Set.empty_subset _)).trans (FileTree.grows_set_file hroom _)
  · rw [writeInto_of_error hwidth hheight hparent h]
    exact hmade.mono (Set.empty_subset _)

/-- The order of the nodes does not matter. -/
theorem alike_writeInto (h : FileTree.Alike t t') :
    (writeInto host raster path t').1 = (writeInto host raster path t).1 ∧
      FileTree.Alike (writeInto host raster path t).2 (writeInto host raster path t').2 := by
  obtain ⟨hmade, halike⟩ := h.createDirectories parent
  obtain ⟨hwritten, hafter⟩ := halike.write path (.image raster)
  rw [writeInto_eq hwidth hheight hparent, writeInto_eq hwidth hheight hparent, hmade, hwritten]
  refine ⟨rfl, ?_⟩
  split
  · exact hafter
  · exact halike

end Image

end Sink

end TerrainMap
