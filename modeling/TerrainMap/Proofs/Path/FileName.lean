import TerrainMap.Proofs.Path

/-!
What a path names at its end. It is the last of the pieces between slashes that
stands for anything, so that slashes at the end and lone dots do not count; two
dots, a lone dot in front and the root are no names.
-/

namespace TerrainMap.Path

theorem slash_not_mem_of_mem_splitOn {chars piece : List Char} (h : piece ∈ chars.splitOn '/') :
    '/' ∉ piece := by
  induction chars generalizing piece with
  | nil =>
      rw [List.splitOn_nil, List.mem_singleton] at h
      rw [h]
      exact List.not_mem_nil
  | cons c rest ih =>
      rw [List.splitOn_cons_eq_if_modifyHead] at h
      split at h
      · rcases List.mem_cons.mp h with rfl | h
        · exact List.not_mem_nil
        · exact ih h
      · rename_i hc
        obtain ⟨first, more, hsplit⟩ := List.exists_cons_of_ne_nil (List.splitOn_ne_nil '/' rest)
        rw [hsplit, List.modifyHead_cons] at h
        rcases List.mem_cons.mp h with rfl | h
        · refine List.not_mem_cons_of_ne_of_not_mem ?_ (ih (hsplit ▸ List.mem_cons_self))
          rintro rfl
          exact hc rfl
        · exact ih (hsplit ▸ List.mem_cons_of_mem _ h)

theorem componentOfPiece?_eq_none_iff {piece : List Char} :
    componentOfPiece? piece = none ↔ piece = [] ∨ piece = ['.'] := by
  rw [componentOfPiece?]
  split
  · rename_i h
    exact iff_of_true rfl h
  · rename_i h
    split
    · exact iff_of_false (by simp) h
    · exact iff_of_false (by simp) h

theorem componentOfPiece?_eq_name_iff {piece : List Char} {name : String}
    (hslash : '/' ∉ piece) :
    componentOfPiece? piece = some (.name name) ↔ piece = name.toList ∧ IsName name := by
  constructor
  · intro h
    rw [componentOfPiece?] at h
    split at h
    · cases h
    · rename_i hfirst
      split at h
      · cases h
      · rename_i hup
        simp only [Option.some.injEq, Component.name.injEq] at h
        obtain rfl : name.toList = piece := by rw [← h, String.toList_ofList]
        rw [not_or] at hfirst
        exact ⟨rfl, hslash, hfirst.1, hfirst.2, hup⟩
  · rintro ⟨rfl, hname⟩
    exact componentOfPiece?_name hname

/-- The last piece that is neither empty nor a dot is the name. -/
structure EndsIn (p : Path) (name : String) : Prop where
  isName : IsName name
  last : ∃ front back, p.pieces = front ++ name.toList :: back ∧
    ∀ piece ∈ back, piece = [] ∨ piece = ['.']

theorem getLast?_filterMap_eq_some_iff {α β : Type} {f : α → Option β} {l : List α} {b : β} :
    (l.filterMap f).getLast? = some b ↔
      ∃ front a back, l = front ++ a :: back ∧ f a = some b ∧ ∀ x ∈ back, f x = none := by
  rw [List.getLast?_filterMap, List.findSome?_eq_some_iff]
  constructor
  · rintro ⟨back, a, front, hl, ha, hback⟩
    refine ⟨front.reverse, a, back.reverse, ?_, ha, fun x hx => hback x (List.mem_reverse.mp hx)⟩
    rw [List.reverse_eq_iff] at hl
    simp [hl]
  · rintro ⟨front, a, back, rfl, ha, hback⟩
    exact ⟨back.reverse, a, front.reverse, by simp, ha,
      fun x hx => hback x (List.mem_reverse.mp hx)⟩

/-- The root and the dot in front name nothing. -/
theorem getLast?_firstComponent {first : List Char} {follow : Bool} {name : String} :
    (firstComponent first follow).getLast? = some (.name name) ↔
      componentOfPiece? first = some (.name name) := by
  rw [firstComponent]
  split
  · rename_i h
    simp [h, componentOfPiece?]
  · split
    · rename_i h
      simp [h.1, componentOfPiece?]
    · cases componentOfPiece? first with
      | none => simp
      | some component => simp

/-- What a path names at its end, with slashes and dots behind it or without
them. A path that ends in two dots names nothing. -/
theorem fileName?_eq_some_iff {p : Path} {name : String} :
    p.fileName? = some name ↔ p.EndsIn name := by
  have hname : p.fileName? = some name ↔ p.components.getLast? = some (.name name) := by
    rw [fileName?]
    split
    · rename_i text h
      simp [h]
    · rename_i h
      exact iff_of_false (by simp) (h name)
  have hpieces : p.components.getLast? = some (.name name) ↔
      (p.pieces.filterMap componentOfPiece?).getLast? = some (.name name) := by
    obtain ⟨first, rest, hsplit⟩ := List.exists_cons_of_ne_nil (pieces_ne_nil p)
    have hcons : (first :: rest).filterMap componentOfPiece? =
        (componentOfPiece? first).toList ++ rest.filterMap componentOfPiece? := by
      rw [List.filterMap_cons]
      cases componentOfPiece? first with
      | none => rfl
      | some component => rfl
    rw [components_of_pieces hsplit, hsplit, hcons, List.getLast?_append, List.getLast?_append,
      Option.or_eq_some_iff, Option.or_eq_some_iff, getLast?_firstComponent]
    cases componentOfPiece? first with
    | none => simp
    | some component => simp
  rw [hname, hpieces, getLast?_filterMap_eq_some_iff]
  constructor
  · rintro ⟨front, piece, back, hsplit, hpiece, hback⟩
    have hmem : piece ∈ p.pieces := by
      rw [hsplit]
      exact List.mem_append_right _ List.mem_cons_self
    have hslash : '/' ∉ piece := slash_not_mem_of_mem_splitOn hmem
    obtain ⟨rfl, hisName⟩ := (componentOfPiece?_eq_name_iff hslash).mp hpiece
    exact ⟨hisName, front, back, hsplit, fun x hx => componentOfPiece?_eq_none_iff.mp (hback x hx)⟩
  · rintro ⟨hisName, front, back, hsplit, hback⟩
    exact ⟨front, name.toList, back, hsplit, componentOfPiece?_name hisName,
      fun x hx => componentOfPiece?_eq_none_iff.mpr (hback x hx)⟩

end TerrainMap.Path
