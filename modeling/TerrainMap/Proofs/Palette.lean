import Mathlib.Data.List.Induction
import TerrainMap.Palette.Builtin

/-!
What a palette finds for a block. Names are compared by their short forms, and
of several entries for one block the last one decides. The built-in palette has
no black entry, and of all its colours only that of obsidian is dark enough for
a slope to leave nothing of it.
-/

namespace TerrainMap

/-- No channel is brighter than `limit`. -/
def Color.AtMost (limit : Nat) (c : Color) : Prop :=
  c.r.toNat ≤ limit ∧ c.g.toNat ≤ limit ∧ c.b.toNat ≤ limit

instance (limit : Nat) (c : Color) : Decidable (c.AtMost limit) :=
  inferInstanceAs (Decidable (_ ∧ _ ∧ _))

namespace Palette

@[simp] theorem lookup_empty (name : String) : empty.lookup name = none := by
  simp [lookup, empty]

theorem lookup_insert (p : Palette) (name name' : String) (color : Color) :
    (p.insert name color).lookup name' =
      if Block.normalize name = Block.normalize name' then some color else p.lookup name' := by
  simp [lookup, insert, Std.HashMap.getElem?_insert]

/-- The last entry that is given for a block, in either of its spellings. -/
def lastGiven? (entries : List (String × Color)) (name : String) : Option (String × Color) :=
  entries.reverse.find? fun entry => Block.normalize entry.1 = Block.normalize name

theorem lookup_insertAll (p : Palette) (entries : List (String × Color)) (name : String) :
    (p.insertAll entries).lookup name =
      ((lastGiven? entries name).map Prod.snd).or (p.lookup name) := by
  induction entries using List.reverseRecOn with
  | nil => simp [insertAll, lastGiven?]
  | append_singleton entries entry ih =>
      have hlast : p.insertAll (entries ++ [entry]) =
          (p.insertAll entries).insert entry.1 entry.2 := by
        simp [insertAll]
      rw [hlast, lookup_insert, ih, lastGiven?, lastGiven?, List.reverse_append,
        List.reverse_singleton, List.singleton_append, List.find?_cons]
      split
      · next h => simp [h]
      · next h => simp [h]

theorem lookup_ofList (entries : List (String × Color)) (name : String) :
    (ofList entries).lookup name = (lastGiven? entries name).map Prod.snd := by
  rw [ofList, lookup_insertAll, lookup_empty, Option.or_none]

/-- A colour that is found was given for the block. -/
theorem exists_mem_of_lookup_ofList {entries : List (String × Color)} {name : String} {c : Color}
    (h : (ofList entries).lookup name = some c) :
    ∃ entry ∈ entries, Block.normalize entry.1 = Block.normalize name ∧ entry.2 = c := by
  rw [lookup_ofList, Option.map_eq_some_iff] at h
  obtain ⟨entry, hentry, hcolor⟩ := h
  exact ⟨entry, List.mem_reverse.1 (List.mem_of_find?_eq_some hentry),
    by simpa using List.find?_some hentry, hcolor⟩

/-! ### The built-in palette -/

theorem lookup_builtin_of_obsidian {name : String} (h : Block.normalize name = "obsidian") :
    builtin.lookup name = some ⟨15, 10, 24⟩ := by
  have hentry : lastGiven? builtinColors name = some ("obsidian", ⟨15, 10, 24⟩) := by
    rw [lastGiven?, h]
    decide +kernel
  rw [builtin, lookup_ofList, hentry]
  rfl

/-- No colour of the built-in palette is black, and only obsidian is as dark as
a slope can darken. -/
theorem builtin_dark {name : String} {c : Color} (h : builtin.lookup name = some c) :
    ¬ c.AtMost 0 ∧ (c.AtMost 30 → Block.normalize name = "obsidian") := by
  have hcolors : ∀ entry ∈ builtinColors, ¬ entry.2.AtMost 0 ∧
      (entry.2.AtMost 30 → Block.normalize entry.1 = "obsidian") := by
    decide +kernel
  obtain ⟨entry, hentry, hname, rfl⟩ := exists_mem_of_lookup_ofList h
  rw [← hname]
  exact hcolors entry hentry

end Palette

end TerrainMap
