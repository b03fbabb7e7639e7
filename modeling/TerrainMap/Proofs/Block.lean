import TerrainMap.Proofs.Column

/-!
Names with and without the vanilla namespace. Removing the namespace takes one
of it away. So a second removal changes nothing unless the namespace was written
twice, and only then is the short form of a name another block than the name.
-/

namespace TerrainMap.Block

/-- The name begins with the vanilla namespace. -/
def IsPrefixed (name : String) : Prop := ∃ rest, name = vanillaNamespace ++ rest

/-- The name begins with the vanilla namespace twice. -/
def IsDoubled (name : String) : Prop :=
  ∃ rest, name = vanillaNamespace ++ (vanillaNamespace ++ rest)

theorem append_inj {rest rest' : String}
    (h : vanillaNamespace ++ rest = vanillaNamespace ++ rest') : rest = rest' := by
  have hlist := congrArg String.toList h
  rw [String.toList_append, String.toList_append] at hlist
  exact String.toList_injective (List.append_cancel_left hlist)

@[simp] theorem normalize_append (rest : String) : normalize (vanillaNamespace ++ rest) = rest := by
  have hprefix : vanillaNamespace.toList.isPrefixOf? (vanillaNamespace ++ rest).toList =
      some rest.toList :=
    List.isPrefixOf?_eq_some_iff_append_eq.2 (String.toList_append ..).symm
  simp only [normalize, hprefix, String.ofList_toList]

theorem normalize_of_not_isPrefixed {name : String} (h : ¬ IsPrefixed name) :
    normalize name = name := by
  rw [normalize]
  split
  · next rest hprefix =>
      have happend := List.isPrefixOf?_eq_some_iff_append_eq.1 hprefix
      refine absurd ⟨String.ofList rest, String.toList_injective ?_⟩ h
      rw [String.toList_append, String.toList_ofList, happend]
  · rfl

theorem ne_append (name : String) : name ≠ vanillaNamespace ++ name := by
  intro h
  have hlength := congrArg String.length h
  rw [String.length_append] at hlength
  have hnamespace : vanillaNamespace.length = 10 := by decide
  omega

theorem normalize_eq_self_iff {name : String} : normalize name = name ↔ ¬ IsPrefixed name := by
  refine ⟨?_, normalize_of_not_isPrefixed⟩
  rintro h ⟨rest, rfl⟩
  rw [normalize_append] at h
  exact ne_append rest h

theorem isDoubled_iff {name : String} : IsDoubled name ↔ IsPrefixed (normalize name) := by
  constructor
  · rintro ⟨rest, rfl⟩
    exact ⟨rest, normalize_append _⟩
  · intro h
    by_cases hname : IsPrefixed name
    · obtain ⟨tail, rfl⟩ := hname
      rw [normalize_append] at h
      obtain ⟨rest, rfl⟩ := h
      exact ⟨rest, rfl⟩
    · rw [normalize_of_not_isPrefixed hname] at h
      exact absurd h hname

theorem normalize_normalize_iff {name : String} :
    normalize (normalize name) = normalize name ↔ ¬ IsDoubled name := by
  rw [normalize_eq_self_iff, isDoubled_iff]

instance (name : String) : Decidable (IsPrefixed name) :=
  decidable_of_iff (normalize name ≠ name) (by rw [ne_eq, normalize_eq_self_iff, not_not])

instance (name : String) : Decidable (IsDoubled name) :=
  decidable_of_iff _ isDoubled_iff.symm

theorem isDoubled_append_iff {name : String} :
    IsDoubled (vanillaNamespace ++ name) ↔ IsPrefixed name := by
  rw [isDoubled_iff, normalize_append]

theorem not_isPrefixed_of_mem_airNames {name : String} (h : name ∈ airNames) :
    ¬ IsPrefixed name := by
  have hall : ∀ name ∈ airNames, normalize name = name := by decide
  exact normalize_eq_self_iff.1 (hall name h)

/-- The short form of a name is looked through just where the name is, unless
it is a kind of air with the namespace twice. -/
theorem isTransparent_normalize_iff {name : String} :
    isTransparent (normalize name) = isTransparent name ↔
      ¬ ∃ air ∈ airNames, name = vanillaNamespace ++ (vanillaNamespace ++ air) := by
  rw [Bool.eq_iff_iff, isTransparent_iff, isTransparent_iff]
  by_cases hdoubled : IsDoubled name
  · obtain ⟨rest, rfl⟩ := hdoubled
    have houtside : vanillaNamespace ++ rest ∉ airNames :=
      fun h => not_isPrefixed_of_mem_airNames h ⟨rest, rfl⟩
    simp only [normalize_append]
    constructor
    · rintro h ⟨air, hair, heq⟩
      obtain rfl := append_inj (append_inj heq)
      exact houtside (h.1 hair)
    · intro h
      exact iff_of_false (fun hair => h ⟨rest, hair, rfl⟩) houtside
  · rw [normalize_normalize_iff.2 hdoubled]
    refine iff_of_true Iff.rfl ?_
    rintro ⟨air, -, rfl⟩
    exact hdoubled ⟨air, rfl⟩

end TerrainMap.Block
