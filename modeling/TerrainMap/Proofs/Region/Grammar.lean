import Mathlib.Data.List.TakeWhile
import TerrainMap.Proofs.Decimal.Numeral
import TerrainMap.Proofs.Path.FileName
import TerrainMap.Proofs.Region.FileName

/-!
The grammar of region file names. A name is read as a region if it is made of
`r.`, a signed numeral, a dot, a signed numeral and `.mca`, and the numbers fit
signed words of 32 bits; then it is read as the region at these numbers. No
other name is read at all.
-/

namespace TerrainMap.RegionCoord

/-- The file name is made of two numerals, which denote the numbers of the
region. -/
def Spells (name : String) (c : RegionCoord) : Prop :=
  ∃ x z, name.toList = "r.".toList ++ x ++ ".".toList ++ z ++ ".mca".toList ∧
    Decimal.SignedNumeral x c.x ∧ Decimal.SignedNumeral z c.z ∧ c.InRange

theorem splitAtDot?_eq_some_iff {chars front back : List Char} :
    splitAtDot? chars = some (front, back) ↔ chars = front ++ '.' :: back ∧ '.' ∉ front := by
  constructor
  · intro h
    have hparts : chars.takeWhile (· != '.') ++ chars.dropWhile (· != '.') = chars :=
      List.takeWhile_append_dropWhile
    rw [splitAtDot?] at h
    split at h
    · cases h
    · rename_i c rest hdrop
      have hc : c = '.' := by
        have hne : chars.dropWhile (· != '.') ≠ [] := hdrop ▸ List.cons_ne_nil c rest
        have hhead := List.head_dropWhile_not _ hne
        simpa [hdrop] using hhead
      cases h
      subst hc
      refine ⟨by rw [← hdrop, hparts], fun hmem => ?_⟩
      simpa using List.mem_takeWhile_imp hmem
  · rintro ⟨rfl, hfront⟩
    exact splitAtDot?_append hfront back

theorem ofFileName?_eq_some_iff {name : String} {c : RegionCoord} :
    ofFileName? name = some c ↔ Spells name c := by
  constructor
  · intro h
    simp only [ofFileName?, Option.bind_eq_bind, Option.bind_eq_some_iff] at h
    obtain ⟨inner, hinner, numbers, hnumbers, ⟨front, back⟩, hsplit, x, hx, z, hz, hc⟩ := h
    rw [List.isPrefixOf?_eq_some_iff_append_eq] at hinner
    rw [List.isSuffixOf?_eq_some_iff_append_eq] at hnumbers
    rw [splitAtDot?_eq_some_iff] at hsplit
    rw [Decimal.readInt32?_eq_some_iff] at hx hz
    cases hc
    refine ⟨front, back, ?_, hx.1, hz.1, hx.2, hz.2⟩
    rw [← hinner, ← hnumbers, hsplit.1]
    simp
  · rintro ⟨x, z, hname, hx, hz, hrange⟩
    have hdot : '.' ∉ x := Decimal.not_mem_of_signedNumeral hx (by decide) (by decide) rfl
    have hprefix : "r.".toList.isPrefixOf? name.toList =
        some ((x ++ '.' :: z) ++ ".mca".toList) := by
      rw [List.isPrefixOf?_eq_some_iff_append_eq, hname]
      simp
    have hsuffix : ".mca".toList.isSuffixOf? ((x ++ '.' :: z) ++ ".mca".toList) =
        some (x ++ '.' :: z) :=
      List.isSuffixOf?_eq_some_iff_append_eq.mpr rfl
    simp only [ofFileName?, hprefix, hsuffix, splitAtDot?_append hdot, Option.bind_eq_bind,
      Option.bind_some, Decimal.readInt32?_eq_some_iff.mpr ⟨hx, hrange.1⟩,
      Decimal.readInt32?_eq_some_iff.mpr ⟨hz, hrange.2⟩]
    rfl

theorem ofPath?_eq_some_iff {p : Path} {c : RegionCoord} :
    ofPath? p = some c ↔ ∃ name, p.EndsIn name ∧ Spells name c := by
  simp only [ofPath?, Option.bind_eq_some_iff, Path.fileName?_eq_some_iff, ofFileName?_eq_some_iff]

/-- **Which names are read as regions.** A path is read as a region if the name
at its end is made of numerals for the numbers of the region, and is not read if
its name is not made so for any region. The name that a region is written with
is read back as that region in any directory, so that no two regions are written
alike. -/
theorem region_names_are_read :
    (∀ p c, ofPath? p = some c ↔ ∃ name, p.EndsIn name ∧ Spells name c) ∧
    (∀ p, ofPath? p = none ↔ ∀ name, p.EndsIn name → ∀ c, ¬ Spells name c) ∧
    (∀ c : RegionCoord, c.InRange → ∀ directory : Path,
      ofPath? (directory.join ⟨c.fileName⟩) = some c) ∧
    ∀ c c' : RegionCoord, c.InRange → c'.InRange → c.fileName = c'.fileName → c = c' := by
  refine ⟨fun p c => ofPath?_eq_some_iff, ?_, ?_, ?_⟩
  · intro p
    rw [Option.eq_none_iff_forall_not_mem]
    constructor
    · intro h name hends c hspells
      exact h c (ofPath?_eq_some_iff.mpr ⟨name, hends, hspells⟩)
    · intro h c hc
      obtain ⟨name, hends, hspells⟩ := ofPath?_eq_some_iff.mp hc
      exact h name hends c hspells
  · intro c hc directory
    rw [ofPath?, Path.fileName?_join directory c.isName_fileName, Option.bind_some,
      ofFileName?_fileName hc]
  · intro c c' hc hc' hname
    have hread := ofFileName?_fileName hc
    rw [hname, ofFileName?_fileName hc'] at hread
    exact (Option.some.inj hread).symm

/-- The region in the last corner is read back from its name below a directory
with a slash at its end. A name with a sign, leading zeros and a slash behind it
is read too, and one with a number of 33 bits is not. -/
theorem corner_region_is_read :
    let corner : RegionCoord := ⟨-2147483648, 2147483647⟩
    (corner.InRange ∧ corner.fileName = "r.-2147483648.2147483647.mca" ∧
      ofPath? ((Path.mk "w/").join ⟨corner.fileName⟩) = some corner) ∧
    (((Path.mk "w/r.+007.-0.mca/.").EndsIn "r.+007.-0.mca" ∧ Spells "r.+007.-0.mca" ⟨7, 0⟩) ∧
      ofPath? ⟨"w/r.+007.-0.mca/."⟩ = some ⟨7, 0⟩) ∧
    ((Path.mk "r.2147483648.0.mca").EndsIn "r.2147483648.0.mca" ∧
      ∀ c, ¬ Spells "r.2147483648.0.mca" c) := by
  intro corner
  obtain ⟨hread, hunread, hback, -⟩ := region_names_are_read
  have hcorner : corner.InRange := ⟨rfl, rfl⟩
  have hspelled : (Path.mk "w/r.+007.-0.mca/.").EndsIn "r.+007.-0.mca" ∧
      Spells "r.+007.-0.mca" ⟨7, 0⟩ := by
    refine ⟨⟨by decide, [['w']], [['.']], by decide, by simp⟩, ?_⟩
    exact ⟨"+007".toList, "-0".toList, by decide, Decimal.readSigned?_eq_some_iff.mp rfl,
      Decimal.readSigned?_eq_some_iff.mp rfl, rfl, rfl⟩
  have hlarge : (Path.mk "r.2147483648.0.mca").EndsIn "r.2147483648.0.mca" :=
    ⟨by decide, [], [], by decide, by simp⟩
  refine ⟨⟨hcorner, by decide +kernel, hback corner hcorner ⟨"w/"⟩⟩,
    ⟨hspelled, (hread _ _).mpr ⟨_, hspelled⟩⟩, hlarge, ?_⟩
  exact (hunread ⟨"r.2147483648.0.mca"⟩).mp (by decide) _ hlarge

end TerrainMap.RegionCoord
