import TerrainMap.Proofs.Decimal
import TerrainMap.Proofs.Path
import TerrainMap.Region.FileName

/-!
Region file names and what is read from them. The name of a region is read back
as that region. The converse is not true: a number may also be written with a
plus sign, with leading zeros, or as a negative zero, and such a name is read
as a region whose own name it is not.
-/

namespace TerrainMap.RegionCoord

/-- Both numbers fit a signed word of 32 bits. -/
def InRange (c : RegionCoord) : Prop := Decimal.inInt32 c.x = true ∧ Decimal.inInt32 c.z = true

theorem toList_fileName (c : RegionCoord) :
    c.fileName.toList =
      "r.".toList ++ ((Decimal.signedDigits c.x ++ '.' :: Decimal.signedDigits c.z) ++
        ".mca".toList) := by
  simp [fileName]

theorem splitAtDot?_append {front : List Char} (hfront : '.' ∉ front) (rest : List Char) :
    splitAtDot? (front ++ '.' :: rest) = some (front, rest) := by
  have hnone : ∀ c ∈ front, (c != '.') = true := by
    intro c hc
    simp only [bne_iff_ne, ne_eq]
    rintro rfl
    exact hfront hc
  rw [splitAtDot?, List.dropWhile_append_of_pos hnone, List.takeWhile_append_of_pos hnone]
  simp

/-- The name of a region is read back as that region. -/
theorem ofFileName?_fileName {c : RegionCoord} (hc : c.InRange) :
    ofFileName? c.fileName = some c := by
  have hdot : '.' ∉ Decimal.signedDigits c.x :=
    Decimal.not_mem_signedDigits (by decide) (by decide) c.x
  have hprefix : "r.".toList.isPrefixOf? c.fileName.toList =
      some ((Decimal.signedDigits c.x ++ '.' :: Decimal.signedDigits c.z) ++ ".mca".toList) :=
    List.isPrefixOf?_eq_some_iff_append_eq.mpr (toList_fileName c).symm
  have hsuffix : ".mca".toList.isSuffixOf?
      ((Decimal.signedDigits c.x ++ '.' :: Decimal.signedDigits c.z) ++ ".mca".toList) =
      some (Decimal.signedDigits c.x ++ '.' :: Decimal.signedDigits c.z) :=
    List.isSuffixOf?_eq_some_iff_append_eq.mpr rfl
  simp only [ofFileName?, hprefix, hsuffix, splitAtDot?_append hdot, Option.bind_eq_bind,
    Option.bind_some, Decimal.readInt32?_signedDigits hc.1, Decimal.readInt32?_signedDigits hc.2]
  rfl

theorem inRange_of_ofFileName? {name : String} {c : RegionCoord} (h : ofFileName? name = some c) :
    c.InRange := by
  simp only [ofFileName?, Option.bind_eq_bind, Option.bind_eq_some_iff] at h
  obtain ⟨inner, -, numbers, -, ⟨x, z⟩, -, a, ha, b, hb, hc⟩ := h
  cases hc
  simp only [Decimal.readInt32?, Option.filter_eq_some_iff] at ha hb
  exact ⟨ha.2, hb.2⟩

theorem isName_fileName (c : RegionCoord) : Path.IsName c.fileName := by
  have hslash (n : Int) : '/' ∉ Decimal.signedDigits n :=
    Decimal.not_mem_signedDigits (by decide) (by decide) n
  refine ⟨?_, ?_, ?_, ?_⟩
  · rw [toList_fileName]
    simp [hslash]
  · simp [toList_fileName]
  · simp [toList_fileName]
  · simp [toList_fileName]

end TerrainMap.RegionCoord
