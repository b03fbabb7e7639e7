import TerrainMap.Color

/-!
How far a slope moves a colour. Shading adds the same number to every channel,
as far as the range of a channel allows, and which number it is depends on
nothing but the order of two elevations.
-/

namespace TerrainMap

/-- Every channel of `c` is that of `base`, moved by `delta` and kept between
0 and 255. -/
def Color.IsMoved (base : Color) (delta : Int) (c : Color) : Prop :=
  (c.r.toNat : Int) = max 0 (min 255 (base.r.toNat + delta)) ∧
    (c.g.toNat : Int) = max 0 (min 255 (base.g.toNat + delta)) ∧
    (c.b.toNat : Int) = max 0 (min 255 (base.b.toNat + delta))

instance (base : Color) (delta : Int) (c : Color) : Decidable (base.IsMoved delta c) :=
  inferInstanceAs (Decidable (_ ∧ _ ∧ _))

/-- How far a slope moves the channels: up by 30, down by 30, or not at all. -/
def relief (nearest : Option Int) (elevation : Int) : Int :=
  match nearest with
  | none => 0
  | some before => if before < elevation then 30 else if elevation < before then -30 else 0

theorem Color.shiftChannel_toNat (channel : UInt8) (delta : Int) :
    ((Color.shiftChannel channel delta).toNat : Int) = max 0 (min 255 (channel.toNat + delta)) := by
  have hrange : (max 0 (min 255 ((channel.toNat : Int) + delta))).toNat < 256 := by omega
  rw [Color.shiftChannel, UInt8.toNat_ofNat', Nat.mod_eq_of_lt hrange]
  omega

theorem Color.isMoved_shift (base : Color) (delta : Int) :
    base.IsMoved delta (base.shift delta) :=
  ⟨shiftChannel_toNat _ _, shiftChannel_toNat _ _, shiftChannel_toNat _ _⟩

theorem Color.isMoved_zero (base : Color) : base.IsMoved 0 base := by
  have hr := base.r.toNat_lt
  have hg := base.g.toNat_lt
  have hb := base.b.toNat_lt
  exact ⟨by omega, by omega, by omega⟩

theorem Color.isMoved_shade (base : Color) (nearest : Option Int) (elevation : Int) :
    base.IsMoved (relief nearest elevation) (base.shade nearest elevation) := by
  cases nearest with
  | none => exact isMoved_zero base
  | some before =>
      simp only [relief, Color.shade, Color.slopeStep]
      split
      · exact isMoved_shift base 30
      · split
        · exact isMoved_shift base (-30)
        · exact isMoved_zero base

theorem Color.IsMoved.unique {base c c' : Color} {delta : Int} (h : base.IsMoved delta c)
    (h' : base.IsMoved delta c') : c = c' := by
  obtain ⟨hr, hg, hb⟩ := h
  obtain ⟨hr', hg', hb'⟩ := h'
  have hred : c.r = c'.r := UInt8.toNat_inj.1 (by omega)
  have hgreen : c.g = c'.g := UInt8.toNat_inj.1 (by omega)
  have hblue : c.b = c'.b := UInt8.toNat_inj.1 (by omega)
  cases c
  cases c'
  simp only at hred hgreen hblue
  rw [hred, hgreen, hblue]

theorem Color.IsMoved.eq_of_zero {base c : Color} (h : base.IsMoved 0 c) : c = base :=
  h.unique base.isMoved_zero

theorem relief_cases (nearest : Option Int) (elevation : Int) :
    relief nearest elevation = -30 ∨ relief nearest elevation = 0 ∨
      relief nearest elevation = 30 := by
  cases nearest with
  | none => exact .inr (.inl rfl)
  | some before =>
      simp only [relief]
      split
      · exact .inr (.inr rfl)
      · split
        · exact .inl rfl
        · exact .inr (.inl rfl)

end TerrainMap
