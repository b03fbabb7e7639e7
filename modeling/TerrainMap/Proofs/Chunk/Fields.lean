import TerrainMap.Chunk.PackedIndices

/-!
What unpacking computes: the lenient machine never stops at arithmetic, so that
what it does is said in terms of plain quotients and shifts.
-/

namespace TerrainMap.PackedIndices

/-- Indices that one word of the padded layout holds. -/
def perWord (bits : Nat) : Nat := 64 / bits

def wordsNeeded (layout : Layout) (bits : Nat) : Nat :=
  match layout with
  | .spanning => (sectionVolume * bits + 63) / 64
  | .padded => (sectionVolume + perWord bits - 1) / perWord bits

/-- The word whose lowest `bits` bits are set. -/
def lowMask (bits : Nat) : UInt64 := ((1 : UInt64) <<< UInt64.ofNat bits) - 1

/-- The index number `i` of the words, or nothing where a word that holds some
of its bits is missing. -/
def field? (layout : Layout) (bits : Nat) (words : Array UInt64) (i : Nat) : Option UInt64 :=
  (Machine.lenient words).field layout bits (lowMask bits) i

variable {bits i : Nat} {words : Array UInt64} {w : UInt64}

theorem field?_spanning_of_straddle {w' : UInt64} (h : i * bits % 64 + bits > 64)
    (hw : words[i * bits / 64]? = some w) (hw' : words[i * bits / 64 + 1]? = some w') :
    field? .spanning bits words i = some ((w >>> UInt64.ofNat (i * bits % 64) |||
      w' <<< UInt64.ofNat (64 - i * bits % 64)) &&& lowMask bits) := by
  simp only [field?, Machine.field, Machine.lenient, hw, hw', if_pos h, Option.bind_eq_bind,
    Option.bind_some]
  rfl

theorem field?_spanning_of_within (h : ¬ i * bits % 64 + bits > 64)
    (hw : words[i * bits / 64]? = some w) :
    field? .spanning bits words i =
      some (w >>> UInt64.ofNat (i * bits % 64) &&& lowMask bits) := by
  simp only [field?, Machine.field, Machine.lenient, hw, if_neg h, Option.bind_eq_bind,
    Option.bind_some]
  rfl

theorem field?_padded (hw : words[i / perWord bits]? = some w) :
    field? .padded bits words i =
      some (w >>> UInt64.ofNat (i % perWord bits * bits) &&& lowMask bits) := by
  simp only [perWord] at hw
  simp only [field?, Machine.field, Machine.lenient, hw, perWord, Option.bind_eq_bind,
    Option.bind_some]
  rfl

theorem lenient_wordsNeeded (words : Array UInt64) (layout : Layout) (bits : Nat) :
    (Machine.lenient words).wordsNeeded layout bits = some (wordsNeeded layout bits) := by
  cases layout with
  | spanning => rfl
  | padded => rfl

variable {layout : Layout} {names : Nat}

theorem lenient_unpack (layout : Layout) (names : Nat) (words : Array UInt64) (size : Nat) :
    (Machine.lenient words).unpack layout names size =
      if size < wordsNeeded layout (bitsPerIndex names) then
        some (.fail ⟨size, wordsNeeded layout (bitsPerIndex names), bitsPerIndex names⟩)
      else ((List.range sectionVolume).mapM (field? layout (bitsPerIndex names) words)).map
        fun fields => .ok (fields.map UInt64.toUInt16).toArray := by
  have hmask : (Machine.lenient words).shiftLeft 1 (bitsPerIndex names) =
      some ((1 : UInt64) <<< UInt64.ofNat (bitsPerIndex names)) := rfl
  rw [Machine.unpack, hmask, lenient_wordsNeeded]
  simp only [Option.bind_eq_bind, Option.bind_some]
  split
  · rfl
  · exact Option.map_eq_bind.symm

theorem unpack_of_lt (h : words.size < wordsNeeded layout (bitsPerIndex names)) :
    unpack layout names words =
      .fail ⟨words.size, wordsNeeded layout (bitsPerIndex names), bitsPerIndex names⟩ := by
  rw [unpack, lenient_unpack, if_pos h, Option.getD_some]

theorem unpack_of_mapM {fields : List UInt64}
    (h : wordsNeeded layout (bitsPerIndex names) ≤ words.size)
    (hfields : (List.range sectionVolume).mapM (field? layout (bitsPerIndex names) words) =
      some fields) :
    unpack layout names words = .ok (fields.map UInt64.toUInt16).toArray := by
  rw [unpack, lenient_unpack, if_neg (Nat.not_lt.2 h), hfields, Option.map_some, Option.getD_some]

end TerrainMap.PackedIndices
