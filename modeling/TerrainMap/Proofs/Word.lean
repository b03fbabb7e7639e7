import TerrainMap.Word

/-!
Sums and products of words below the end of their range are those of numbers.
-/

namespace TerrainMap.Word

variable {a b n : Nat}

theorem wrap_of_lt (h : n < count) : wrap n = n := Nat.mod_eq_of_lt h

theorem add_of_lt (h : a + b < count) : add a b = a + b := wrap_of_lt h

theorem mul_of_lt (h : a * b < count) : mul a b = a * b := wrap_of_lt h

/-- Between the edges of a range that does not wrap around lies its length. -/
theorem add_sub_of_lt (h : a + b < count) : add a b - a = b := by
  rw [add_of_lt h, Nat.add_sub_cancel_left]

theorem signed_of_mem {n : Int} (h : -2147483648 ≤ n) (h' : n < 2147483648) : signed n = n := by
  rw [signed, Int.bmod_eq_of_le (by omega) (by omega)]

end TerrainMap.Word
