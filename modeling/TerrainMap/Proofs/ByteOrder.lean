import Mathlib.Data.String.Basic

/-!
The order of texts is the order of their bytes. A character is written as a lead
byte, which tells how many bytes follow, and the digits of its number to the base
64. The lead byte grows with the number, and where two lead bytes agree the
digits decide; so the first byte that differs is one of the first character that
differs.
-/

namespace TerrainMap.ByteOrder

/-- The bytes of a text. -/
def bytes (text : String) : List UInt8 := text.toUTF8.data.toList

theorem bytes_eq_flatMap (text : String) :
    bytes text = text.toList.flatMap String.utf8EncodeChar := by
  rw [bytes, String.toUTF8_eq_toByteArray]
  conv_lhs => rw [← String.ofList_toList (s := text), String.toByteArray_ofList, List.utf8Encode]
  simp

/-! ### The bytes of one character -/

/-- The last `count` digits of a number to the base 64, marked as bytes that do
not begin a character. -/
def digitBytes : (count n : Nat) → List UInt8
  | 0, _ => []
  | count + 1, n => UInt8.ofNat (n / 64 ^ count % 64 + 128) :: digitBytes count n

/-- How many bytes follow the lead byte. -/
def digitCount (n : Nat) : Nat :=
  if n ≤ 127 then 0 else if n ≤ 2047 then 1 else if n ≤ 65535 then 2 else 3

def leadByte (n : Nat) : Nat :=
  if n ≤ 127 then n else if n ≤ 2047 then n / 64 + 192
  else if n ≤ 65535 then n / 4096 + 224 else n / 262144 + 240

variable {m n : Nat}

theorem val_toNat_lt (c : Char) : c.val.toNat < 1114112 := by
  rcases c.valid with hlow | hhigh
  · exact Nat.lt_trans hlow (by omega)
  · exact hhigh.2

theorem utf8EncodeChar_eq (c : Char) :
    String.utf8EncodeChar c =
      UInt8.ofNat (leadByte c.val.toNat) :: digitBytes (digitCount c.val.toNat) c.val.toNat := by
  have hvalid := val_toNat_lt c
  rw [String.utf8EncodeChar, leadByte, digitCount]
  generalize c.val.toNat = n at hvalid
  split
  · rfl
  split
  · simp [digitBytes, Nat.mod_eq_of_lt (show n / 64 < 32 by omega)]
  split
  · simp [digitBytes, Nat.mod_eq_of_lt (show n / 4096 < 16 by omega)]
  · simp [digitBytes, Nat.mod_eq_of_lt (show n / 262144 < 8 by omega)]

theorem leadByte_lt (h : n < 1114112) : leadByte n < 256 := by
  rw [leadByte]
  split_ifs <;> omega

/-- The lead byte decides, or it leaves the decision to the digits. -/
theorem leadByte_lt_or (h : m < n) :
    leadByte m < leadByte n ∨ leadByte m = leadByte n ∧ digitCount m = digitCount n ∧
      m % 64 ^ digitCount n < n % 64 ^ digitCount n := by
  rw [leadByte, leadByte, digitCount, digitCount]
  split_ifs <;> omega

/-- Of two remainders by a product, the greater one has the greater quotient, or
the same quotient and the greater remainder. -/
theorem div_lt_or_mod_lt {a b : Nat} (h : m % (a * b) < n % (a * b)) (ha : 0 < a) :
    m / a % b < n / a % b ∨ m / a % b = n / a % b ∧ m % a < n % a := by
  rw [Nat.mod_mul, Nat.mod_mul] at h
  rcases Nat.lt_trichotomy (m / a % b) (n / a % b) with hlt | heq | hgt
  · exact .inl hlt
  · rw [heq] at h
    exact .inr ⟨heq, Nat.lt_of_add_lt_add_right h⟩
  · have hstep := Nat.mul_le_mul_left a (Nat.succ_le_of_lt hgt)
    have hmod := Nat.mod_lt n ha
    rw [Nat.mul_succ] at hstep
    omega

theorem ofNat_lt_ofNat_iff (hm : m < 256) (hn : n < 256) :
    UInt8.ofNat m < UInt8.ofNat n ↔ m < n := by
  rw [UInt8.lt_iff_toNat_lt, UInt8.toNat_ofNat', UInt8.toNat_ofNat', Nat.mod_eq_of_lt hm,
    Nat.mod_eq_of_lt hn]

theorem digitBytes_lt {count : Nat} (h : m % 64 ^ count < n % 64 ^ count)
    (rest rest' : List UInt8) :
    digitBytes count m ++ rest < digitBytes count n ++ rest' := by
  induction count with
  | zero => simp [Nat.mod_one] at h
  | succ count ih =>
      rw [Nat.pow_succ] at h
      rw [digitBytes, digitBytes, List.cons_append, List.cons_append, List.cons_lt_cons_iff,
        ofNat_lt_ofNat_iff (by omega) (by omega)]
      rcases div_lt_or_mod_lt h (Nat.pow_pos (by omega)) with hdigit | ⟨hdigit, hrest⟩
      · exact .inl (Nat.add_lt_add_right hdigit 128)
      · exact .inr ⟨by rw [hdigit], ih hrest⟩

/-- Whatever follows, the bytes of the lesser character come first. -/
theorem utf8EncodeChar_lt {c d : Char} (h : c < d) (rest rest' : List UInt8) :
    String.utf8EncodeChar c ++ rest < String.utf8EncodeChar d ++ rest' := by
  have hc := leadByte_lt (val_toNat_lt c)
  have hd := leadByte_lt (val_toNat_lt d)
  rw [utf8EncodeChar_eq, utf8EncodeChar_eq, List.cons_append, List.cons_append,
    List.cons_lt_cons_iff, ofNat_lt_ofNat_iff hc hd]
  have hnumbers : c.val.toNat < d.val.toNat := h
  rcases leadByte_lt_or hnumbers with hlead | ⟨hlead, hcount, hdigits⟩
  · exact .inl hlead
  · rw [hlead, hcount]
    exact .inr ⟨rfl, digitBytes_lt hdigits rest rest'⟩

/-! ### Texts -/

theorem flatMap_lt {chars chars' : List Char} (h : chars < chars') :
    chars.flatMap String.utf8EncodeChar < chars'.flatMap String.utf8EncodeChar := by
  induction h with
  | nil =>
      rw [List.flatMap_cons, utf8EncodeChar_eq]
      exact List.nil_lt_cons _ _
  | rel hlt =>
      rw [List.flatMap_cons, List.flatMap_cons]
      exact utf8EncodeChar_lt hlt _ _
  | cons _ ih =>
      rw [List.flatMap_cons, List.flatMap_cons]
      exact List.append_left_lt ih

theorem bytes_lt {a b : String} (h : a < b) : bytes a < bytes b := by
  rw [bytes_eq_flatMap, bytes_eq_flatMap]
  exact flatMap_lt (String.lt_iff_toList_lt.1 h)

/-- Texts are ordered as their bytes are. -/
theorem le_iff_bytes_le {a b : String} : a ≤ b ↔ bytes a ≤ bytes b := by
  constructor
  · intro h
    rcases h.lt_or_eq with hlt | rfl
    · exact List.le_of_lt (bytes_lt hlt)
    · exact List.le_refl _
  · intro h
    by_contra hnot
    exact List.not_lt.2 h (bytes_lt (not_le.1 hnot))

end TerrainMap.ByteOrder
