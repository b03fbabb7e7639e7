import Mathlib.Data.List.Basic
import TerrainMap.Decimal

/-!
Written numbers are read back as what they are. So two numbers are never
written alike, and a number never holds a character that numbers are set apart
by.
-/

namespace TerrainMap.Decimal

/-- The character is a digit of a written number. -/
def IsDigit (c : Char) : Prop := ∃ d < 10, digitValue? c = some d

theorem digitValue?_digitChar : ∀ {d : Nat}, d < 10 → digitValue? (digitChar d) = some d := by
  decide

theorem digits_ne_nil (n : Nat) : digits n ≠ [] := by
  rw [digits]
  split
  · simp
  · simp

theorem isDigit_of_mem_digits {c : Char} {n : Nat} (h : c ∈ digits n) : IsDigit c := by
  induction n using digits.induct with
  | case1 n hn =>
      rw [digits, if_pos hn, List.mem_singleton] at h
      exact ⟨n, hn, h ▸ digitValue?_digitChar hn⟩
  | case2 n hn ih =>
      rw [digits, if_neg hn, List.mem_append, List.mem_singleton] at h
      have hlast : n % 10 < 10 := Nat.mod_lt n (by omega)
      rcases h with h | h
      · exact ih h
      · exact ⟨n % 10, hlast, h ▸ digitValue?_digitChar hlast⟩

theorem readFrom_append_digit {value n d : Nat} {chars : List Char} (hd : d < 10)
    (h : readFrom value chars = some n) :
    readFrom value (chars ++ [digitChar d]) = some (10 * n + d) := by
  induction chars generalizing value with
  | nil =>
      cases h
      rw [List.nil_append, readFrom, digitValue?_digitChar hd]
      rfl
  | cons c chars ih =>
      rw [List.cons_append, readFrom]
      rw [readFrom] at h
      split at h
      · exact ih h
      · exact absurd h (by simp)

theorem readFrom_digits (n : Nat) : readFrom 0 (digits n) = some n := by
  induction n using digits.induct with
  | case1 n hn =>
      rw [digits, if_pos hn]
      have hempty : readFrom 0 [] = some 0 := rfl
      simpa using readFrom_append_digit hn hempty
  | case2 n hn ih =>
      rw [digits, if_neg hn, readFrom_append_digit (Nat.mod_lt n (by omega)) ih]
      congr 1
      omega

theorem readNat?_digits (n : Nat) : readNat? (digits n) = some n := by
  have h := readFrom_digits n
  cases hdigits : digits n with
  | nil => exact absurd hdigits (digits_ne_nil n)
  | cons c rest =>
      rw [hdigits] at h
      exact h

/-- A number is read back as what it is. -/
theorem readSigned?_signedDigits (n : Int) : readSigned? (signedDigits n) = some n := by
  cases n with
  | negSucc n =>
      simp only [signedDigits, readSigned?, readNat?_digits]
      rfl
  | ofNat n =>
      -- the first character is a digit, and so no sign
      cases hdigits : digits n with
      | nil => exact absurd hdigits (digits_ne_nil n)
      | cons c rest =>
          obtain ⟨d, -, hd⟩ := isDigit_of_mem_digits (hdigits ▸ List.mem_cons_self)
          have hminus : c ≠ '-' := by
            rintro rfl
            cases hd
          have hplus : c ≠ '+' := by
            rintro rfl
            cases hd
          rw [signedDigits, hdigits, readSigned?, ← hdigits, readNat?_digits]
          · rfl
          · simpa using hminus
          · simpa using hplus

theorem signedDigits_injective : Function.Injective signedDigits := by
  intro n n' h
  have hread := readSigned?_signedDigits n
  rw [h, readSigned?_signedDigits] at hread
  exact (Option.some.inj hread).symm

theorem inInt32_iff {n : Int} : inInt32 n = true ↔ -2147483648 ≤ n ∧ n ≤ 2147483647 :=
  decide_eq_true_iff

theorem readInt32?_signedDigits {n : Int} (hn : inInt32 n = true) :
    readInt32? (signedDigits n) = some n := by
  rw [readInt32?, readSigned?_signedDigits, Option.filter_some, if_pos hn]

/-- A number is written with a minus sign and digits. -/
theorem not_mem_signedDigits {c : Char} (hminus : c ≠ '-') (hdigit : digitValue? c = none)
    (n : Int) : c ∉ signedDigits n := by
  have hdigits (n : Nat) : c ∉ digits n := by
    intro h
    obtain ⟨d, -, hd⟩ := isDigit_of_mem_digits h
    simp [hdigit] at hd
  cases n with
  | ofNat n => exact hdigits n
  | negSucc n => exact List.not_mem_cons_of_ne_of_not_mem hminus (hdigits (n + 1))

@[simp] theorem toList_ofInt (n : Int) : (ofInt n).toList = signedDigits n :=
  String.toList_ofList

end TerrainMap.Decimal
