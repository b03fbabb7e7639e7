import Mathlib.Data.List.Induction
import TerrainMap.Proofs.Decimal

/-!
The grammar of numbers, and reading against it. A numeral is one or more ASCII
digits, a signed numeral may have one sign in front. Reading accepts what is a
numeral and nothing else, and gives the number that it denotes; leading zeros
and a sign in front of a zero do not matter.
-/

namespace TerrainMap.Decimal

/-- The ASCII digit that is worth `d`. -/
def IsDigitFor (c : Char) (d : Nat) : Prop := d < 10 ∧ c.toNat = '0'.toNat + d

/-- One or more digits, and the number that they denote. -/
inductive Numeral : List Char → Nat → Prop
  | digit {c : Char} {d : Nat} : IsDigitFor c d → Numeral [c] d
  | snoc {chars : List Char} {n : Nat} {c : Char} {d : Nat} :
      Numeral chars n → IsDigitFor c d → Numeral (chars ++ [c]) (10 * n + d)

/-- A numeral with at most one sign, and the number that they denote. -/
inductive SignedNumeral : List Char → Int → Prop
  | plain {chars : List Char} {n : Nat} : Numeral chars n → SignedNumeral chars n
  | plus {chars : List Char} {n : Nat} : Numeral chars n → SignedNumeral ('+' :: chars) n
  | minus {chars : List Char} {n : Nat} : Numeral chars n → SignedNumeral ('-' :: chars) (-n)

theorem digitValue?_eq_some_iff {c : Char} {d : Nat} :
    digitValue? c = some d ↔ IsDigitFor c d := by
  have hzero : '0'.toNat = 48 := rfl
  simp only [digitValue?, Option.ite_none_right_eq_some, Option.some.injEq, IsDigitFor, hzero]
  omega

theorem readFrom_append_singleton (value : Nat) (chars : List Char) (c : Char) :
    readFrom value (chars ++ [c]) =
      (readFrom value chars).bind fun n => (digitValue? c).map (10 * n + ·) := by
  induction chars generalizing value with
  | nil =>
      rw [List.nil_append, readFrom, readFrom]
      cases digitValue? c with
      | none => rfl
      | some d => rfl
  | cons first chars ih =>
      rw [List.cons_append, readFrom, readFrom]
      cases digitValue? first with
      | none => rfl
      | some d => exact ih _

theorem readNat?_of_ne_nil {chars : List Char} (h : chars ≠ []) :
    readNat? chars = readFrom 0 chars := by
  cases chars with
  | nil => exact absurd rfl h
  | cons c rest => rfl

namespace Numeral

theorem ne_nil {chars : List Char} {n : Nat} (h : Numeral chars n) : chars ≠ [] := by
  cases h with
  | digit _ => exact List.cons_ne_nil _ _
  | snoc _ _ => exact List.append_ne_nil_of_right_ne_nil _ (List.cons_ne_nil _ _)

theorem isDigit_of_mem {chars : List Char} {n : Nat} (h : Numeral chars n) {c : Char}
    (hc : c ∈ chars) : ∃ d, IsDigitFor c d := by
  induction h with
  | digit hd =>
      rw [List.mem_singleton] at hc
      exact ⟨_, hc ▸ hd⟩
  | snoc _ hd ih =>
      rw [List.mem_append, List.mem_singleton] at hc
      rcases hc with hc | rfl
      · exact ih hc
      · exact ⟨_, hd⟩

theorem not_mem {chars : List Char} {n : Nat} (h : Numeral chars n) {c : Char}
    (hc : digitValue? c = none) : c ∉ chars := by
  intro hmem
  obtain ⟨d, hd⟩ := h.isDigit_of_mem hmem
  rw [digitValue?_eq_some_iff.mpr hd] at hc
  cases hc

end Numeral

theorem readNat?_eq_some_iff {chars : List Char} {n : Nat} :
    readNat? chars = some n ↔ Numeral chars n := by
  constructor
  · intro h
    induction chars using List.reverseRecOn generalizing n with
    | nil => cases h
    | append_singleton chars c ih =>
        rw [readNat?_of_ne_nil (by simp), readFrom_append_singleton] at h
        simp only [Option.bind_eq_some_iff, Option.map_eq_some_iff] at h
        obtain ⟨m, hm, d, hd, rfl⟩ := h
        rw [digitValue?_eq_some_iff] at hd
        by_cases hchars : chars = []
        · subst hchars
          cases hm
          simpa using Numeral.digit hd
        · rw [← readNat?_of_ne_nil hchars] at hm
          exact .snoc (ih hm) hd
  · intro h
    rw [readNat?_of_ne_nil h.ne_nil]
    induction h with
    | digit hd => simp [readFrom, digitValue?_eq_some_iff.mpr hd]
    | snoc _ hd ih => simp [readFrom_append_singleton, ih, digitValue?_eq_some_iff.mpr hd]

theorem not_mem_of_signedNumeral {chars : List Char} {n : Int} (h : SignedNumeral chars n)
    {c : Char} (hplus : c ≠ '+') (hminus : c ≠ '-') (hc : digitValue? c = none) :
    c ∉ chars := by
  cases h with
  | plain h => exact h.not_mem hc
  | plus h => exact List.not_mem_cons_of_ne_of_not_mem hplus (h.not_mem hc)
  | minus h => exact List.not_mem_cons_of_ne_of_not_mem hminus (h.not_mem hc)

theorem readSigned?_eq_some_iff {chars : List Char} {n : Int} :
    readSigned? chars = some n ↔ SignedNumeral chars n := by
  constructor
  · intro h
    rw [readSigned?.eq_def] at h
    split at h
    · obtain ⟨m, hm, rfl⟩ := Option.map_eq_some_iff.mp h
      obtain ⟨k, hk, hcast⟩ := Option.bind_eq_some_iff.mp hm
      cases hcast
      exact .minus (readNat?_eq_some_iff.mp hk)
    · obtain ⟨m, hm, rfl⟩ := Option.map_eq_some_iff.mp h
      exact .plus (readNat?_eq_some_iff.mp hm)
    · obtain ⟨m, hm, rfl⟩ := Option.map_eq_some_iff.mp h
      exact .plain (readNat?_eq_some_iff.mp hm)
  · intro h
    cases h with
    | plus h => simp [readSigned?, readNat?_eq_some_iff.mpr h]
    | minus h => simp [readSigned?, readNat?_eq_some_iff.mpr h]
    | @plain _ m h =>
        -- a numeral begins with a digit, which is no sign
        have hplus : '+' ∉ chars := h.not_mem rfl
        have hminus : '-' ∉ chars := h.not_mem rfl
        rw [readSigned?.eq_def]
        split
        · exact absurd List.mem_cons_self hminus
        · exact absurd List.mem_cons_self hplus
        · rw [readNat?_eq_some_iff.mpr h]
          rfl

/-- What is read is a signed numeral whose number fits a signed word of 32 bits. -/
theorem readInt32?_eq_some_iff {chars : List Char} {n : Int} :
    readInt32? chars = some n ↔ SignedNumeral chars n ∧ inInt32 n = true := by
  rw [readInt32?, Option.filter_eq_some_iff, readSigned?_eq_some_iff]

end TerrainMap.Decimal
