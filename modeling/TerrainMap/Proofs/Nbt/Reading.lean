import TerrainMap.Nbt.Record

/-!
What can be relied on about values that were read, whatever the bytes. Every
reader guarantees something of the values it gives, and the guarantees of a
record come from those of its fields: a record is built up from its start by
taking up one field after the other, in whichever form it is written.
-/

namespace TerrainMap.Nbt

variable {α β π : Type}

/-- Every value that the reader gives has the property. -/
def Gives (read : Reader α) (p : α → Prop) : Prop :=
  ∀ bytes value rest, read bytes = .ok (value, rest) → p value

section Combining

variable {read : Reader α} {p : α → Prop}

theorem gives_pure {value : α} (h : p value) : Gives (pure value) p := by
  rintro bytes _ rest ⟨⟩
  exact h

theorem gives_malformed : Gives (fun _ => malformed) p := by
  rintro bytes value rest ⟨⟩

theorem Gives.bind {next : α → Reader β} {q : β → Prop} (h : Gives read p)
    (hnext : ∀ value, p value → Gives (next value) q) : Gives (read >>= next) q := by
  intro bytes value rest hread
  have hopen : (read >>= next) bytes = (read bytes >>= fun (a, rest) => next a rest) := rfl
  rw [hopen] at hread
  cases hfirst : read bytes with
  | error halt =>
      rw [hfirst] at hread
      cases hread
  | ok found =>
      rw [hfirst] at hread
      exact hnext found.1 (h bytes found.1 found.2 hfirst) found.2 value rest hread

/-- Nothing is known of the first value, and nothing needs to be. -/
theorem gives_then {next : α → Reader β} {q : β → Prop} (hnext : ∀ value, Gives (next value) q) :
    Gives (read >>= next) q :=
  Gives.bind (p := fun _ => True) (fun _ _ _ _ => trivial) fun value _ => hnext value

theorem Gives.imp {q : α → Prop} (h : Gives read p) (hpq : ∀ value, p value → q value) :
    Gives read q :=
  fun bytes value rest hread => hpq value (h bytes value rest hread)

end Combining

/-! ### Lists -/

theorem gives_listHeader : Gives listHeader fun header => header.2 ≤ 100000000 := by
  refine gives_then fun kind => gives_then fun count => ?_
  by_cases h : count < 0 ∨ maxListLength < count ∨ (kind = .terminator ∧ count ≠ 0)
  · rw [if_pos h]
    exact gives_malformed
  · rw [if_neg h]
    refine gives_pure ?_
    simp only [maxListLength] at h
    show count.toNat ≤ 100000000
    omega

theorem gives_elementsOnto {element : Reader α} {p : α → Prop} (h : Gives element p)
    {done : List α} (hdone : ∀ value ∈ done, p value) (count : Nat) :
    Gives (elementsOnto element done count) fun values =>
      values.length = done.length + count ∧ ∀ value ∈ values, p value := by
  induction count generalizing done with
  | zero =>
      rintro bytes values rest ⟨⟩
      exact ⟨List.length_reverse, fun value hvalue => hdone value (List.mem_reverse.mp hvalue)⟩
  | succ count ih =>
      intro bytes values rest hread
      rw [elementsOnto] at hread
      cases hfirst : element bytes with
      | error halt =>
          rw [hfirst] at hread
          cases hread
      | ok found =>
          obtain ⟨value, left⟩ := found
          rw [hfirst] at hread
          have hmore : ∀ other ∈ value :: done, p other := by
            intro other hother
            rcases List.mem_cons.mp hother with rfl | hother
            · exact h bytes other left hfirst
            · exact hdone other hother
          obtain ⟨hlength, hvalues⟩ := ih hmore left values rest hread
          refine ⟨?_, hvalues⟩
          rw [hlength, List.length_cons]
          omega

/-- A list that was read has no more elements than a list may claim. -/
theorem gives_list {element : Tag → Reader α} {p : α → Prop} (h : ∀ kind, Gives (element kind) p)
    (kind : Tag) :
    Gives (readList element kind) fun values =>
      values.length ≤ 100000000 ∧ ∀ value ∈ values, p value := by
  unfold readList
  by_cases hkind : kind = .list
  · rw [if_pos hkind]
    refine gives_listHeader.bind fun header hheader => ?_
    refine (gives_elementsOnto (h header.1) (by simp) header.2).imp ?_
    rintro values ⟨hlength, hvalues⟩
    refine ⟨?_, hvalues⟩
    rw [hlength, List.length_nil]
    omega
  · rw [if_neg hkind]
    exact gives_malformed

/-! ### Records -/

/-- The property holds of a record before any field is read, and every field
keeps it up. -/
structure Keeps (shape : Shape π) (inv : π → Prop) : Prop where
  start : inv shape.start
  fields : ∀ entry ∈ shape.fields, ∀ soFar kind, inv soFar → Gives (entry.2 soFar kind) inv

section Records

variable {shape : Shape π} {inv : π → Prop}

theorem gives_field {name : String} {get : π → Option α} {set : π → α → π}
    {read : Tag → Reader α} {p : α → Prop} (hread : ∀ kind, Gives (read kind) p) {soFar : π}
    (hset : ∀ value, p value → inv (set soFar value)) (kind : Tag) :
    Gives ((field name get set read).2 soFar kind) inv := by
  simp only [field]
  split
  · exact gives_malformed
  · exact (hread kind).bind fun value hvalue => gives_pure (hset value hvalue)

/-- A field that the property does not ask about. -/
theorem gives_otherField {name : String} {get : π → Option α} {set : π → α → π}
    {read : Tag → Reader α} {soFar : π} (hset : ∀ value, inv (set soFar value)) (kind : Tag) :
    Gives ((field name get set read).2 soFar kind) inv :=
  gives_field (p := fun _ => True) (fun _ _ _ _ _ => trivial) (fun value _ => hset value) kind

theorem Keeps.lookup (h : Keeps shape inv) {name : String} {read : π → Tag → Reader π}
    (hfield : shape.fields.lookup name = some read) {soFar : π} (hsoFar : inv soFar)
    (kind : Tag) : Gives (read soFar kind) inv := by
  obtain ⟨front, rest, hfields, -⟩ := List.lookup_eq_some_iff.mp hfield
  refine h.fields (name, read) ?_ soFar kind hsoFar
  rw [hfields]
  simp

theorem Keeps.entries (h : Keeps shape inv) (fuel steps : Nat) {soFar : π}
    (hsoFar : inv soFar) : Gives (readEntries fuel shape steps soFar) inv := by
  induction steps generalizing soFar with
  | zero => exact gives_malformed
  | succ steps ih =>
      intro bytes last rest hread
      rw [readEntries] at hread
      -- the entry ends the record, or is taken up by its field, or is skipped
      split at hread
      · cases hread
      · obtain ⟨rfl, -⟩ : soFar = last ∧ _ := by simpa using hread
        exact hsoFar
      · split at hread
        · cases hread
        · split at hread
          · cases hread
          · split at hread
            · next read hfield =>
                split at hread
                · cases hread
                · next hvalue =>
                    exact ih (h.lookup hfield hsoFar _ _ _ _ hvalue) _ last rest hread
            · split at hread
              · cases hread
              · exact ih hsoFar _ last rest hread

theorem gives_leading (kind : Tag) {fields : List (String × (π → Tag → Reader π))}
    (hfields : ∀ entry ∈ fields, ∀ soFar kind, inv soFar → Gives (entry.2 soFar kind) inv)
    (count : Nat) {soFar : π} (hsoFar : inv soFar) :
    Gives (readLeading kind fields count soFar) inv := by
  induction fields generalizing count soFar with
  | nil =>
      rintro bytes last rest ⟨⟩
      exact hsoFar
  | cons entry fields ih =>
      cases count with
      | zero =>
          rintro bytes last rest ⟨⟩
          exact hsoFar
      | succ count =>
          have hrest : ∀ other ∈ fields, ∀ soFar kind, inv soFar →
              Gives (other.2 soFar kind) inv :=
            fun other hother => hfields other (List.mem_cons_of_mem entry hother)
          exact (hfields entry List.mem_cons_self soFar kind hsoFar).bind fun more hmore =>
            ih hrest count hmore

/-- A record keeps what its fields keep, in every form. -/
theorem Keeps.record (h : Keeps shape inv) (fuel : Nat) (kind : Tag) :
    Gives (readRecord fuel shape kind) inv := by
  unfold readRecord
  split
  · exact h.entries fuel fuel h.start
  · exact gives_then fun header => gives_leading header.1 h.fields header.2 h.start
  · exact gives_then fun _ => gives_pure h.start
  · exact gives_then fun _ => gives_pure h.start
  · exact gives_then fun _ => gives_pure h.start
  · exact gives_malformed

theorem Keeps.document (h : Keeps shape inv) (fuel : Nat) :
    Gives (readDocument fuel shape) inv := by
  refine gives_then fun kind => ?_
  split
  · exact gives_then fun _ => gives_then fun _ => h.entries fuel fuel h.start
  · exact gives_then fun _ => h.entries fuel fuel h.start

theorem gives_required {found : Option α} {p : α → Prop}
    (h : ∀ value, found = some value → p value) : Gives (required found) p := by
  cases found with
  | none => exact gives_malformed
  | some value =>
      rintro bytes _ rest ⟨⟩
      exact h value rfl

end Records

end TerrainMap.Nbt
