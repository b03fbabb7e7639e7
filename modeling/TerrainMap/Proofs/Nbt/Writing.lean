import Mathlib.Algebra.Group.Nat.Defs
import Mathlib.Tactic.Cases
import TerrainMap.Nbt.Record

/-!
Writing binary tags, and reading back what was written.

A reader and a piece of bytes agree on a value when the reader takes just these
bytes and hands back whatever stood behind them. Such pieces compose: the piece
of a whole is the pieces of its parts in a row, and each lemma below says so for
one way of putting parts together.
-/

namespace TerrainMap.Nbt

variable {α β π : Type}

/-- The reader takes exactly `bytes` for `value`, in front of any others. -/
def Reads (read : Reader α) (bytes : List UInt8) (value : α) : Prop :=
  ∀ rest, read (bytes ++ rest) = .ok (value, rest)

theorem reads_pure (value : α) : Reads (pure value) [] value := by
  intro rest
  rfl

theorem Reads.bind {read : Reader α} {next : α → Reader β} {first second : List UInt8} {a : α}
    {b : β} (hread : Reads read first a) (hnext : Reads (next a) second b) :
    Reads (read >>= next) (first ++ second) b := by
  intro rest
  rw [List.append_assoc]
  show (read (first ++ (second ++ rest)) >>= fun p => next p.1 p.2) = _
  rw [hread]
  exact hnext rest

/-- What is made of a value takes no bytes of its own. -/
theorem Reads.then {read : Reader α} {next : α → Reader β} {bytes : List UInt8} {a : α} {b : β}
    (hread : Reads read bytes a) (hnext : Reads (next a) [] b) : Reads (read >>= next) bytes b := by
  have hboth := hread.bind hnext
  rwa [List.append_nil] at hboth

/-! ### Numbers -/

/-- The last `width` bytes of a number, the most significant one first. -/
def bigEndian : Nat → Nat → List UInt8
  | 0, _ => []
  | width + 1, n => UInt8.ofNat (n / 256 ^ width) :: bigEndian width n

theorem natFrom_bigEndian (value width n : Nat) (rest : List UInt8) :
    natFrom value width (bigEndian width n ++ rest) =
      .ok (value * 256 ^ width + n % 256 ^ width, rest) := by
  induction width generalizing value with
  | zero => simp [natFrom, bigEndian, Nat.mod_one]
  | succ width ih =>
      -- the byte in front is what the other bytes leave of the number
      have hsplit : n % 256 ^ (width + 1) =
          n % 256 ^ width + 256 ^ width * (n / 256 ^ width % 256) := by
        rw [Nat.pow_succ, Nat.mod_mul]
      have hbyte : (UInt8.ofNat (n / 256 ^ width)).toNat = n / 256 ^ width % 256 :=
        UInt8.toNat_ofNat'
      rw [bigEndian, List.cons_append, natFrom, ih, hbyte, hsplit, Nat.add_mul, Nat.mul_assoc,
        ← Nat.pow_succ', Nat.mul_comm (n / 256 ^ width % 256), Nat.add_assoc,
        Nat.add_comm (256 ^ width * _)]

theorem reads_nat {width n : Nat} (h : n < 256 ^ width) :
    Reads (nat width) (bigEndian width n) n := by
  intro rest
  rw [nat, natFrom_bigEndian, Nat.zero_mul, Nat.zero_add, Nat.mod_eq_of_lt h]

theorem one_shiftLeft_eight_mul (width : Nat) : 1 <<< (8 * width) = 256 ^ width := by
  rw [Nat.one_shiftLeft, Nat.pow_mul]

/-- A signed number in two's complement. -/
def writeInt (width : Nat) (i : Int) : List UInt8 :=
  bigEndian width (i % (256 ^ width : Nat)).toNat

theorem reads_int {width : Nat} {i : Int} (hlow : -(256 ^ width : Nat) ≤ i * 2)
    (hhigh : i * 2 < (256 ^ width : Nat)) : Reads (int width) (writeInt width i) i := by
  have hpos : (0 : Int) < (256 ^ width : Nat) := by
    exact_mod_cast Nat.pow_pos (by omega)
  have hnonneg := Int.emod_nonneg i (Int.ne_of_gt hpos)
  have hlt := Int.emod_lt_of_pos i hpos
  have hread : Reads (nat width) (writeInt width i) (i % (256 ^ width : Nat)).toNat :=
    reads_nat (by omega)
  apply hread.then
  -- the remainder that lies nearest to zero is the number itself
  rw [Int.toNat_of_nonneg hnonneg, one_shiftLeft_eight_mul, Int.emod_bmod,
    Int.bmod_eq_of_le_mul_two hlow hhigh]
  exact reads_pure i

/-! ### Leaves -/

theorem reads_takeOnto (taken bytes : List UInt8) :
    Reads (takeOnto taken bytes.length) bytes (taken.reverse ++ bytes) := by
  intro rest
  induction bytes generalizing taken with
  | nil => simp [takeOnto]
  | cons b bytes ih =>
      rw [List.length_cons, List.cons_append, takeOnto, ih]
      simp

theorem reads_take (bytes : List UInt8) : Reads (take bytes.length) bytes bytes :=
  reads_takeOnto [] bytes

def Tag.toByte (kind : Tag) : UInt8 := UInt8.ofNat (Tag.all.idxOf kind)

theorem reads_tag (kind : Tag) : Reads tag [kind.toByte] kind := by
  intro rest
  cases kind <;> rfl

def textBytes (s : String) : List UInt8 := s.toByteArray.data.toList

def writeText (s : String) : List UInt8 := bigEndian 2 (textBytes s).length ++ textBytes s

theorem readText_textBytes (s : String) : readText (textBytes s) = some s := by
  have hbytes : (textBytes s).toByteArray = s.toByteArray := by
    apply ByteArray.ext
    rw [List.data_toByteArray, textBytes, Array.toArray_toList]
  rw [readText, hbytes, String.fromUTF8?, dif_pos s.isValidUTF8]
  rfl

theorem reads_text {s : String} (h : (textBytes s).length < 65536) :
    Reads text (writeText s) s := by
  have hlength : Reads (nat 2) (bigEndian 2 (textBytes s).length) (textBytes s).length :=
    reads_nat h
  apply hlength.bind
  apply (reads_take (textBytes s)).then
  rw [readText_textBytes]
  exact reads_pure s

def writeLongs (words : Array UInt64) : List UInt8 :=
  writeInt 4 words.size ++ words.toList.flatMap fun word => bigEndian 8 word.toNat

theorem reads_longsOnto (done : Array UInt64) (words : List UInt64) :
    Reads (longsOnto done words.length) (words.flatMap fun word => bigEndian 8 word.toNat)
      (done ++ words.toArray) := by
  intro rest
  induction words generalizing done with
  | nil => simp [longsOnto]
  | cons word words ih =>
      have hword : Reads (nat 8) (bigEndian 8 word.toNat) word.toNat := reads_nat word.toNat_lt
      rw [List.length_cons, List.flatMap_cons, List.append_assoc, longsOnto, hword]
      simp only
      rw [ih]
      simp

theorem reads_arrayLength {count : Nat} (h : count < 2147483648) :
    Reads arrayLength (writeInt 4 count) count := by
  have hint : Reads (int 4) (writeInt 4 count) (count : Int) :=
    reads_int (by omega) (by omega)
  apply hint.then
  exact reads_pure count

theorem reads_longs {words : Array UInt64} (h : words.size < 2147483648) :
    Reads (readLongs .longArray) (writeLongs words) words := by
  apply (reads_arrayLength h).bind
  have hwords := reads_longsOnto #[] words.toList
  rwa [Array.length_toList, Array.empty_append, Array.toArray_toList] at hwords

/-- An integer of the width that a kind stands for, between its bounds. -/
theorem reads_between {lo hi i : Int} {read : Reader Int} {bytes : List UInt8}
    (hread : Reads read bytes i) (hlow : lo ≤ i) (hhigh : i ≤ hi) :
    Reads (do
      let value ← read
      if lo ≤ value ∧ value ≤ hi then return value else malformed) bytes i := by
  have hgood : lo ≤ i ∧ i ≤ hi := ⟨hlow, hhigh⟩
  apply hread.then
  simp only [if_pos hgood]
  exact reads_pure i

theorem reads_integer_byte {i : Int} (hlow : -128 ≤ i) (hhigh : i ≤ 127) :
    Reads (readInteger (-128) 127 .byte) (writeInt 1 i) i := by
  have hint : Reads (int 1) (writeInt 1 i) i := reads_int (by omega) (by omega)
  exact reads_between hint hlow hhigh

theorem reads_integer_int {i : Int} (hlow : -2147483648 ≤ i) (hhigh : i ≤ 2147483647) :
    Reads (readInteger (-2147483648) 2147483647 .int) (writeInt 4 i) i := by
  have hint : Reads (int 4) (writeInt 4 i) i := reads_int (by omega) (by omega)
  exact reads_between hint hlow hhigh

theorem reads_string {s : String} (h : (textBytes s).length < 65536) :
    Reads (readString .string) (writeText s) s :=
  reads_text h

/-! ### Lists -/

/-- A list of compounds behind the kind and the number of its elements. -/
def writeCompounds (write : α → List UInt8) (values : List α) : List UInt8 :=
  Tag.compound.toByte :: writeInt 4 values.length ++ values.flatMap write

theorem reads_listHeader {count : Nat} (h : count ≤ 100000000) :
    Reads listHeader (Tag.compound.toByte :: writeInt 4 count) (.compound, count) := by
  have hint : Reads (int 4) (writeInt 4 count) (count : Int) :=
    reads_int (by omega) (by omega)
  apply (reads_tag .compound).bind
  apply hint.then
  have hgood : ¬ ((count : Int) < 0 ∨ maxListLength < (count : Int) ∨
      (Tag.compound = Tag.terminator ∧ (count : Int) ≠ 0)) := by
    simp only [maxListLength, reduceCtorEq, false_and, or_false]
    omega
  rw [if_neg hgood]
  exact reads_pure (Tag.compound, count)

theorem reads_elementsOnto {element : Reader α} {write : α → List UInt8} (done values : List α)
    (helement : ∀ value ∈ values, Reads element (write value) value) :
    Reads (elementsOnto element done values.length) (values.flatMap write)
      (done.reverse ++ values) := by
  intro rest
  induction values generalizing done with
  | nil => simp [elementsOnto]
  | cons value values ih =>
      rw [List.length_cons, List.flatMap_cons, List.append_assoc, elementsOnto,
        helement value List.mem_cons_self]
      simp only
      rw [ih]
      · simp
      · intro other hother
        exact helement other (List.mem_cons_of_mem value hother)

theorem reads_list {element : Tag → Reader α} {write : α → List UInt8} {values : List α}
    (hlength : values.length ≤ 100000000)
    (helement : ∀ value ∈ values, Reads (element .compound) (write value) value) :
    Reads (readList element .list) (writeCompounds write values) values := by
  apply (reads_listHeader hlength).bind
  exact reads_elementsOnto [] values helement

/-! ### Compounds -/

def writeEntry (kind : Tag) (name : String) (value : List UInt8) : List UInt8 :=
  kind.toByte :: writeText name ++ value

/-- An entry that may be missing. -/
def writeOptional (kind : Tag) (name : String) (write : α → List UInt8) :
    Option α → List UInt8
  | some value => writeEntry kind name (write value)
  | none => []

def endBytes : List UInt8 := [Tag.terminator.toByte]

/-- What is left of a compound is read in `need` steps or more. -/
def ReadsEntries (fuel : Nat) (shape : Shape π) (need : Nat) (soFar : π) (bytes : List UInt8)
    (last : π) : Prop :=
  ∀ steps, need ≤ steps → Reads (readEntries fuel shape steps soFar) bytes last

/-- An entry of this kind and name can be written and is read under its name. -/
def IsEntry (kind : Tag) (name : String) : Prop :=
  kind ≠ .terminator ∧ (textBytes name).length < 65536 ∧ name ∉ reservedNames

instance (kind : Tag) (name : String) : Decidable (IsEntry kind name) :=
  inferInstanceAs (Decidable (_ ∧ _))

section Entries

variable {fuel need : Nat} {shape : Shape π} {soFar last : π} {kind : Tag} {name : String}
  {bytes : List UInt8}

theorem readsEntries_end (fuel need : Nat) (shape : Shape π) (soFar : π) :
    ReadsEntries fuel shape (need + 1) soFar endBytes soFar := by
  intro steps hsteps rest
  obtain ⟨more, rfl⟩ : ∃ more, steps = more + 1 := ⟨steps - 1, by omega⟩
  rw [readEntries, endBytes, reads_tag]

/-- An entry under the name of a field that was not met before. -/
theorem ReadsEntries.field (get : π → Option α) (set : π → α → π) {read : Tag → Reader α}
    {value : List UInt8} {a : α} (hentry : IsEntry kind name)
    (hfield : shape.fields.lookup name = some (Nbt.field name get set read).2)
    (hfresh : get soFar = none) (hread : Reads (read kind) value a)
    (hrest : ReadsEntries fuel shape need (set soFar a) bytes last) :
    ReadsEntries fuel shape (need + 1) soFar (writeEntry kind name value ++ bytes) last := by
  intro steps hsteps rest
  obtain ⟨hkind, hname, hfree⟩ := hentry
  obtain ⟨more, rfl⟩ : ∃ more, steps = more + 1 := ⟨steps - 1, by omega⟩
  have hvalue : Reads ((Nbt.field name get set read).2 soFar kind) value (set soFar a) := by
    have hnone : ¬ (get soFar).isSome = true := by simp [hfresh]
    simp only [Nbt.field, if_neg hnone]
    exact hread.then (reads_pure (set soFar a))
  have hrest := hrest more (by omega) rest
  have hshape : writeEntry kind name value ++ bytes ++ rest =
      [kind.toByte] ++ (writeText name ++ (value ++ (bytes ++ rest))) := by
    simp [writeEntry]
  rw [readEntries, hshape, reads_tag]
  -- every kind but the terminator goes on to a name and a value
  cases kind
  case terminator => exact absurd rfl hkind
  all_goals simp only [reads_text hname _, if_neg hfree, hfield, hvalue _, hrest]

/-- An entry that may be missing leaves what was read before as it was. -/
theorem ReadsEntries.optional (get : π → Option α) (set : π → α → π) {read : Tag → Reader α}
    {write : α → List UInt8} {value? : Option α} (after : Option α → π)
    (hentry : IsEntry kind name)
    (hfield : shape.fields.lookup name = some (Nbt.field name get set read).2)
    (hfresh : get soFar = none) (hnone : after none = soFar)
    (hsome : ∀ a, after (some a) = set soFar a)
    (hread : ∀ a, value? = some a → Reads (read kind) (write a) a)
    (hrest : ReadsEntries fuel shape need (after value?) bytes last) :
    ReadsEntries fuel shape (need + 1) soFar (writeOptional kind name write value? ++ bytes)
      last := by
  cases value? with
  | none =>
      rw [hnone] at hrest
      intro steps hsteps
      exact hrest steps (by omega)
  | some a =>
      rw [hsome] at hrest
      exact ReadsEntries.field get set hentry hfield hfresh (hread a rfl) hrest

end Entries

end TerrainMap.Nbt
