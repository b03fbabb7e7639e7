import TerrainMap.Region.File

/-!
What the numbers in a region file are, and what a file with a single chunk gives.
Such a file keeps the chunk as it is, right behind the table.
-/

namespace TerrainMap.RegionFile

variable {f : RegionFile} {payload : List UInt8} {cx cz : Nat}

/-- Continues a number of which the leading bytes are worth `n`. -/
def nextDigit (n : Nat) (b : UInt8) : Nat := n * 256 + b.toNat

theorem foldlLoop_eq (data : ByteArray) (left start value : Nat) (h : start + left = data.size) :
    ByteArray.foldlM.loop (m := Id) (fun n b => pure (nextDigit n b)) data data.size
        (Nat.le_refl _) left start value =
      (data.data.toList.drop start).foldl nextDigit value := by
  induction left generalizing start value with
  | zero =>
      have hend : data.data.toList.length ≤ start := Nat.le_of_eq h.symm
      rw [ByteArray.foldlM.loop, dif_neg (by omega), List.drop_eq_nil_of_le hend]
      rfl
  | succ left ih =>
      have hlt : start < data.size := by omega
      have hcons : data.data.toList.drop start =
          data[start] :: data.data.toList.drop (start + 1) := by
        rw [List.drop_eq_getElem_cons (by simpa using hlt)]
        simp [ByteArray.getElem_eq_getElem_data]
      rw [ByteArray.foldlM.loop, dif_pos hlt, hcons]
      exact ih (start + 1) _ (by omega)

/-- A number is read off its bytes from left to right. -/
theorem number_eq (f : RegionFile) (start count : Nat) :
    f.number start count = ((f.data.data.toList.drop start).take count).foldl nextDigit 0 := by
  rw [number, ByteArray.foldl, ByteArray.foldlM, dif_pos (Nat.le_refl _)]
  have hloop := foldlLoop_eq (f.data.extract start (start + count))
    ((f.data.extract start (start + count)).size - 0) 0 0 (by omega)
  refine hloop.trans ?_
  rw [List.drop_zero, ByteArray.data_extract, Array.toList_extract, List.extract_eq_take_drop,
    Nat.add_sub_cancel_left]

theorem toListLoop_eq (data : ByteArray) (start : Nat) (done : List UInt8) :
    ByteArray.toList.loop data start done = done.reverse ++ data.data.toList.drop start := by
  fun_induction ByteArray.toList.loop data start done with
  | case1 start done hlt ih =>
      have hindex : start < data.data.toList.length := hlt
      have hbyte : data.get! start = data.data.toList[start] := getElem!_pos data.data start hlt
      rw [ih, List.drop_eq_getElem_cons hindex, hbyte]
      simp
  | case2 start done hge =>
      have hend : data.data.toList.length ≤ start := Nat.le_of_not_lt hge
      rw [List.drop_eq_nil_of_le hend, List.append_nil]

theorem toList_eq (data : ByteArray) : data.toList = data.data.toList := by
  rw [ByteArray.toList, toListLoop_eq]
  rfl

/-! ### A single chunk -/

/-- The first entry of the table says that its chunk begins with the next sector. -/
def firstEntryTable : List UInt8 := [0, 0, 1, 1] ++ List.replicate (sectorSize - 4) 0

/-- A region file with a short chunk, which is not compressed, in the first place. -/
def ofChunk (payload : List UInt8) : RegionFile :=
  ⟨⟨(firstEntryTable ++
    ([0, 0, 0, UInt8.ofNat (payload.length + 1), 3] ++ payload)).toArray⟩⟩

theorem length_firstEntryTable : firstEntryTable.length = sectorSize := by
  rw [firstEntryTable, List.length_append, List.length_replicate]
  rfl

theorem size_ofChunk (payload : List UInt8) :
    (ofChunk payload).data.size = sectorSize + (payload.length + 5) := by
  simp [ofChunk, ByteArray.size, length_firstEntryTable]

theorem ofBytes?_ofChunk (payload : List UInt8) :
    ofBytes? (ofChunk payload).data = some (ofChunk payload) := by
  rw [ofBytes?, size_ofChunk, if_neg (by omega)]

/-- The numbers of the table are those of its own bytes. -/
theorem number_ofChunk_table {start count : Nat} (h : start + count ≤ sectorSize) :
    (ofChunk payload).number start count =
      ((firstEntryTable.drop start).take count).foldl nextDigit 0 := by
  have hlength := length_firstEntryTable
  rw [number_eq, ofChunk, List.drop_append_of_le_length (by omega),
    List.take_append_of_le_length (by simp only [List.length_drop]; omega)]

/-- The numbers behind the table are those of the header of the chunk. -/
theorem number_ofChunk_header (start count : Nat) :
    (ofChunk payload).number (sectorSize + start) count =
      ((([0, 0, 0, UInt8.ofNat (payload.length + 1), 3] ++ payload).drop start).take
        count).foldl nextDigit 0 := by
  rw [number_eq, ofChunk, ← length_firstEntryTable, List.drop_length_add_append]

/-- An entry behind the first one is empty. -/
theorem number_ofChunk_entry (hx : cx < 32) (hz : cz < 32) (h : ¬ (cx = 0 ∧ cz = 0)) :
    (ofChunk payload).number (entryStart cx cz) 4 = 0 := by
  have hlow : 4 ≤ entryStart cx cz := by
    simp only [entryStart]
    omega
  have hhigh : entryStart cx cz + 4 ≤ sectorSize := by
    simp only [entryStart, sectorSize]
    omega
  have hzeros : (firstEntryTable.drop (entryStart cx cz)).take 4 = List.replicate 4 0 := by
    rw [firstEntryTable, List.drop_append, List.drop_eq_nil_of_le hlow, List.nil_append,
      List.drop_replicate, List.take_replicate, Nat.min_eq_left]
    simp only [List.length_cons, List.length_nil]
    omega
  rw [number_ofChunk_table hhigh, hzeros]
  rfl

theorem chunk?_ofChunk_other (hx : cx < 32) (hz : cz < 32) (h : ¬ (cx = 0 ∧ cz = 0)) :
    (ofChunk payload).chunk? cx cz = .ok none := by
  rw [chunk?, if_neg (by omega), if_pos (number_ofChunk_entry hx hz h)]

/-- The chunk is found in the first place, as it is. -/
theorem chunk?_ofChunk (hsize : payload.length < 255) :
    (ofChunk payload).chunk? 0 0 = .ok (some ⟨payload.toArray⟩) := by
  have hentry : (ofChunk payload).number (entryStart 0 0) 4 = 257 :=
    number_ofChunk_table (by decide)
  have hsector : (ofChunk payload).number (entryStart 0 0) 3 = 1 :=
    number_ofChunk_table (by decide)
  have hlength : (ofChunk payload).number (sectorSize + 0) 4 = payload.length + 1 := by
    rw [number_ofChunk_header]
    simp only [List.cons_append, List.nil_append, List.drop_zero, List.take_succ_cons,
      List.take_zero, List.foldl_cons, List.foldl_nil, nextDigit, UInt8.toNat_ofNat',
      UInt8.toNat_zero]
    omega
  have hscheme : (ofChunk payload).number (sectorSize + 4) 1 = 3 :=
    number_ofChunk_header 4 1
  have hpayload : (ofChunk payload).data.extract (sectorSize + 5)
      (sectorSize + 5 + payload.length) = ⟨payload.toArray⟩ := by
    apply ByteArray.ext
    apply Array.toList_inj.mp
    rw [ByteArray.data_extract, Array.toList_extract, List.extract_eq_take_drop,
      Nat.add_sub_cancel_left, ofChunk, ← length_firstEntryTable, List.drop_length_add_append]
    exact List.take_length
  rw [chunk?, if_neg (by omega), hentry, if_neg (by omega)]
  simp only [hsector, Nat.one_mul]
  rw [if_neg (by rw [size_ofChunk]; omega), ← Nat.add_zero sectorSize, hlength]
  have hbody : (payload.length + 1 + 4294967295) % 4294967296 = payload.length := by omega
  simp only [Nat.add_zero, hscheme, hbody, hpayload]
  rfl

end TerrainMap.RegionFile
