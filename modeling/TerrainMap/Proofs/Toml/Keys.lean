import Mathlib.Data.List.Nodup
import TerrainMap.Toml.Parser

/-!
No table of a document has two entries under one key. Tables grow by entries
under keys that they did not have, and otherwise only the value of an entry is
changed, at whatever depth; so whatever is read keeps its keys apart.
-/

namespace TerrainMap.Toml

/-- In all tables inside the value, the keys are distinct. -/
inductive Value.IsKeyed : Value → Prop
  | string (text : String) : IsKeyed (.string text)
  | integer (value : Int) : IsKeyed (.integer value)
  | boolean (value : Bool) : IsKeyed (.boolean value)
  | float (text : String) : IsKeyed (.float text)
  | datetime (text : String) : IsKeyed (.datetime text)
  | array (items : List Value) (hitems : ∀ item ∈ items, IsKeyed item) : IsKeyed (.array items)
  | table (kind : TableKind) (entries : List (String × Value))
      (hkeys : (entries.map Prod.fst).Nodup) (hvalues : ∀ entry ∈ entries, IsKeyed entry.2) :
      IsKeyed (.table kind entries)
  | tableArray (tables : List (List (String × Value)))
      (hkeys : ∀ entries ∈ tables, (entries.map Prod.fst).Nodup)
      (hvalues : ∀ entries ∈ tables, ∀ entry ∈ entries, IsKeyed entry.2) :
      IsKeyed (.tableArray tables)

/-- The keys of the entries are distinct, and so are those inside their values. -/
structure Keyed (entries : List (String × Value)) : Prop where
  keys : (entries.map Prod.fst).Nodup
  values : ∀ entry ∈ entries, entry.2.IsKeyed

theorem isKeyed_table_iff {kind : TableKind} {entries : List (String × Value)} :
    (Value.table kind entries).IsKeyed ↔ Keyed entries := by
  constructor
  · rintro ⟨⟩
    constructor <;> assumption
  · intro h
    exact .table kind entries h.keys h.values

theorem isKeyed_tableArray_iff {tables : List (List (String × Value))} :
    (Value.tableArray tables).IsKeyed ↔ ∀ entries ∈ tables, Keyed entries := by
  constructor
  · rintro (_ | _ | _ | _ | _ | _ | _ | ⟨_, hkeys, hvalues⟩) entries hentries
    exact ⟨hkeys entries hentries, hvalues entries hentries⟩
  · intro h
    exact .tableArray tables (fun entries hentries => (h entries hentries).keys)
      fun entries hentries => (h entries hentries).values

section Entries

variable {entries : List (String × Value)} {key : String} {value : Value}

theorem keyed_nil : Keyed [] := ⟨List.nodup_nil, fun _ h => absurd h List.not_mem_nil⟩

theorem Keyed.append_singleton (h : Keyed entries) (hnew : entries.lookup key = none)
    (hvalue : value.IsKeyed) : Keyed (entries ++ [(key, value)]) where
  keys := by
    rw [List.map_append, List.map_singleton, ← List.concat_eq_append]
    refine h.keys.concat ?_
    rw [List.mem_map]
    rintro ⟨entry, hentry, rfl⟩
    simpa using List.lookup_eq_none_iff.1 hnew entry hentry
  values := by
    intro entry hentry
    rcases List.mem_append.1 hentry with hold | hlast
    · exact h.values entry hold
    · rw [List.mem_singleton.1 hlast]
      exact hvalue

theorem Keyed.replace (h : Keyed entries) (key : String) (hvalue : value.IsKeyed) :
    Keyed (Table.replace key value entries) where
  keys := by
    have hkeys : (Table.replace key value entries).map Prod.fst = entries.map Prod.fst := by
      rw [Table.replace, List.map_map]
      refine List.map_congr_left fun entry _ => ?_
      rw [Function.comp_apply]
      split
      · next heq => exact (beq_iff_eq.1 heq).symm
      · rfl
    rw [hkeys]
    exact h.keys
  values := by
    intro entry hentry
    obtain ⟨old, hold, rfl⟩ := List.mem_map.1 hentry
    split
    · exact hvalue
    · exact h.values old hold

theorem Keyed.filter (h : Keyed entries) (keep : String × Value → Bool) :
    Keyed (entries.filter keep) where
  keys := h.keys.sublist ((List.filter_sublist).map Prod.fst)
  values entry hentry := h.values entry (List.mem_filter.1 hentry).1

theorem Keyed.lookup (h : Keyed entries) (hfound : entries.lookup key = some value) :
    value.IsKeyed := by
  obtain ⟨front, back, rfl, -⟩ := List.lookup_eq_some_iff.1 hfound
  exact h.values (key, value) (by simp)

end Entries

/-! ### Tables that grow -/

/-- What is found, if anything is, has the property. -/
def Finds {α : Type} (found : Option α) (p : α → Prop) : Prop :=
  ∀ value, found = some value → p value

theorem finds_none {α : Type} {p : α → Prop} : Finds none p := by
  rintro value ⟨⟩

theorem finds_some {α : Type} {p : α → Prop} {value : α} (h : p value) : Finds (some value) p := by
  rintro _ ⟨⟩
  exact h

theorem Finds.bind {α β : Type} {found : Option α} {p : α → Prop} {next : α → Option β}
    {q : β → Prop} (h : Finds found p) (hnext : ∀ value, p value → Finds (next value) q) :
    Finds (found >>= next) q := by
  intro value hvalue
  obtain ⟨middle, hmiddle, hlast⟩ := Option.bind_eq_some_iff.1 hvalue
  exact hnext middle (h middle hmiddle) value hlast

theorem Finds.map {α β : Type} {found : Option α} {p : α → Prop} {f : α → β} {q : β → Prop}
    (h : Finds found p) (hf : ∀ value, p value → q (f value)) : Finds (found.map f) q := by
  intro value hvalue
  obtain ⟨before, hbefore, rfl⟩ := Option.map_eq_some_iff.1 hvalue
  exact hf before (h before hbefore)

namespace Table

variable {α : Type} {change : Table → Option (Table × α)} {q : α → Prop}

/-- A change to keyed tables keeps their keys apart wherever in a table it is
made. -/
theorem finds_alter
    (hchange : ∀ table : Table, Keyed table.2 →
      Finds (change table) fun changed => Keyed changed.1.2 ∧ q changed.2)
    (throughDots : Bool) (path : List String) (table : Table) (h : Keyed table.2) :
    Finds (alter throughDots path change table) fun changed => Keyed changed.1.2 ∧ q changed.2 := by
  induction path generalizing table with
  | nil => exact hchange table h
  | cons key path ih =>
      obtain ⟨kind, entries⟩ := table
      rw [alter]
      split
      · next hnew =>
          refine (ih _ keyed_nil).bind ?_
          rintro ⟨⟨childKind, children⟩, found⟩ ⟨hchildren, hfound⟩
          exact finds_some ⟨h.append_singleton hnew (isKeyed_table_iff.2 hchildren), hfound⟩
      · next childKind children hold =>
          split
          · exact finds_none
          · refine (ih (childKind, children) (isKeyed_table_iff.1 (h.lookup hold))).bind ?_
            rintro ⟨⟨childKind', children'⟩, found⟩ ⟨hchildren, hfound⟩
            exact finds_some ⟨h.replace key (isKeyed_table_iff.2 hchildren), hfound⟩
      · next tables hold =>
          have htables := isKeyed_tableArray_iff.1 (h.lookup hold)
          split
          · exact finds_none
          · next last earlier =>
              rw [List.forall_mem_cons] at htables
              refine (ih (.header, last) htables.1).bind ?_
              rintro ⟨⟨_, children⟩, found⟩ ⟨hchildren, hfound⟩
              have harray : (Value.tableArray (children :: earlier)).IsKeyed :=
                isKeyed_tableArray_iff.2 (List.forall_mem_cons.2 ⟨hchildren, htables.2⟩)
              exact finds_some ⟨h.replace key harray, hfound⟩
      · exact finds_none

theorem finds_define {path : List String} {key : String} {value : Value} {table : Table}
    (h : Keyed table.2) (hvalue : value.IsKeyed) :
    Finds (define path key value table) fun changed => Keyed changed.2 := by
  refine (finds_alter (q := fun _ => True) ?_ true path table h).map fun _ hchanged => hchanged.1
  rintro ⟨kind, entries⟩ hentries
  simp only
  split
  · exact finds_none
  split
  · exact finds_none
  · next hnew =>
      rw [Bool.not_eq_true, Option.isSome_eq_false_iff, Option.isNone_iff_eq_none] at hnew
      exact finds_some ⟨hentries.append_singleton hnew hvalue, trivial⟩

end Table

namespace Draft

/-- The keys of a document that is being read are distinct so far. -/
structure IsKeyed (d : Draft) : Prop where
  root : Keyed d.root.2
  current : Keyed d.current.2

variable {d : Draft}

theorem isKeyed_start : start.IsKeyed := ⟨keyed_nil, keyed_nil⟩

theorem finds_place {inArray : Bool} {key : String} {done : Table} (hdone : Keyed done.2)
    (table : Table) (h : Keyed table.2) :
    Finds (place inArray key done table) fun changed => Keyed changed.1.2 ∧ True := by
  obtain ⟨kind, entries⟩ := table
  rw [place]
  split
  · next hnew =>
      refine finds_some ⟨h.append_singleton hnew ?_, trivial⟩
      cases inArray with
      | true => exact isKeyed_tableArray_iff.2 (List.forall_mem_singleton.2 hdone)
      | false => exact isKeyed_table_iff.2 hdone
  · next tables hold =>
      have htables := isKeyed_tableArray_iff.1 (h.lookup hold)
      split
      · exact finds_some ⟨h.replace key
          (isKeyed_tableArray_iff.2 (List.forall_mem_cons.2 ⟨hdone, htables⟩)), trivial⟩
      · exact finds_none
  · exact finds_none

theorem IsKeyed.close (h : d.IsKeyed) : Finds d.close fun root => Keyed root.2 := by
  rw [Draft.close]
  split
  · exact finds_some h.current
  · exact (Table.finds_alter (q := fun _ => True) (finds_place h.current) false _ _ h.root).map
      fun _ hchanged => hchanged.1

/-- The entries that a header takes up were those of a table before. -/
theorem finds_takeImplied (key : String) (table : Table) (h : Keyed table.2) :
    Finds (takeImplied key table) fun changed => Keyed changed.1.2 ∧ Keyed changed.2 := by
  obtain ⟨kind, entries⟩ := table
  rw [takeImplied]
  split
  · exact finds_some ⟨h, keyed_nil⟩
  · next children hold =>
      exact finds_some ⟨h.filter _, isKeyed_table_iff.1 (h.lookup hold)⟩
  · exact finds_none

theorem IsKeyed.openTable (h : d.IsKeyed) (path : List String) (key : String) :
    Finds (d.openTable path key) IsKeyed := by
  rw [Draft.openTable]
  refine h.close.bind fun root hroot => ?_
  refine (Table.finds_alter (finds_takeImplied key) false path root hroot).bind ?_
  rintro ⟨changed, found⟩ ⟨hchanged, hfound⟩
  exact finds_some ⟨hchanged, hfound⟩

theorem finds_demandArray (key : String) (table : Table) (h : Keyed table.2) :
    Finds (demandArray key table) fun changed => Keyed changed.1.2 ∧ True := by
  obtain ⟨kind, entries⟩ := table
  rw [demandArray]
  split
  · next hnew =>
      exact finds_some ⟨h.append_singleton hnew
        (isKeyed_tableArray_iff.2 fun _ hmem => absurd hmem List.not_mem_nil), trivial⟩
  · exact finds_some ⟨h, trivial⟩
  · exact finds_none

theorem IsKeyed.openArrayTable (h : d.IsKeyed) (path : List String) (key : String) :
    Finds (d.openArrayTable path key) IsKeyed := by
  rw [Draft.openArrayTable]
  refine h.close.bind fun root hroot => ?_
  refine (Table.finds_alter (q := fun _ => True) (finds_demandArray key) false path root
    hroot).bind ?_
  rintro ⟨changed, _⟩ ⟨hchanged, -⟩
  exact finds_some ⟨hchanged, keyed_nil⟩

theorem IsKeyed.define (h : d.IsKeyed) (path : List String) (key : String) {value : Value}
    (hvalue : value.IsKeyed) : Finds (d.define path key value) IsKeyed := by
  rw [Draft.define]
  refine (Table.finds_define h.current hvalue).bind fun table htable => ?_
  exact finds_some ⟨h.root, htable⟩

end Draft

/-! ### Reading -/

theorem finds_scalar? (chars : List Char) : Finds (scalar? chars) Value.IsKeyed := by
  simp only [scalar?]
  split
  · exact finds_some (.boolean _)
  split
  · exact finds_some (.boolean _)
  split
  · exact finds_some (.integer _)
  split
  · exact finds_some (.float _)
  split
  · exact finds_some (.datetime _)
  · exact finds_none

/-- The value in front of the characters that are left. -/
def FindsValue (found : Option (Value × List Char)) : Prop := Finds found fun read => read.1.IsKeyed

theorem findsValue_readScalar (chars : List Char) : FindsValue (readScalar chars) := by
  have hscalar (run rest : List Char) :
      FindsValue (scalar? run >>= fun value => pure (value, rest)) :=
    (finds_scalar? run).bind fun _ hvalue => finds_some hvalue
  simp only [readScalar]
  split
  · split
    · exact hscalar _ _
    · exact hscalar _ _
  · exact hscalar _ _

/-- With any fuel, values are keyed, and so are items and entries that are added
to keyed ones. -/
theorem findsValue_of_fuel (fuel : Nat) :
    (∀ depth chars, FindsValue (readValue depth fuel chars)) ∧
    (∀ depth done chars, (∀ item ∈ done, item.IsKeyed) →
      Finds (readItems depth fuel done chars) fun read => ∀ item ∈ read.1, item.IsKeyed) ∧
    ∀ depth (table : Table) chars, Keyed table.2 →
      FindsValue (readEntries depth fuel table chars) := by
  induction fuel with
  | zero => exact ⟨fun _ _ => finds_none, fun _ _ _ _ => finds_none, fun _ _ _ _ => finds_none⟩
  | succ fuel ih =>
      obtain ⟨hvalue, hitems, hentries⟩ := ih
      refine ⟨?_, ?_, ?_⟩
      · intro depth chars
        rw [readValue.eq_def]
        simp only
        split
        · split
          · exact finds_none
          · exact (hitems _ [] _ fun _ h => absurd h List.not_mem_nil).map fun _ => .array _
        · split
          · exact finds_none
          · split
            · exact finds_some (isKeyed_table_iff.2 keyed_nil)
            · exact hentries _ _ _ keyed_nil
        · exact Finds.map (p := fun _ => True) (fun _ _ => trivial) fun _ _ => .string _
        · exact Finds.map (p := fun _ => True) (fun _ _ => trivial) fun _ _ => .string _
        · exact findsValue_readScalar _
      · intro depth done chars hdone
        rw [readItems]
        split
        · refine finds_some fun item hitem => hdone item (List.mem_reverse.1 hitem)
        · split
          · exact finds_none
          · next item rest hread =>
              have hmore : ∀ other ∈ item :: done, other.IsKeyed :=
                List.forall_mem_cons.2 ⟨hvalue _ _ _ hread, hdone⟩
              split
              · exact hitems _ _ _ hmore
              · exact finds_some fun item hitem => hmore item (List.mem_reverse.1 hitem)
              · exact finds_none
      · intro depth table chars htable
        rw [readEntries]
        split
        · split
          · exact finds_none
          · next value rest hread =>
              split
              · exact finds_none
              · next table' hdefine =>
                  have htable' := Table.finds_define htable (hvalue _ _ _ hread) _ hdefine
                  split
                  · exact hentries _ _ _ htable'
                  · exact finds_some (isKeyed_table_iff.2 htable')
                  · exact finds_none
        · exact finds_none

section Lines

variable {d : Draft}

theorem Draft.IsKeyed.readHeader (h : d.IsKeyed) (chars : List Char) :
    Finds (Toml.readHeader d chars) fun read => read.1.IsKeyed := by
  rw [Toml.readHeader.eq_def]
  split
  · split
    · exact (h.openArrayTable _ _).map fun _ hd => hd
    · exact finds_none
  · split
    · exact (h.openTable _ _).map fun _ hd => hd
    · exact finds_none

theorem Draft.IsKeyed.readEntry (h : d.IsKeyed) (fuel : Nat) (chars : List Char) :
    Finds (Toml.readEntry d fuel chars) fun read => read.1.IsKeyed := by
  rw [Toml.readEntry]
  split
  · refine ((findsValue_of_fuel fuel).1 0 _).bind fun read hvalue => ?_
    exact (h.define _ _ hvalue).bind fun _ hd => finds_some hd
  · exact finds_none

theorem Draft.IsKeyed.readLine (h : d.IsKeyed) (fuel : Nat) (chars : List Char) :
    Finds (Toml.readLine d fuel chars) fun read => read.1.IsKeyed := by
  rw [Toml.readLine]
  split
  · exact h.readHeader _
  · exact finds_some h
  · exact finds_some h
  · exact finds_some h
  · exact finds_some h
  · exact h.readEntry fuel _

theorem Draft.IsKeyed.readLines (h : d.IsKeyed) (fuel steps : Nat) (chars : List Char) :
    Finds (Toml.readLines fuel steps d chars) IsKeyed := by
  induction steps generalizing d chars with
  | zero =>
      cases chars with
      | nil => exact finds_some h
      | cons c rest => exact finds_none
  | succ steps ih =>
      cases chars with
      | nil => exact finds_some h
      | cons c rest =>
          rw [Toml.readLines]
          · refine (h.readLine fuel _).bind fun read hd => ?_
            exact Finds.bind (p := fun _ => True) (fun _ _ => trivial) fun _ _ => ih hd _
          · simp

end Lines

/-- In every document that can be read, the keys are distinct. -/
theorem keyed_of_parse? {text : String} {entries : List (String × Value)}
    (h : parse? text = some entries) : Keyed entries := by
  have hfinds : Finds (parse? text) Keyed := by
    rw [parse?]
    refine (Draft.isKeyed_start.readLines _ _ _).bind fun d hd => ?_
    exact hd.close.bind fun _ hroot => finds_some hroot
  exact hfinds entries h

end TerrainMap.Toml
