/-!
Values of configuration documents. Tables remember how they were written,
because that decides whether later lines may add to them.
-/

namespace TerrainMap.Toml

/-- How a table came to be: inside braces, as a parent that a header implies,
through a dotted key, or by a header of its own. -/
inductive TableKind where
  | inline
  | implied
  | dotted
  | header
  deriving DecidableEq, Repr

/-- A value. Floating numbers and dates keep their text; an array of tables
holds the entries of each, those of the last table first. -/
inductive Value where
  | string (text : String)
  | integer (value : Int)
  | boolean (value : Bool)
  | float (text : String)
  | datetime (text : String)
  | array (items : List Value)
  | table (kind : TableKind) (entries : List (String × Value))
  | tableArray (tables : List (List (String × Value)))

abbrev Table := TableKind × List (String × Value)

namespace Table

def replace (key : String) (value : Value) (entries : List (String × Value)) :
    List (String × Value) :=
  entries.map fun entry => if entry.1 == key then (key, value) else entry

/-- Applies `change` to the table that `path` leads to from `table`, and hands
back what `change` found there beside the changed `table`. Tables that are
missing on the way are made. A dotted key does not lead into a table that has a
header of its own, and no path leads into braces. -/
def alter {α : Type} (throughDots : Bool) :
    List String → (change : Table → Option (Table × α)) → Table → Option (Table × α)
  | [], change, table => change table
  | key :: path, change, (kind, entries) =>
    match entries.lookup key with
    | none => do
      let ((childKind, children), found) ←
        alter throughDots path change (if throughDots then .dotted else .implied, [])
      return ((kind, entries ++ [(key, .table childKind children)]), found)
    | some (.table childKind children) =>
      if childKind = .inline ∨ (throughDots ∧ childKind = .header) then none
      else do
        let ((childKind, children), found) ← alter throughDots path change (childKind, children)
        return ((kind, replace key (.table childKind children) entries), found)
    | some (.tableArray tables) =>
      match tables with
      | [] => none
      | last :: earlier => do
        let ((_, children), found) ← alter throughDots path change (.header, last)
        return ((kind, replace key (.tableArray (children :: earlier)) entries), found)
    | some _ => none

/-- Adds an entry under a dotted key, of which `path` is all but the last part.
The table it goes to must have been made by dotted keys too, unless the key has
no dots; no key is given twice. -/
def define (path : List String) (key : String) (value : Value) (table : Table) :
    Option Table :=
  (alter true path
    (fun (kind, entries) =>
      if (kind == .dotted) == path.isEmpty then none
      else if (entries.lookup key).isSome then none
      else some ((kind, entries ++ [(key, value)]), ()))
    table).map (·.1)

end Table

/-- A document while it is read: the tables that are complete, and the one that
the last header opened, with its path and whether it belongs to an array. -/
structure Draft where
  root : Table
  path : List String
  inArray : Bool
  current : Table

namespace Draft

def start : Draft := ⟨(.header, []), [], false, (.header, [])⟩

/-- Puts a finished table under a key, which an array of tables may share with
others. -/
def place (inArray : Bool) (key : String) (done : Table) : Table → Option (Table × Unit)
  | (kind, entries) =>
    match entries.lookup key with
    | none =>
      let value := if inArray then Value.tableArray [done.2] else .table done.1 done.2
      some ((kind, entries ++ [(key, value)]), ())
    | some (.tableArray tables) =>
      if inArray then
        some ((kind, Table.replace key (.tableArray (done.2 :: tables)) entries), ())
      else none
    | some _ => none

def close (d : Draft) : Option Table :=
  match d.path.getLast? with
  | none => some d.current
  | some key =>
    (Table.alter false d.path.dropLast (place d.inArray key d.current) d.root).map (·.1)

/-- Takes out the entries of a table that was only implied so far. -/
def takeImplied (key : String) : Table → Option (Table × List (String × Value))
  | (kind, entries) =>
    match entries.lookup key with
    | none => some ((kind, entries), [])
    | some (.table .implied children) =>
      some ((kind, entries.filter fun entry => entry.1 != key), children)
    | some _ => none

def openTable (d : Draft) (path : List String) (key : String) : Option Draft := do
  let (root, found) ← Table.alter false path (takeImplied key) (← d.close)
  return ⟨root, path ++ [key], false, (.header, found)⟩

/-- Makes sure that a key stands for an array of tables. -/
def demandArray (key : String) : Table → Option (Table × Unit)
  | (kind, entries) =>
    match entries.lookup key with
    | none => some ((kind, entries ++ [(key, .tableArray [])]), ())
    | some (.tableArray _) => some ((kind, entries), ())
    | some _ => none

/-- Opens the next table of an array, for a header in double brackets. -/
def openArrayTable (d : Draft) (path : List String) (key : String) : Option Draft := do
  let (root, ()) ← Table.alter false path (demandArray key) (← d.close)
  return ⟨root, path ++ [key], true, (.header, [])⟩

/-- Adds an entry to the current table. -/
def define (d : Draft) (path : List String) (key : String) (value : Value) : Option Draft := do
  return { d with current := ← d.current.define path key value }

end Draft

end TerrainMap.Toml
