/-!
Paths in Unix notation. A path is kept as it was written, because messages
repeat it so; what it names is decided by its components, in which repeated
slashes, slashes at the end and dots in the middle do not count. Paths are text:
a name on disk whose bytes are no text is nothing that a run reads or writes,
and has no path here.
-/

namespace TerrainMap

structure Path where
  text : String
  deriving DecidableEq, Repr, Inhabited

namespace Path

/-- One step of a path. `here` is a dot the path begins with, `up` two dots. -/
inductive Component where
  | root
  | here
  | up
  | name (text : String)
  deriving DecidableEq, Repr

/-- What one piece between two slashes stands for, if for anything. -/
def componentOfPiece? (piece : List Char) : Option Component :=
  if piece = [] ∨ piece = ['.'] then none
  else if piece = ['.', '.'] then some .up
  else some (.name (String.ofList piece))

/-- The pieces between slashes, empty ones included. -/
def pieces (p : Path) : List (List Char) := p.text.toList.splitOn '/'

def components (p : Path) : List Component :=
  match p.pieces with
  | ['.'] :: rest => .here :: rest.filterMap componentOfPiece?
  | [] :: next :: rest => .root :: (next :: rest).filterMap componentOfPiece?
  | parts => parts.filterMap componentOfPiece?

/-- The last component, if it is a name. -/
def fileName? (p : Path) : Option String :=
  match p.components.getLast? with
  | some (.name text) => some text
  | _ => none

def isAbsolute (p : Path) : Bool := p.text.toList.head? == some '/'

/-- Whether the path ends in a piece that names nothing, which only a
directory may carry. -/
def demandsDirectory (p : Path) : Bool :=
  match p.pieces.getLast? with
  | some piece => p.pieces.length > 1 && (piece == [] || piece == ['.'])
  | none => false

/-- Whether the last piece that is not empty is a dot. -/
def endsInDot (p : Path) : Bool := (p.pieces.filter (· != [])).getLast? == some ['.']

/-- Appends `tail` behind a slash, which is not repeated. An absolute `tail`
stands alone. -/
def join (base tail : Path) : Path :=
  if tail.isAbsolute then tail
  else match base.text.toList.getLast? with
    | none => tail
    | some '/' => ⟨base.text ++ tail.text⟩
    | some _ => ⟨base.text ++ "/" ++ tail.text⟩

/-- Splits off what a path cannot lose: its root, or the dot it begins with. -/
def splitLead : List Char → List Char × List Char
  | '/' :: rest => (['/'], rest)
  | ['.'] => (['.'], [])
  | '.' :: '/' :: rest => (['.'], '/' :: rest)
  | chars => ([], chars)

/-- Drops slashes and lone dots from the front of a reversed path. -/
def trimReversed : List Char → List Char
  | '/' :: rest => trimReversed rest
  | ['.'] => []
  | '.' :: '/' :: rest => trimReversed rest
  | chars => chars

/-- The path without its last component. The root and the empty path have no
parent; the parent of a lone name is the empty path. -/
def parent? (p : Path) : Option Path :=
  let (lead, body) := splitLead p.text.toList
  match trimReversed body.reverse with
  | [] => if lead = ['.'] then some ⟨""⟩ else none
  | reversed =>
    let rest := trimReversed ((reversed.dropWhile (· != '/')).drop 1)
    some ⟨String.ofList (lead ++ rest.reverse)⟩

example : (Path.mk "d/e/f.toml").parent? = some ⟨"d/e"⟩ := by decide
example : (Path.mk "a").parent? = some ⟨""⟩ := by decide
example : (Path.mk "/a").parent? = some ⟨"/"⟩ := by decide
example : (Path.mk "/").parent? = none := by decide
example : (Path.mk "./c").parent? = some ⟨"."⟩ := by decide
example : (Path.mk "a//./b/").parent? = some ⟨"a"⟩ := by decide
example : (Path.mk "d").join ⟨""⟩ = ⟨"d/"⟩ := by decide
example : (Path.mk "r.1.2.mca/.").fileName? = some "r.1.2.mca" := by decide

end Path

end TerrainMap
