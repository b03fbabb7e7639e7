import TerrainMap.Path
import TerrainMap.Raster

/-!
Directories and files as a value. The tree knows the files that a run may look
at and takes up those that it writes; it has no symbolic links. Images are kept
as their rasters, every other file as its bytes.
-/

namespace TerrainMap

inductive FileError where
  | notFound
  | exists
  | notDirectory
  | isDirectory
  | nameTooLong
  | invalidName
  | notText
  deriving DecidableEq, Repr

def FileError.message : FileError → String
  | .notFound => "No such file or directory (os error 2)"
  | .exists => "File exists (os error 17)"
  | .notDirectory => "Not a directory (os error 20)"
  | .isDirectory => "Is a directory (os error 21)"
  | .nameTooLong => "File name too long (os error 36)"
  | .invalidName => "file name contained an unexpected NUL byte"
  | .notText => "stream did not contain valid UTF-8"

-- by name, since a library may bring an instance of its own
local instance decidableEqBytes : DecidableEq ByteArray := ByteArray.instDecidableEq

inductive FileContent where
  | bytes (data : ByteArray)
  | image (raster : Raster)
  deriving DecidableEq

inductive FileNode where
  | directory
  | file (content : FileContent)
  deriving DecidableEq

/-- The names on the way from the root to a node. -/
abbrev Location := List String

/-- The nodes below the root, and the directory that relative paths start from. -/
structure FileTree where
  workingDirectory : Location
  nodes : List (Location × FileNode)

namespace FileTree

/-- The node at a location; the root is always there. -/
def node? (t : FileTree) (location : Location) : Option FileNode :=
  if location = [] then some .directory else t.nodes.lookup location

/-- The longest name of a node, in bytes. -/
def maxNameLength : Nat := 255

/-- The longest path that can be followed, in bytes. -/
def maxPathLength : Nat := 4095

/-- Follows components from a location on, every one of them but the last
through a directory. What the path ends at need not exist. -/
def walk (t : FileTree) (location : Location) : List Path.Component → Except FileError Location
  | [] => .ok location
  | component :: rest =>
    match t.node? location with
    | none => .error .notFound
    | some (.file _) => .error .notDirectory
    | some .directory =>
      match component with
      | .root => walk t [] rest
      | .here => walk t location rest
      | .up => walk t location.dropLast rest
      | .name name =>
        if maxNameLength < name.utf8ByteSize then .error .nameTooLong
        else walk t (location ++ [name]) rest

/-- The location that a path names, whether or not there is a node. -/
def locate (t : FileTree) (p : Path) : Except FileError Location :=
  if p.text.toList.contains (Char.ofNat 0) then .error .invalidName
  else if maxPathLength < p.text.utf8ByteSize then .error .nameTooLong
  else if p.text = "" then .error .notFound
  else t.walk t.workingDirectory p.components

def lookup (t : FileTree) (p : Path) : Except FileError FileNode := do
  match t.node? (← t.locate p) with
  | none => throw .notFound
  | some .directory => return .directory
  | some (.file content) =>
    if p.demandsDirectory then throw .notDirectory else return .file content

def isDirectory (t : FileTree) (p : Path) : Bool :=
  match t.lookup p with
  | .ok .directory => true
  | _ => false

def isFile (t : FileTree) (p : Path) : Bool :=
  match t.lookup p with
  | .ok (.file _) => true
  | _ => false

/-- The bytes of a file. Nobody reads images back. -/
def read (t : FileTree) (p : Path) : Except FileError ByteArray := do
  match ← t.lookup p with
  | .directory => throw .isDirectory
  | .file (.bytes data) => return data
  | .file (.image _) => return ByteArray.empty

def readText (t : FileTree) (p : Path) : Except FileError String := do
  match String.fromUTF8? (← t.read p) with
  | some text => return text
  | none => throw .notText

def childName? (directory location : Location) : Option String :=
  match directory.isPrefixOf? location with
  | some [name] => some name
  | _ => none

def list (t : FileTree) (p : Path) : Except FileError (List String) := do
  match ← t.lookup p with
  | .file _ => throw .notDirectory
  | .directory =>
    let directory ← t.locate p
    return t.nodes.filterMap fun entry => childName? directory entry.1

/-- Puts a node at a location, in the place of the one that was there. -/
def set (t : FileTree) (location : Location) (node : FileNode) : FileTree :=
  { t with nodes := (location, node) :: t.nodes.filter fun entry => entry.1 != location }

/-- Follows components as `walk` does, and makes the directories that are
missing on the way. -/
def makeDirectories (t : FileTree) (location : Location) :
    List Path.Component → FileTree × Except FileError Unit
  | [] => (t, .ok ())
  | component :: rest =>
    match component with
    | .root => makeDirectories t [] rest
    | .here => makeDirectories t location rest
    | .up => makeDirectories t location.dropLast rest
    | .name name =>
      let location := location ++ [name]
      if maxNameLength < name.utf8ByteSize then (t, .error .nameTooLong)
      else match t.node? location with
        | some .directory => makeDirectories t location rest
        | some (.file _) => (t, .error (if rest = [] then .exists else .notDirectory))
        | none => makeDirectories (t.set location .directory) location rest

/-- Makes a directory with all its parents. The empty path asks for nothing. A
directory that is missing cannot be made through the dot inside it; its parents
are made all the same. -/
def createDirectories (t : FileTree) (p : Path) : FileTree × Except FileError Unit :=
  if p.text.toList.contains (Char.ofNat 0) then (t, .error .invalidName)
  else if maxPathLength < p.text.utf8ByteSize then (t, .error .nameTooLong)
  else if p.endsInDot then
    match t.makeDirectories t.workingDirectory p.components.dropLast with
    | (t, .ok ()) => (t, if t.isDirectory p then .ok () else .error .notFound)
    | failed => failed
  else t.makeDirectories t.workingDirectory p.components

/-- Writes a file, in a directory that must be there. -/
def write (t : FileTree) (p : Path) (content : FileContent) : FileTree × Except FileError Unit :=
  match t.locate p with
  | .error e => (t, .error e)
  | .ok location =>
    if p.demandsDirectory then (t, .error .isDirectory)
    else match t.node? location with
      | some .directory => (t, .error .isDirectory)
      | some (.file _) => (t.set location (.file content), .ok ())
      | none =>
        match t.node? location.dropLast with
        | some .directory => (t.set location (.file content), .ok ())
        | some (.file _) => (t, .error .notDirectory)
        | none => (t, .error .notFound)

/-- The nodes of `after` that are new in comparison with `t` or differ from
theirs. -/
def changes (t after : FileTree) : List (Location × FileNode) :=
  after.nodes.filter fun entry => decide (t.node? entry.1 ≠ some entry.2)

end FileTree

end TerrainMap
