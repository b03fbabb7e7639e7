import TerrainMap.Decimal
import TerrainMap.Path

/-!
The command line: a source, up to two further positional arguments, and
options. An option's value may be attached to it or follow it, and short
options may share a dash. A value is examined when the next argument shows that
it is complete; this decides which of several mistakes is reported.
-/

namespace TerrainMap

structure Arguments where
  source : Path
  first : Option String
  second : Option String
  workers : Option Nat
  verbose : Bool
  outDir : Option Path
  palette : Option Path
  config : Option Path
  nether : Bool
  genRange : Bool
  deriving DecidableEq, Repr

/-- Why a command line leads to no run. Asking for help is one reason. -/
inductive UsageError where
  | unknownArgument
  | invalidValue
  | valueValidation
  | argumentConflict
  | tooManyValues
  | missingSource
  | helpWanted
  deriving DecidableEq, Repr

def UsageError.message : UsageError → String
  | unknownArgument => "unexpected argument found"
  | invalidValue => "a value is required but none was supplied"
  | valueValidation => "invalid number of workers"
  | argumentConflict => "an argument cannot be used multiple times"
  | tooManyValues => "unexpected value for a flag"
  | missingSource => "the source is missing"
  | helpWanted => "help was asked for"

namespace CommandLine

/-- What takes a value. -/
inductive Parameter where
  | source
  | first
  | second
  | workers
  | outDir
  | palette
  | config
  deriving DecidableEq, Repr

/-- What takes no value. -/
inductive Flag where
  | verbose
  | nether
  | genRange
  | help
  deriving DecidableEq, Repr

inductive Switch where
  | parameter (p : Parameter)
  | flag (f : Flag)
  deriving DecidableEq, Repr

def longNames : List (String × Switch) :=
  [("procs", .parameter .workers), ("jobs", .parameter .workers), ("verbose", .flag .verbose),
   ("out-dir", .parameter .outDir), ("palette", .parameter .palette),
   ("config", .parameter .config), ("nether", .flag .nether), ("gen-range", .flag .genRange),
   ("help", .flag .help)]

def shortNames : List (Char × Switch) :=
  [('j', .parameter .workers), ('v', .flag .verbose), ('o', .parameter .outDir),
   ('n', .flag .nether), ('r', .flag .genRange), ('h', .flag .help)]

def positionals : List Parameter := [.source, .first, .second]

def examine (p : Parameter) (value : String) : Except UsageError Unit :=
  match p with
  | .first => .ok ()
  | .second => .ok ()
  | .workers =>
    match Decimal.readUInt64? value.toList with
    | some (_ + 1) => .ok ()
    | _ => .error .valueValidation
  | _ => if value = "" then .error .invalidValue else .ok ()

/-- The command line as far as it was read: what was examined, how many
positional arguments there were, and the parameter that was named last with its
value, which may still be missing. -/
structure Draft where
  values : List (Parameter × String) := []
  flags : List Flag := []
  positions : Nat := 0
  pending : Option (Parameter × Option String) := none

namespace Draft

/-- Takes up a value. No parameter takes two. -/
def settle (d : Draft) (p : Parameter) (value : String) : Except UsageError Draft := do
  if (d.values.lookup p).isSome then throw .argumentConflict
  examine p value
  return { d with values := (p, value) :: d.values }

/-- Takes up the value of the parameter that was named last. -/
def resolve (d : Draft) : Except UsageError Draft :=
  match d.pending with
  | none => .ok d
  | some (_, none) => .error .invalidValue
  | some (p, some value) => { d with pending := none }.settle p value

/-- Names a parameter whose value must follow. -/
def await (d : Draft) (p : Parameter) : Except UsageError Draft := do
  return { ← d.resolve with pending := some (p, none) }

def attach (d : Draft) (p : Parameter) (value : String) : Except UsageError Draft := do
  (← d.resolve).settle p value

/-- Sets a flag, which nobody may do twice. -/
def raise (d : Draft) (f : Flag) : Except UsageError Draft := do
  let d ← d.resolve
  if f = .help then throw .helpWanted
  if f ∈ d.flags then throw .argumentConflict
  return { d with flags := f :: d.flags }

def addPositional (d : Draft) (value : String) : Except UsageError Draft :=
  match positionals[d.positions]? with
  | none => .error .unknownArgument
  | some p => do
    return { ← d.resolve with positions := d.positions + 1, pending := some (p, some value) }

/-- Takes an argument that is no option: the value that is missing, or else the
next positional argument. -/
def addValue (d : Draft) (value : String) : Except UsageError Draft :=
  match d.pending with
  | some (p, none) => .ok { d with pending := some (p, some value) }
  | _ => d.addPositional value

def addLong (d : Draft) (body : List Char) : Except UsageError Draft :=
  let name := String.ofList (body.takeWhile (· != '='))
  match longNames.lookup name, body.dropWhile (· != '=') with
  | some (.parameter p), [] => d.await p
  | some (.parameter p), _ :: value => d.attach p (String.ofList value)
  | some (.flag f), [] => d.raise f
  | some (.flag _), _ :: _ => .error .tooManyValues
  | none, _ => .error .unknownArgument

/-- What is attached to a short option, with or without a sign of equality. -/
def attachedValue : List Char → List Char
  | '=' :: value => value
  | value => value

/-- Takes short options that share a dash. The first that takes a value takes
all that follows it. -/
def addShort (d : Draft) : List Char → Except UsageError Draft
  | [] => .ok d
  | c :: rest =>
    match shortNames.lookup c with
    | none => .error .unknownArgument
    | some (.flag f) => do (← d.raise f).addShort rest
    | some (.parameter p) =>
      if rest = [] then d.await p else d.attach p (String.ofList (attachedValue rest))

/-- Whether a letter stands between a number and its exponent. -/
def isExponentMark (c : Char) : Bool := c == 'e' || c == 'E'

/-- Whether a dash with these characters behind it may be a negative number:
digits, with at most one dot and one exponent behind the first of them. -/
def looksNumeric (chars : List Char) : Bool :=
  let mantissa := chars.takeWhile (!isExponentMark ·)
  let isDigit := fun c : Char => (Decimal.digitValue? c).isSome
  let plain := match mantissa with
    | [] => false
    | c :: rest => isDigit c && rest.all (fun c => isDigit c || c == '.')
      && rest.count '.' ≤ 1
  match chars.dropWhile (!isExponentMark ·) with
  | [] => plain
  | _ :: exponent => plain && exponent != [] && exponent.all isDigit

/-- Takes an argument. A negative number is an option, unless the positional
argument that is due next is one that may be negative. -/
def add (d : Draft) (arg : String) : Except UsageError Draft :=
  match arg.toList with
  | '-' :: '-' :: body => d.addLong body
  | '-' :: c :: rest =>
    if (d.positions = 1 ∨ d.positions = 2) ∧ looksNumeric (c :: rest) then d.addValue arg
    else d.addShort (c :: rest)
  | _ => d.addValue arg

def path? (d : Draft) (p : Parameter) : Option Path := (d.values.lookup p).map Path.mk

def finish (d : Draft) : Except UsageError Arguments := do
  let d ← d.resolve
  match d.path? .source with
  | none => throw .missingSource
  | some source =>
    return {
      source
      first := d.values.lookup .first
      second := d.values.lookup .second
      workers := (d.values.lookup .workers).bind fun text => Decimal.readUInt64? text.toList
      verbose := d.flags.contains .verbose
      outDir := d.path? .outDir
      palette := d.path? .palette
      config := d.path? .config
      nether := d.flags.contains .nether
      genRange := d.flags.contains .genRange }

/-- Reads arguments; behind two lone dashes all of them are positional. -/
def addAll (d : Draft) : List String → Except UsageError Draft
  | [] => .ok d
  | arg :: rest =>
    if arg = "--" then rest.foldlM addPositional d
    else do (← d.add arg).addAll rest

end Draft

/-- Reads a command line, from which the name of the program was taken away. -/
def parse (args : List String) : Except UsageError Arguments := do
  (← ({} : Draft).addAll args).finish

end CommandLine

end TerrainMap
