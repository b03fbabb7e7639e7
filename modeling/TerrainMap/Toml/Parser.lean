import TerrainMap.Toml.Scalar

/-!
Reading of configuration documents. A reader takes what it reads from the front
of a list of characters and hands back the rest; it gives nothing where the
characters do not have the expected form.
-/

namespace TerrainMap.Toml

/-- Reads from the front of the characters. -/
abbrev Scan (α : Type) := List Char → Option (α × List Char)

def isBlank (c : Char) : Bool := c == ' ' || c == '\t'

def skipBlanks (chars : List Char) : List Char := chars.dropWhile isBlank

/-- Characters of comments and of quoted texts on one line: all but the control
characters, of which only the tab is allowed. -/
def isPlain (c : Char) : Bool := (32 ≤ c.toNat || c == '\t') && c.toNat != 127

/-- The end of a line, in either of its forms. -/
def lineEnd? : List Char → Option (List Char)
  | '\n' :: rest => some rest
  | '\r' :: '\n' :: rest => some rest
  | _ => none

def skipComment : List Char → List Char
  | '#' :: rest => rest.dropWhile isPlain
  | chars => chars

/-- Passes over blanks and a comment to the end of the line or of the text. -/
def finishLine? (chars : List Char) : Option (List Char) :=
  match skipComment (skipBlanks chars) with
  | [] => some []
  | rest => lineEnd? rest

def scalarValue? (digits : List Char) : Option Char := do
  let n ← digits.foldlM (fun n c => (digitInBase? 16 c).map (n * 16 + ·)) 0
  if n < 0xD800 ∨ (0xE000 ≤ n ∧ n < 0x110000) then some (Char.ofNat n) else none

def simpleEscape? : Char → Option Char
  | 'b' => some '\x08'
  | 't' => some '\t'
  | 'n' => some '\n'
  | 'f' => some '\x0c'
  | 'r' => some '\r'
  | '"' => some '"'
  | '\\' => some '\\'
  | _ => none

/-- Puts a character in front of what is read behind it. -/
def prepend (c : Char) (rest : Option (List Char × List Char)) : Option (List Char × List Char) :=
  rest.map fun (text, chars) => (c :: text, chars)

/-- The rest of a text in double quotes. -/
def readBasic : Scan (List Char)
  | [] => none
  | '"' :: rest => some ([], rest)
  | '\\' :: 'u' :: a :: b :: c :: d :: rest =>
    (scalarValue? [a, b, c, d]).bind fun e => prepend e (readBasic rest)
  | '\\' :: 'U' :: a :: b :: c :: d :: e :: f :: g :: h :: rest =>
    (scalarValue? [a, b, c, d, e, f, g, h]).bind fun x => prepend x (readBasic rest)
  | '\\' :: c :: rest => (simpleEscape? c).bind fun e => prepend e (readBasic rest)
  | c :: rest => if isPlain c && c != '\\' then prepend c (readBasic rest) else none

/-- The rest of a text in single quotes, in which nothing is escaped. -/
def readLiteral : Scan (List Char)
  | [] => none
  | '\'' :: rest => some ([], rest)
  | c :: rest => if isPlain c then prepend c (readLiteral rest) else none

/-- Up to two quotes that belong to a text of several lines stand right before
the three that close it. -/
def closingQuotes? (quote : Char) (chars : List Char) : Option (List Char × List Char) :=
  let run := (chars.takeWhile (· == quote)).length
  if run < 3 then none
  else
    let inner := min (run - 3) 2
    some (List.replicate inner quote, chars.drop (inner + 3))

/-- Passes over blanks to the end of the line, if nothing else stands before it. -/
def blankLineEnd? (chars : List Char) : Option (List Char) := lineEnd? (skipBlanks chars)

/-- The rest of a text of several lines in double quotes. While `folding`, line
ends and blanks are passed over, as a backslash at the end of a line asks. -/
def readLongBasic (folding : Bool) : Scan (List Char)
  | [] => none
  | '\\' :: 'u' :: a :: b :: c :: d :: rest =>
    (scalarValue? [a, b, c, d]).bind fun e => prepend e (readLongBasic false rest)
  | '\\' :: 'U' :: a :: b :: c :: d :: e :: f :: g :: h :: rest =>
    (scalarValue? [a, b, c, d, e, f, g, h]).bind fun x => prepend x (readLongBasic false rest)
  | '\\' :: c :: rest =>
    match simpleEscape? c with
    | some e => prepend e (readLongBasic false rest)
    | none => if (blankLineEnd? (c :: rest)).isSome then readLongBasic true (c :: rest) else none
  | '"' :: rest =>
    match closingQuotes? '"' ('"' :: rest) with
    | some found => some found
    | none => prepend '"' (readLongBasic false rest)
  | '\r' :: '\n' :: rest =>
    if folding then readLongBasic true rest else prepend '\n' (readLongBasic false rest)
  | '\n' :: rest =>
    if folding then readLongBasic true rest else prepend '\n' (readLongBasic false rest)
  | c :: rest =>
    if folding && isBlank c then readLongBasic true rest
    else if isPlain c && c != '\\' then prepend c (readLongBasic false rest)
    else none

/-- The rest of a text of several lines in single quotes. -/
def readLongLiteral : Scan (List Char)
  | [] => none
  | '\'' :: rest =>
    match closingQuotes? '\'' ('\'' :: rest) with
    | some found => some found
    | none => prepend '\'' (readLongLiteral rest)
  | '\r' :: '\n' :: rest => prepend '\n' (readLongLiteral rest)
  | '\n' :: rest => prepend '\n' (readLongLiteral rest)
  | c :: rest => if isPlain c then prepend c (readLongLiteral rest) else none

/-- A line end right behind the opening quotes does not belong to the text. -/
def dropFirstLineEnd (chars : List Char) : List Char := (lineEnd? chars).getD chars

/-- A text in any kind of quotes. -/
def readString : Scan (List Char)
  | '"' :: '"' :: '"' :: rest => readLongBasic false (dropFirstLineEnd rest)
  | '\'' :: '\'' :: '\'' :: rest => readLongLiteral (dropFirstLineEnd rest)
  | '"' :: rest => readBasic rest
  | '\'' :: rest => readLiteral rest
  | _ => none

/-- Characters of a key without quotes. -/
def isBareKey (c : Char) : Bool := c.isAlphanum || c == '-' || c == '_'

def readSimpleKey : Scan String
  | '"' :: rest => (readBasic rest).map fun (text, rest) => (String.ofList text, rest)
  | '\'' :: rest => (readLiteral rest).map fun (text, rest) => (String.ofList text, rest)
  | chars =>
    match chars.takeWhile isBareKey with
    | [] => none
    | key => some (String.ofList key, chars.dropWhile isBareKey)

/-- How deep values may be nested, and how many parts a key may have. -/
def nestingLimit : Nat := 80

/-- The parts of a dotted key with blanks around them, `count` of them at most. -/
def readKeyParts : (count : Nat) → Scan (List String)
  | 0, _ => none
  | count + 1, chars => do
    let (part, rest) ← readSimpleKey (skipBlanks chars)
    match skipBlanks rest with
    | '.' :: rest =>
      let (parts, rest) ← readKeyParts count rest
      return (part :: parts, rest)
    | rest => return ([part], rest)

/-- A dotted key: its last part, and those before it. -/
def readKey : Scan (List String × String) := fun chars => do
  let (parts, rest) ← readKeyParts (nestingLimit - 1) chars
  return ((parts.dropLast, ← parts.getLast?), rest)

/-- Characters that end a scalar. -/
def endsScalar (c : Char) : Bool :=
  [' ', '\t', '\n', '\r', ',', ']', '}', '#'].contains c

/-- A scalar without quotes. A blank may stand between a date and its time. -/
def readScalar : Scan Value := fun chars => do
  let run := chars.takeWhile fun c => !endsScalar c
  let rest := chars.dropWhile fun c => !endsScalar c
  match rest with
  | ' ' :: c :: rest' =>
    if isDate run && c.isDigit then
      let time := (c :: rest').takeWhile fun c => !endsScalar c
      let value ← scalar? (run ++ ' ' :: time)
      return (value, (c :: rest').dropWhile fun c => !endsScalar c)
    else return (← scalar? run, rest)
  | _ => return (← scalar? run, rest)

/-- Passes over blanks, line ends and comments; `commented` tells whether the
characters stand in a comment. -/
def skipLines (commented : Bool) : List Char → List Char
  | [] => []
  | '\n' :: rest => skipLines false rest
  | '\r' :: '\n' :: rest => skipLines false rest
  | c :: rest =>
    if commented then if isPlain c then skipLines true rest else c :: rest
    else if isBlank c then skipLines false rest
    else if c = '#' then skipLines true rest
    else c :: rest

mutual

/-- A value. `depth` counts the brackets and braces around it. -/
def readValue (depth : Nat) : (fuel : Nat) → Scan Value
  | 0, _ => none
  | fuel + 1, chars =>
    match chars with
    | '[' :: rest =>
      if nestingLimit ≤ depth + 1 then none
      else (readItems (depth + 1) fuel [] rest).map fun (items, rest) => (.array items, rest)
    | '\x7b' :: rest =>
      if nestingLimit ≤ depth + 1 then none
      else match skipBlanks rest with
        | '\x7d' :: rest => some (.table .inline [], rest)
        | rest => readEntries (depth + 1) fuel (.inline, []) rest
    | '"' :: _ => (readString chars).map fun (text, rest) => (.string (String.ofList text), rest)
    | '\'' :: _ => (readString chars).map fun (text, rest) => (.string (String.ofList text), rest)
    | _ => readScalar chars

/-- The items of an array behind those in `done`, kept in reverse, up to and
including the closing bracket. A comma may follow the last item. -/
def readItems (depth : Nat) : (fuel : Nat) → List Value → Scan (List Value)
  | 0, _, _ => none
  | fuel + 1, done, chars =>
    match skipLines false chars with
    | ']' :: rest => some (done.reverse, rest)
    | chars =>
      match readValue depth fuel chars with
      | none => none
      | some (item, rest) =>
        match skipLines false rest with
        | ',' :: rest => readItems depth fuel (item :: done) rest
        | ']' :: rest => some ((item :: done).reverse, rest)
        | _ => none

/-- The entries of a table in braces, up to and including the closing brace. -/
def readEntries (depth : Nat) : (fuel : Nat) → Table → Scan Value
  | 0, _, _ => none
  | fuel + 1, table, chars =>
    match readKey chars with
    | some ((path, key), '=' :: rest) =>
      match readValue depth fuel (skipBlanks rest) with
      | none => none
      | some (value, rest) =>
        match table.define path key value with
        | none => none
        | some table =>
          match skipBlanks rest with
          | ',' :: rest => readEntries depth fuel table rest
          | '\x7d' :: rest => some (.table table.1 table.2, rest)
          | _ => none
    | _ => none

end

def readHeader (d : Draft) : Scan Draft
  | '[' :: rest =>
    match readKey rest with
    | some ((path, key), ']' :: ']' :: rest) => (d.openArrayTable path key).map (·, rest)
    | _ => none
  | rest =>
    match readKey rest with
    | some ((path, key), ']' :: rest) => (d.openTable path key).map (·, rest)
    | _ => none

def readEntry (d : Draft) (fuel : Nat) : Scan Draft := fun chars =>
  match readKey chars with
  | some ((path, key), '=' :: rest) => do
    let (value, rest) ← readValue 0 fuel (skipBlanks rest)
    return (← d.define path key value, rest)
  | _ => none

/-- What one line adds to the document. -/
def readLine (d : Draft) (fuel : Nat) : Scan Draft := fun chars =>
  match skipBlanks chars with
  | '[' :: rest => readHeader d rest
  | [] => some (d, [])
  | '#' :: rest => some (d, '#' :: rest)
  | '\n' :: rest => some (d, '\n' :: rest)
  | '\r' :: rest => some (d, '\r' :: rest)
  | rest => readEntry d fuel rest

/-- Reads the lines of a document. Each takes a character at least, which
bounds their number. -/
def readLines (fuel : Nat) : (steps : Nat) → Draft → List Char → Option Draft
  | _, d, [] => some d
  | 0, _, _ :: _ => none
  | steps + 1, d, chars => do
    let (d, rest) ← readLine d fuel chars
    readLines fuel steps d (← finishLine? rest)

/-- The entries of the table that a document consists of. A byte order mark at
its beginning does not count. -/
def parse? (text : String) : Option (List (String × Value)) := do
  let chars := match text.toList with
    | '\uFEFF' :: rest => rest
    | chars => chars
  let d ← readLines (2 * chars.length + 2) (chars.length + 1) .start chars
  return (← d.close).2

end TerrainMap.Toml
