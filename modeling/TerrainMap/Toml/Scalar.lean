import TerrainMap.Decimal
import TerrainMap.Toml.Value

/-!
Scalars of configuration documents that are written without quotes: truth
values, whole and floating numbers, dates and times. Each is a run of
characters that must match one of the forms as a whole.
-/

namespace TerrainMap.Toml

/-- The value of a digit in a base up to sixteen. -/
def digitInBase? (base : Nat) (c : Char) : Option Nat :=
  let value? :=
    if '0' ≤ c ∧ c ≤ '9' then some (c.toNat - '0'.toNat)
    else if 'a' ≤ c ∧ c ≤ 'f' then some (c.toNat - 'a'.toNat + 10)
    else if 'A' ≤ c ∧ c ≤ 'F' then some (c.toNat - 'A'.toNat + 10)
    else none
  value?.filter (· < base)

/-- Continues a number worth `value`. Between two digits there may be one
underscore. -/
def moreDigits (base value : Nat) : List Char → Option Nat
  | [] => some value
  | '_' :: c :: rest =>
    match digitInBase? base c with
    | some d => moreDigits base (value * base + d) rest
    | none => none
  | c :: rest =>
    match digitInBase? base c with
    | some d => moreDigits base (value * base + d) rest
    | none => none

/-- One or more digits with single underscores between them. -/
def digitRun? (base : Nat) : List Char → Option Nat
  | [] => none
  | c :: rest => (digitInBase? base c).bind fun d => moreDigits base d rest

/-- A decimal number without needless zeros in front. -/
def plainNat? (chars : List Char) : Option Nat :=
  match chars with
  | '0' :: _ :: _ => none
  | _ => digitRun? 10 chars

def splitSign : List Char → Bool × List Char
  | '-' :: rest => (true, rest)
  | '+' :: rest => (false, rest)
  | chars => (false, chars)

/-- A whole number, which must fit into 64 bits. -/
def integer? (chars : List Char) : Option Int := do
  let value ← match chars with
    | '0' :: 'x' :: rest => (digitRun? 16 rest).map Int.ofNat
    | '0' :: 'o' :: rest => (digitRun? 8 rest).map Int.ofNat
    | '0' :: 'b' :: rest => (digitRun? 2 rest).map Int.ofNat
    | _ =>
      match splitSign chars with
      | (negative, rest) =>
        (plainNat? rest).map fun n => if negative then -(n : Int) else n
  if -9223372036854775808 ≤ value ∧ value ≤ 9223372036854775807 then some value else none

/-- Whether the number `mantissa · 10 ^ exponent` is finite as a double: below
the midpoint between the greatest double and the next power of two. -/
def isFinite (mantissa : Nat) (exponent : Int) : Bool :=
  let bound := ((1 <<< 54) - 1) <<< 970
  if mantissa = 0 then true
  else match exponent with
    | .ofNat e => e < 400 && mantissa * Nat.pow 10 e < bound
    | .negSucc e =>
      let digits := (Nat.toDigits 10 mantissa).length
      digits < e + 300 || mantissa < bound * Nat.pow 10 (e + 1)

def withoutUnderscores (chars : List Char) : List Char := chars.filter (· != '_')

/-- A floating number: a whole part, and a fraction or an exponent or both. It
may lie below the range of a double, but not above it. -/
def isFloat (chars : List Char) : Bool :=
  let (negative, body) := splitSign chars
  if body = ['i', 'n', 'f'] ∨ body = ['n', 'a', 'n'] then true
  else
    let isMark := fun c : Char => c == 'e' || c == 'E'
    let mantissa := body.takeWhile fun c => !isMark c
    let exponentPart := body.dropWhile fun c => !isMark c
    let whole := mantissa.takeWhile (· != '.')
    let fractionPart := mantissa.dropWhile (· != '.')
    let fraction := fractionPart.drop 1
    let exponentBody := splitSign (exponentPart.drop 1)
    let wellFormed := (plainNat? whole).isSome
      && (fractionPart.isEmpty || (digitRun? 10 fraction).isSome)
      && (exponentPart.isEmpty || (digitRun? 10 exponentBody.2).isSome)
      && !(fractionPart.isEmpty && exponentPart.isEmpty)
    let digits := withoutUnderscores (whole ++ fraction)
    let scale := (Decimal.readNat? (withoutUnderscores exponentBody.2)).getD 0
    let exponent : Int := (if exponentBody.1 then -(scale : Int) else scale)
      - (withoutUnderscores fraction).length
    wellFormed && (negative || isFinite ((Decimal.readNat? digits).getD 0) exponent)

def fixedNat? (chars : List Char) (width : Nat) : Option Nat :=
  if chars.length = width then Decimal.readNat? chars else none

def daysInMonth (year month : Nat) : Nat :=
  if month = 2 then
    if year % 4 = 0 ∧ (year % 100 ≠ 0 ∨ year % 400 = 0) then 29 else 28
  else if month = 4 ∨ month = 6 ∨ month = 9 ∨ month = 11 then 30
  else 31

/-- A date of the form `yyyy-mm-dd`. -/
def isDate (chars : List Char) : Bool :=
  match chars.splitOn '-' with
  | [y, m, d] =>
    match fixedNat? y 4, fixedNat? m 2, fixedNat? d 2 with
    | some year, some month, some day =>
      1 ≤ month && month ≤ 12 && 1 ≤ day && day ≤ daysInMonth year month
    | _, _, _ => false
  | _ => false

def boundedPair (chars : List Char) (bound : Nat) : Bool :=
  match fixedNat? chars 2 with
  | some n => n ≤ bound
  | none => false

/-- Seconds with or without a fraction. A leap second may be the sixtieth. -/
def isSeconds (chars : List Char) : Bool :=
  boundedPair (chars.takeWhile (· != '.')) 60
    && match chars.dropWhile (· != '.') with
      | [] => true
      | _ :: fraction => (Decimal.readNat? fraction).isSome

/-- A time of the form `hh:mm:ss`. -/
def isTime (chars : List Char) : Bool :=
  match chars.splitOn ':' with
  | [h, m, s] => boundedPair h 23 && boundedPair m 59 && isSeconds s
  | _ => false

/-- A time that may be followed by its distance from universal time. -/
def isTimeWithOffset (chars : List Char) : Bool :=
  if chars.getLast? = some 'Z' ∨ chars.getLast? = some 'z' then isTime chars.dropLast
  else
    let isSign := fun c : Char => c == '+' || c == '-'
    match chars.dropWhile fun c => !isSign c with
    | [] => isTime chars
    | _ :: offset =>
      isTime (chars.takeWhile fun c => !isSign c)
        && match offset.splitOn ':' with
          | [h, m] => boundedPair h 23 && boundedPair m 59
          | _ => false

/-- A date, a time, or both with one of the letters between them that may
separate them; a blank does too. -/
def isDateTime (chars : List Char) : Bool :=
  if chars.contains ':' then
    if (chars.drop 2).head? = some ':' then isTime chars
    else isDate (chars.take 10)
      && ['T', 't', ' '].contains ((chars.drop 10).headD 'x') && isTimeWithOffset (chars.drop 11)
  else isDate chars

/-- The value of a run of characters. -/
def scalar? (chars : List Char) : Option Value :=
  let text := String.ofList chars
  if text = "true" then some (.boolean true)
  else if text = "false" then some (.boolean false)
  else match integer? chars with
    | some value => some (.integer value)
    | none =>
      if isFloat chars then some (.float text)
      else if isDateTime chars then some (.datetime text)
      else none

end TerrainMap.Toml
