/-!
Decimal notation of whole numbers, written and read over lists of characters.
Writing uses no leading zeros and a minus sign only; reading also accepts
leading zeros and a plus sign.
-/

namespace TerrainMap.Decimal

def digitChar (d : Nat) : Char := Char.ofNat (48 + d)

/-- The value of a digit, for ASCII digits alone. -/
def digitValue? (c : Char) : Option Nat :=
  if 48 ≤ c.toNat ∧ c.toNat ≤ 57 then some (c.toNat - 48) else none

/-- The digits of a number, most significant first. -/
def digits (n : Nat) : List Char :=
  if n < 10 then [digitChar n] else digits (n / 10) ++ [digitChar (n % 10)]

/-- The digits of a number behind a minus sign where it is negative. -/
def signedDigits : Int → List Char
  | .ofNat n => digits n
  | .negSucc n => '-' :: digits (n + 1)

def ofNat (n : Nat) : String := String.ofList (digits n)

def ofInt (n : Int) : String := String.ofList (signedDigits n)

/-- Continues a number whose leading digits are worth `value`. -/
def readFrom (value : Nat) : List Char → Option Nat
  | [] => some value
  | c :: rest =>
    match digitValue? c with
    | some d => readFrom (10 * value + d) rest
    | none => none

def readNat? : List Char → Option Nat
  | [] => none
  | c :: rest => readFrom 0 (c :: rest)

/-- Reads digits behind at most one plus sign. -/
def readUnsigned? : List Char → Option Nat
  | '+' :: rest => readNat? rest
  | chars => readNat? chars

/-- Reads digits behind at most one sign of either kind. -/
def readSigned? : List Char → Option Int
  | '-' :: rest => (readNat? rest).map fun n => -(n : Int)
  | '+' :: rest => (readNat? rest).map Int.ofNat
  | chars => (readNat? chars).map Int.ofNat

def inInt32 (n : Int) : Bool := decide (-2147483648 ≤ n ∧ n ≤ 2147483647)

def readInt32? (chars : List Char) : Option Int :=
  (readSigned? chars).filter inInt32

def readUInt64? (chars : List Char) : Option Nat :=
  (readUnsigned? chars).filter (· < 18446744073709551616)

end TerrainMap.Decimal
