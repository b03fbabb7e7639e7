/-!
Text inside binary tags. Bytes that are valid UTF-8 as a whole are taken as
they are. All others must follow the modified form: NUL is two bytes long, and
a character beyond the basic plane is a pair of surrogates of three bytes
each.
-/

namespace TerrainMap.Nbt

/-- The six low bits of a continuation byte. -/
def continuation? (b : UInt8) : Option Nat :=
  if 0x80 ≤ b ∧ b ≤ 0xBF then some (b.toNat - 0x80) else none

/-- Whether `a`, `b` may begin a form of three bytes that stands for one
character by itself: neither too long a form nor a surrogate. -/
def beginsTriple (a b : UInt8) : Bool :=
  (a == 0xE0 && 0xA0 ≤ b && b ≤ 0xBF) || (0xE1 ≤ a && a ≤ 0xEC)
    || (a == 0xED && b ≤ 0x9F) || (0xEE ≤ a && a ≤ 0xEF)

def readModified : List UInt8 → Option (List Char)
  | [] => some []
  | a :: rest =>
    if a = 0 then none
    else if a < 0x80 then (readModified rest).map (Char.ofNat a.toNat :: ·)
    else match rest with
      | [] => none
      | b :: rest =>
        if a = 0xC0 then
          if b = 0x80 then (readModified rest).map (Char.ofNat 0 :: ·) else none
        else match continuation? b with
          | none => none
          | some b6 =>
            if 0xC2 ≤ a ∧ a ≤ 0xDF then
              (readModified rest).map (Char.ofNat ((a.toNat - 0xC0) * 64 + b6) :: ·)
            else match rest with
              | [] => none
              | c :: rest =>
                match continuation? c with
                | none => none
                | some c6 =>
                  if beginsTriple a b then
                    (readModified rest).map
                      (Char.ofNat ((a.toNat - 0xE0) * 4096 + b6 * 64 + c6) :: ·)
                  else if a = 0xED ∧ b ≤ 0xAF then
                    match rest with
                    | d :: e :: f :: rest =>
                      match continuation? f with
                      | some f6 =>
                        if d = 0xED ∧ 0xB0 ≤ e ∧ e ≤ 0xBF then
                          let high := (b.toNat - 0xA0) * 64 + c6
                          let low := (e.toNat - 0xB0) * 64 + f6
                          (readModified rest).map
                            (Char.ofNat (0x10000 + high * 1024 + low) :: ·)
                        else none
                      | none => none
                    | _ => none
                  else none

/-- Reads the bytes of a text in whichever of the two forms they have. -/
def readText (bytes : List UInt8) : Option String :=
  match String.fromUTF8? bytes.toByteArray with
  | some text => some text
  | none => (readModified bytes).map String.ofList

end TerrainMap.Nbt
