/-!
How a computation that delivers nothing comes to an end. Most of them end with
a cause that can be reported to the user. A few break off with nothing to say;
whoever started such a computation decides what its breaking off means.
-/

namespace TerrainMap

/-- The end of a computation that delivers no value. -/
inductive Halt (ε : Type) where
  | failure (cause : ε)
  | crash
  deriving DecidableEq, Repr

namespace Halt

variable {ε δ : Type}

/-- Restates the cause; a crash stays a crash. -/
def mapCause (f : ε → δ) : Halt ε → Halt δ
  | failure cause => failure (f cause)
  | crash => crash

@[simp] theorem mapCause_failure (f : ε → δ) (cause : ε) :
    mapCause f (failure cause) = failure (f cause) := rfl

@[simp] theorem mapCause_crash (f : ε → δ) : mapCause f (crash : Halt ε) = crash := rfl

end Halt

/-- A value, a reported cause, or a crash. -/
abbrev Attempt (ε α : Type) := Except (Halt ε) α

namespace Attempt

variable {ε δ α : Type}

def fail (cause : ε) : Attempt ε α := .error (.failure cause)

def mapCause (f : ε → δ) : Attempt ε α → Attempt δ α
  | .ok value => .ok value
  | .error halt => .error (halt.mapCause f)

end Attempt

end TerrainMap
