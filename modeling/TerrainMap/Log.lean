/-!
Log lines, in the order in which a run writes them.
-/

namespace TerrainMap

inductive LogLevel where
  | info
  | warn
  | error
  deriving DecidableEq, Repr

def LogLevel.name : LogLevel → String
  | info => "INFO"
  | warn => "WARN"
  | error => "ERROR"

structure LogLine where
  level : LogLevel
  text : String
  deriving DecidableEq, Repr

/-- The line with its level in front. -/
def LogLine.display (line : LogLine) : String := line.level.name ++ " " ++ line.text

end TerrainMap
