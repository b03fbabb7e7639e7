/-!
Block names. A name may be written with the vanilla namespace in front, and
both spellings name the same block; all other namespaces are part of the name.
-/

namespace TerrainMap.Block

/-- The block that fills every position nothing was written to. -/
def air : String := "air"

/-- The namespace that may be left out. -/
def vanillaNamespace : String := "minecraft:"

/-- Removes one leading vanilla namespace. -/
def normalize (name : String) : String :=
  match vanillaNamespace.toList.isPrefixOf? name.toList with
  | some rest => String.ofList rest
  | none => name

def airNames : List String := ["air", "cave_air", "void_air"]

/-- Every spelling of a kind of air. The list is spelled out in advance because
column scans ask about far more blocks than they keep. -/
def transparentNames : List String :=
  airNames ++ airNames.map (vanillaNamespace ++ ·)

/-- A transparent block is looked through from above. -/
def isTransparent (name : String) : Bool :=
  transparentNames.contains name

example : isTransparent "minecraft:void_air" = true := by decide
example : isTransparent "minecraft:minecraft:air" = false := by decide
example : normalize "minecraft:stone" = "stone" := by decide
example : normalize "create:cogwheel" = "create:cogwheel" := by decide

end TerrainMap.Block
