import TerrainMap.Palette

/-!
The palette that is used where the user names no other.
-/

namespace TerrainMap.Palette

def builtinColors : List (String × Color) :=
  [("stone", ⟨125, 125, 125⟩),
   ("granite", ⟨153, 114, 99⟩),
   ("polished_granite", ⟨154, 106, 89⟩),
   ("diorite", ⟨188, 188, 188⟩),
   ("polished_diorite", ⟨192, 193, 194⟩),
   ("andesite", ⟨136, 136, 136⟩),
   ("polished_andesite", ⟨132, 134, 133⟩),
   ("deepslate", ⟨80, 80, 82⟩),
   ("cobblestone", ⟨127, 127, 127⟩),
   ("mossy_cobblestone", ⟨110, 118, 94⟩),
   ("bedrock", ⟨85, 85, 85⟩),
   ("tuff", ⟨108, 109, 102⟩),
   ("calcite", ⟨223, 224, 220⟩),
   ("grass_block", ⟨124, 189, 107⟩),
   ("dirt", ⟨134, 96, 67⟩),
   ("coarse_dirt", ⟨119, 85, 59⟩),
   ("rooted_dirt", ⟨144, 103, 76⟩),
   ("podzol", ⟨91, 63, 24⟩),
   ("mycelium", ⟨111, 99, 105⟩),
   ("dirt_path", ⟨148, 122, 65⟩),
   ("farmland", ⟨143, 102, 70⟩),
   ("mud", ⟨60, 57, 60⟩),
   ("clay", ⟨160, 166, 179⟩),
   ("gravel", ⟨131, 127, 126⟩),
   ("sand", ⟨219, 207, 163⟩),
   ("red_sand", ⟨190, 102, 33⟩),
   ("sandstone", ⟨216, 203, 155⟩),
   ("red_sandstone", ⟨186, 99, 29⟩),
   ("water", ⟨63, 118, 228⟩),
   ("lava", ⟨207, 92, 20⟩),
   ("ice", ⟨145, 183, 253⟩),
   ("packed_ice", ⟨141, 180, 250⟩),
   ("blue_ice", ⟨116, 167, 253⟩),
   ("snow", ⟨249, 254, 254⟩),
   ("snow_block", ⟨249, 254, 254⟩),
   ("powder_snow", ⟨248, 253, 253⟩),
   ("obsidian", ⟨15, 10, 24⟩),
   ("coal_ore", ⟨116, 116, 116⟩),
   ("iron_ore", ⟨136, 129, 122⟩),
   ("copper_ore", ⟨124, 125, 120⟩),
   ("gold_ore", ⟨143, 140, 125⟩),
   ("redstone_ore", ⟨133, 107, 107⟩),
   ("lapis_ore", ⟨99, 111, 133⟩),
   ("diamond_ore", ⟨121, 141, 140⟩),
   ("emerald_ore", ⟨117, 136, 124⟩),
   ("oak_log", ⟨109, 85, 50⟩),
   ("spruce_log", ⟨58, 37, 16⟩),
   ("birch_log", ⟨216, 215, 210⟩),
   ("jungle_log", ⟨85, 67, 25⟩),
   ("acacia_log", ⟨103, 96, 86⟩),
   ("dark_oak_log", ⟨60, 46, 26⟩),
   ("mangrove_log", ⟨84, 66, 36⟩),
   ("cherry_log", ⟨54, 33, 44⟩),
   ("oak_leaves", ⟨59, 122, 38⟩),
   ("spruce_leaves", ⟨52, 87, 52⟩),
   ("birch_leaves", ⟨82, 116, 52⟩),
   ("jungle_leaves", ⟨48, 126, 27⟩),
   ("acacia_leaves", ⟨66, 110, 28⟩),
   ("dark_oak_leaves", ⟨44, 105, 28⟩),
   ("mangrove_leaves", ⟨62, 116, 34⟩),
   ("azalea_leaves", ⟨90, 115, 44⟩),
   ("flowering_azalea_leaves", ⟨100, 111, 61⟩),
   ("cherry_leaves", ⟨229, 172, 194⟩),
   ("oak_planks", ⟨162, 130, 78⟩),
   ("spruce_planks", ⟨114, 84, 48⟩),
   ("birch_planks", ⟨192, 175, 121⟩),
   ("jungle_planks", ⟨160, 115, 80⟩),
   ("acacia_planks", ⟨168, 90, 50⟩),
   ("dark_oak_planks", ⟨66, 43, 20⟩),
   ("short_grass", ⟨98, 146, 52⟩),
   ("grass", ⟨98, 146, 52⟩),
   ("tall_grass", ⟨98, 146, 52⟩),
   ("fern", ⟨88, 132, 48⟩),
   ("large_fern", ⟨88, 132, 48⟩),
   ("seagrass", ⟨40, 100, 20⟩),
   ("tall_seagrass", ⟨40, 100, 20⟩),
   ("kelp", ⟨87, 130, 42⟩),
   ("kelp_plant", ⟨87, 130, 42⟩),
   ("lily_pad", ⟨32, 128, 48⟩),
   ("vine", ⟨66, 102, 28⟩),
   ("sugar_cane", ⟨148, 192, 101⟩),
   ("cactus", ⟨85, 127, 43⟩),
   ("pumpkin", ⟨198, 118, 24⟩),
   ("melon", ⟨111, 145, 30⟩),
   ("dandelion", ⟨255, 236, 79⟩),
   ("poppy", ⟨237, 48, 44⟩),
   ("dead_bush", ⟨107, 78, 40⟩),
   ("sweet_berry_bush", ⟨75, 104, 51⟩),
   ("moss_block", ⟨89, 109, 45⟩),
   ("moss_carpet", ⟨89, 109, 45⟩),
   ("brown_mushroom_block", ⟨149, 111, 81⟩),
   ("red_mushroom_block", ⟨200, 46, 45⟩),
   ("mushroom_stem", ⟨203, 196, 185⟩),
   ("bricks", ⟨150, 97, 83⟩),
   ("stone_bricks", ⟨122, 121, 122⟩),
   ("glass", ⟨175, 213, 219⟩),
   ("terracotta", ⟨152, 94, 67⟩),
   ("white_terracotta", ⟨209, 178, 161⟩),
   ("orange_terracotta", ⟨161, 83, 37⟩),
   ("yellow_terracotta", ⟨186, 133, 35⟩),
   ("red_terracotta", ⟨143, 61, 46⟩),
   ("brown_terracotta", ⟨77, 51, 35⟩),
   ("light_gray_terracotta", ⟨135, 106, 97⟩),
   ("white_wool", ⟨233, 236, 236⟩),
   ("magma_block", ⟨142, 63, 31⟩),
   ("netherrack", ⟨97, 38, 38⟩),
   ("soul_sand", ⟨81, 62, 50⟩),
   ("end_stone", ⟨219, 222, 158⟩),
   ("bubble_column", ⟨63, 118, 228⟩),
   ("torch", ⟨255, 214, 112⟩),
   ("rail", ⟨125, 111, 88⟩)]

def builtin : Palette := ofList builtinColors

end TerrainMap.Palette
