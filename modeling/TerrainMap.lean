import TerrainMap.Block
import TerrainMap.Chunk.PackedIndices
import TerrainMap.Chunk.Painted
import TerrainMap.Chunk.Record
import TerrainMap.Chunk.Stored
import TerrainMap.Chunk.View
import TerrainMap.Color
import TerrainMap.Column
import TerrainMap.CommandLine
import TerrainMap.Compression.Bits
import TerrainMap.Compression.Checksum
import TerrainMap.Compression.Gzip
import TerrainMap.Compression.Huffman
import TerrainMap.Compression.Inflate
import TerrainMap.Compression.Store
import TerrainMap.Compression.Zlib
import TerrainMap.Config
import TerrainMap.Decimal
import TerrainMap.Discovery
import TerrainMap.FileTree
import TerrainMap.Halt
import TerrainMap.Host
import TerrainMap.Job
import TerrainMap.Log
import TerrainMap.Main
import TerrainMap.MapRun
import TerrainMap.Nbt.Reader
import TerrainMap.Nbt.Record
import TerrainMap.Nbt.Text
import TerrainMap.Palette
import TerrainMap.Palette.Builtin
import TerrainMap.Palette.File
import TerrainMap.Path
import TerrainMap.Png
import TerrainMap.Program
import TerrainMap.Quadrant
import TerrainMap.Raster
import TerrainMap.Region.Coord
import TerrainMap.Region.File
import TerrainMap.Region.FileName
import TerrainMap.RegionRange
import TerrainMap.Request
import TerrainMap.Row
import TerrainMap.Scheduler
import TerrainMap.Settings
import TerrainMap.Sink
import TerrainMap.Summary
import TerrainMap.Tile
import TerrainMap.Toml.Parser
import TerrainMap.Toml.Scalar
import TerrainMap.Toml.Value
import TerrainMap.Word
import TerrainMap.World.Memory
import TerrainMap.World.Saved
import TerrainMap.World.Store
import TerrainMap.Proofs.Block
import TerrainMap.Proofs.ByteOrder
import TerrainMap.Proofs.Chunk.Bits
import TerrainMap.Proofs.Chunk.Decoding
import TerrainMap.Proofs.Chunk.Encoding
import TerrainMap.Proofs.Chunk.Fields
import TerrainMap.Proofs.Chunk.LastWrite
import TerrainMap.Proofs.Chunk.Meaning
import TerrainMap.Proofs.Chunk.Naming
import TerrainMap.Proofs.Chunk.Packing
import TerrainMap.Proofs.Chunk.Reading
import TerrainMap.Proofs.Chunk.Repacking
import TerrainMap.Proofs.Chunk.Sections
import TerrainMap.Proofs.Chunk.Surface
import TerrainMap.Proofs.Chunk.Unpacking
import TerrainMap.Proofs.Chunk.WordReads
import TerrainMap.Proofs.Chunk.Written
import TerrainMap.Proofs.Column
import TerrainMap.Proofs.Decimal
import TerrainMap.Proofs.Decimal.Numeral
import TerrainMap.Proofs.DirectoryEffects
import TerrainMap.Proofs.DirectoryRun
import TerrainMap.Proofs.Discovery
import TerrainMap.Proofs.Discovery.Listing
import TerrainMap.Proofs.FileTree
import TerrainMap.Proofs.FileTree.Alike
import TerrainMap.Proofs.FileTree.Filling
import TerrainMap.Proofs.FileTree.Growth
import TerrainMap.Proofs.Nbt.Reading
import TerrainMap.Proofs.Nbt.Writing
import TerrainMap.Proofs.Palette
import TerrainMap.Proofs.Palette.UserFile
import TerrainMap.Proofs.Path
import TerrainMap.Proofs.Path.FileName
import TerrainMap.Proofs.Quadrant
import TerrainMap.Proofs.Raster.Blit
import TerrainMap.Proofs.Raster.Picture
import TerrainMap.Proofs.Raster.Strokes
import TerrainMap.Proofs.Region.FileName
import TerrainMap.Proofs.Region.Grammar
import TerrainMap.Proofs.RegionRange
import TerrainMap.Proofs.RegionRange.Bounds
import TerrainMap.Proofs.Row
import TerrainMap.Proofs.Row.Shading
import TerrainMap.Proofs.Scheduler.Alone
import TerrainMap.Proofs.Scheduler.AnyOrder
import TerrainMap.Proofs.Scheduler.Balance
import TerrainMap.Proofs.Scheduler.Calls
import TerrainMap.Proofs.Scheduler.Drawing
import TerrainMap.Proofs.Scheduler.Floor
import TerrainMap.Proofs.Scheduler.Jobs
import TerrainMap.Proofs.Scheduler.Serial
import TerrainMap.Proofs.Scheduler.TilePaths
import TerrainMap.Proofs.Sink
import TerrainMap.Proofs.StoredNames
import TerrainMap.Proofs.Summary
import TerrainMap.Proofs.Tile.Accounting
import TerrainMap.Proofs.Tile.BlankPixels
import TerrainMap.Proofs.Tile.Coordinate
import TerrainMap.Proofs.Tile.Events
import TerrainMap.Proofs.Tile.Failing
import TerrainMap.Proofs.Tile.Kept
import TerrainMap.Proofs.Tile.PixelLaw
import TerrainMap.Proofs.Tile.PixelWrites
import TerrainMap.Proofs.Tile.Quadrants
import TerrainMap.Proofs.Tile.Render
import TerrainMap.Proofs.Tile.Report
import TerrainMap.Proofs.Tile.Size
import TerrainMap.Proofs.Toml.Keys
import TerrainMap.Proofs.World.Atlas
import TerrainMap.Proofs.World.Memory
import TerrainMap.Proofs.World.Saved
import TerrainMap.Proofs.World.Sharing
import TerrainMap.Proofs.World.SingleFile
import TerrainMap.Proofs.World.Slots
import TerrainMap.Proofs.World.Snapshots
import TerrainMap.Proofs.World.Tiles
import TerrainMap.Proofs.Word
