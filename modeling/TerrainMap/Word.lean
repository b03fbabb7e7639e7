/-!
Machine words. Sizes and positions are words of 64 bits, coordinates are signed
words of 32 bits, and sums and products wrap around at the end of the range. A
program that watches for overflow breaks off where they would wrap around, so
what is stated of numbers that stay in range holds with and without the watch.
-/

namespace TerrainMap.Word

/-- How many words there are. -/
def count : Nat := 18446744073709551616

def wrap (n : Nat) : Nat := n % count

def add (a b : Nat) : Nat := wrap (a + b)

def mul (a b : Nat) : Nat := wrap (a * b)

/-- Reads a number as a signed word of 32 bits: only its low bits count. -/
def signed (n : Int) : Int := n.bmod 4294967296

end TerrainMap.Word
