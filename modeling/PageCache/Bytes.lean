namespace PageCache

-- Files are named by number.
abbrev FileId := Nat

-- The bytes of a file, or a run of them.
abbrev Bytes := List UInt8

-- Offsets, lengths and counts are 64-bit words. They are kept as natural numbers,
-- and `wordLimit`, two to the 64, is the first number that is not one.
def wordLimit : Nat := 18446744073709551616

-- Addition that stops at the largest word.
def addSat (a b : Nat) : Nat := min (a + b) (wordLimit - 1)

namespace Bytes

-- The bytes at positions `[start, stop)`, cut off at the end of the data.
def slice (data : Bytes) (start stop : Nat) : Bytes := (data.take stop).drop start

-- How many bytes the chunks hold together.
def totalLength : List Bytes → Nat
  | [] => 0
  | chunk :: rest => chunk.length + totalLength rest

-- The number whose digits to base 256 are the bytes, least significant first.
def littleEndian : Bytes → Nat
  | [] => 0
  | byte :: rest => byte.toNat + 256 * littleEndian rest

def bigEndian (data : Bytes) : Nat := littleEndian data.reverse

-- What a number held in these bytes stands for if it is of either sign: the upper half of the
-- numbers are the negative ones.
def signed (data : Bytes) (number : Nat) : Int :=
  let size := Nat.pow 256 data.length
  if 2 * number < size then number else number - size

end Bytes

theorem Bytes.length_flatten (chunks : List Bytes) :
    chunks.flatten.length = Bytes.totalLength chunks := by
  induction chunks with
  | nil => rfl
  | cons chunk rest ih => rw [List.flatten_cons, List.length_append, ih, Bytes.totalLength]

theorem Bytes.length_slice (data : Bytes) (start stop : Nat) :
    (data.slice start stop).length = min stop data.length - start := by
  simp [Bytes.slice]

end PageCache
