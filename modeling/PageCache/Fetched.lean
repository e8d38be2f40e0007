import PageCache.Bytes
import PageCache.Error

namespace PageCache

-- What storage says of a file, compared to tell whether cached pages are stale.
-- The modification time is in nanoseconds since the epoch.
structure Attributes where
  size : Nat
  mtime : Int
  deriving DecidableEq

-- The answer to a successful read of storage: the bytes, in any number of pieces,
-- and the attributes of the file at that time.
structure Fetched where
  segments : List Bytes
  attributes : Attributes
  deriving DecidableEq

-- What becomes of one fetch: the contents of its page, or an error.
abbrev Outcome := Except Error (Bytes × Attributes)

namespace Fetched

def bytes (fetched : Fetched) : Bytes := fetched.segments.flatten

def length (fetched : Fetched) : Nat := Bytes.totalLength fetched.segments

def isEmpty (fetched : Fetched) : Bool := fetched.length == 0

-- The pieces in one buffer. A single piece is not copied but becomes the buffer.
def buffer (fetched : Fetched) : Bytes :=
  match fetched.segments with
  | [] => []
  | [segment] => segment
  | segments => segments.flatten

-- The pieces joined into the contents of one page. Storage may answer with less
-- than a page, at the end of the file, but never with more.
def toPage (fetched : Fetched) (pageSize : Nat) : Outcome :=
  if fetched.length ≤ pageSize then .ok (fetched.buffer, fetched.attributes)
  else .error (.malformedRead pageSize fetched.length)

theorem buffer_eq_bytes (fetched : Fetched) : fetched.buffer = fetched.bytes := by
  obtain ⟨segments, attributes⟩ := fetched
  cases segments with
  | nil => rfl
  | cons segment rest =>
      cases rest with
      | nil => exact (List.append_nil segment).symm
      | cons => rfl

theorem length_bytes (fetched : Fetched) : fetched.bytes.length = fetched.length :=
  Bytes.length_flatten fetched.segments

end Fetched

end PageCache
