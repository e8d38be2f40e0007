import PageCache.Bytes

namespace PageCache

-- A run of file bytes: `data` stands at `offset` in the file.
structure Segment where
  offset : Nat
  data : Bytes
  deriving DecidableEq

-- What a read returns: one segment for each page it took bytes from, in file order.
structure Reply where
  segments : List Segment := []
  deriving DecidableEq

namespace Reply

def bytes (reply : Reply) : Bytes := (reply.segments.map (·.data)).flatten

def length (reply : Reply) : Nat := Bytes.totalLength (reply.segments.map (·.data))

def isEmpty (reply : Reply) : Bool := reply.length == 0

theorem length_bytes (reply : Reply) : reply.bytes.length = reply.length :=
  Bytes.length_flatten _

end Reply

end PageCache
