import PageCache.Reply

namespace PageCache

-- A place in a list of chunks, read from the front. Chunks are dropped as they are
-- used up, and `remaining` counts the bytes still to come.
structure Cursor where
  chunks : List Bytes
  remaining : Nat

namespace Cursor

-- Empty chunks are left out.
def ofChunks (chunks : List Bytes) : Cursor :=
  let kept := chunks.filter (!·.isEmpty)
  ⟨kept, Bytes.totalLength kept⟩

def chunk (cursor : Cursor) : Bytes := cursor.chunks.headD []

-- Drops the first `count` bytes of the chunks, or all of them.
def dropBytes : Nat → List Bytes → List Bytes
  | _, [] => []
  | count, chunk :: rest =>
      if count < chunk.length then chunk.drop count :: rest
      else dropBytes (count - chunk.length) rest

-- Copies the first `count` bytes, or all of them.
def takeBytes : Nat → List Bytes → Bytes
  | _, [] => []
  | count, chunk :: rest => chunk.take count ++ takeBytes (count - chunk.length) rest

def skip (cursor : Cursor) (count : Nat) : Cursor :=
  ⟨dropBytes count cursor.chunks, cursor.remaining - count⟩

-- More bytes were asked for than remain.
structure Shortage where
  remaining : Nat
  wanted : Nat
  deriving DecidableEq

def Shortage.message (shortage : Shortage) : String :=
  "advance out of bounds: the len is " ++ toString shortage.remaining ++
    " but advancing by " ++ toString shortage.wanted

-- The next `count` bytes, taken off the front.
def read (cursor : Cursor) (count : Nat) : Except Shortage (Bytes × Cursor) :=
  if count ≤ cursor.remaining then
    .ok (takeBytes count cursor.chunks, cursor.skip count)
  else .error ⟨cursor.remaining, count⟩

inductive Op where
  | remaining
  | hasRemaining
  | chunk
  | skip (count : Nat)
  | take (count : Nat)
  | bigEndian (width : Nat)
  | littleEndian (width : Nat)
  | signedBigEndian (width : Nat)
  | signedLittleEndian (width : Nat)

inductive Value where
  | done
  | number (value : Nat)
  | integer (value : Int)
  | flag (value : Bool)
  | data (value : Bytes)
  deriving DecidableEq

-- The next `count` bytes, decoded.
def decode (cursor : Cursor) (count : Nat) (value : Bytes → Value) :
    Except Shortage (Value × Cursor) :=
  (cursor.read count).map fun (bytes, rest) => (value bytes, rest)

def step (cursor : Cursor) : Op → Except Shortage (Value × Cursor)
  | .remaining => .ok (.number cursor.remaining, cursor)
  | .hasRemaining => .ok (.flag (decide (0 < cursor.remaining)), cursor)
  | .chunk => .ok (.data cursor.chunk, cursor)
  | .skip count => .ok (.done, cursor.skip count)
  | .take count => cursor.decode count .data
  | .bigEndian width => cursor.decode width fun bytes => .number bytes.bigEndian
  | .littleEndian width => cursor.decode width fun bytes => .number bytes.littleEndian
  | .signedBigEndian width =>
      cursor.decode width fun bytes => .integer (bytes.signed bytes.bigEndian)
  | .signedLittleEndian width =>
      cursor.decode width fun bytes => .integer (bytes.signed bytes.littleEndian)

-- The values of a list of operations, each with the cursor it leaves behind.
-- A shortage is the last of them.
def trace (cursor : Cursor) : List Op → List (Except Shortage (Value × Cursor))
  | [] => []
  | op :: ops =>
      match cursor.step op with
      | .error shortage => [.error shortage]
      | .ok (value, rest) => .ok (value, rest) :: rest.trace ops

theorem flatten_dropBytes (count : Nat) (chunks : List Bytes) :
    (dropBytes count chunks).flatten = chunks.flatten.drop count := by
  induction chunks generalizing count with
  | nil => simp [dropBytes]
  | cons chunk rest ih =>
      unfold dropBytes
      split
      · rw [List.flatten_cons, List.flatten_cons, List.drop_append_of_le_length (by omega)]
      · rw [ih, List.flatten_cons, List.drop_append,
          List.drop_eq_nil_of_le (by omega : chunk.length ≤ count), List.nil_append]

theorem takeBytes_eq (count : Nat) (chunks : List Bytes) :
    takeBytes count chunks = chunks.flatten.take count := by
  induction chunks generalizing count with
  | nil => simp [takeBytes]
  | cons chunk rest ih => rw [takeBytes, ih, List.flatten_cons, List.take_append]

end Cursor

-- A cursor over the bytes of the reply.
def Reply.cursor (reply : Reply) : Cursor := Cursor.ofChunks (reply.segments.map (·.data))

end PageCache
