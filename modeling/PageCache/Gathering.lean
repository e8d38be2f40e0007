import PageCache.Error
import PageCache.Reply

namespace PageCache

-- Reads are numbered in the order in which they start.
abbrev ReadId := Nat

-- The bytes of `[offset, stop)` while pages come in, in any order. `awaited` counts
-- the pages still to come, and one more until all of them have been looked up.
structure Gathering where
  offset : Nat
  stop : Nat
  segments : List Segment := []
  awaited : Nat := 1
  error : Option Error := none
  result : Option (Except Error Reply) := none

namespace Gathering

-- One more page is to come.
def await (gathering : Gathering) : Gathering :=
  { gathering with awaited := gathering.awaited + 1 }

-- The part of a page inside the range. The page that ends the 64-bit offsets is
-- counted to the last of them, past which no range reaches.
def overlap (gathering : Gathering) (page : Nat) (data : Bytes) : Option Segment :=
  let start := max gathering.offset page
  let stop := min gathering.stop (addSat page data.length)
  if start < stop then some ⟨start, data.slice (start - page) (stop - page)⟩ else none

-- Whether that part, if there is one, starts and ends past the start of the page.
def sliceStarts (gathering : Gathering) (page : Nat) (data : Bytes) : Bool :=
  let start := max gathering.offset page
  let stop := min gathering.stop (addSat page data.length)
  stop ≤ start || page ≤ start && page ≤ stop

-- Whether it lies within the bytes of the page.
def sliceFits (gathering : Gathering) (page : Nat) (data : Bytes) : Bool :=
  let start := max gathering.offset page
  let stop := min gathering.stop (addSat page data.length)
  stop ≤ start || stop - page ≤ data.length

-- Puts a segment in its place in file order. It replaces one at the same offset.
def place (segment : Segment) : List Segment → List Segment
  | [] => [segment]
  | first :: rest =>
      if segment.offset < first.offset then segment :: first :: rest
      else if segment.offset = first.offset then segment :: rest
      else first :: place segment rest

-- Adds what a page has of the range. After an error nothing is added.
def add (gathering : Gathering) (page : Nat) (data : Bytes) : Gathering :=
  match gathering.error, gathering.overlap page data with
  | none, some segment => { gathering with segments := place segment gathering.segments }
  | _, _ => gathering

-- Only the first error counts.
def spoil (gathering : Gathering) (error : Error) : Gathering :=
  match gathering.error with
  | some _ => gathering
  | none => { gathering with error := some error, segments := [] }

-- The segments that follow each other without a gap, from `next` on. A short page
-- ends the file, so what comes after a gap is no part of the reply.
def contiguous (next : Nat) : List Segment → List Segment
  | [] => []
  | segment :: rest =>
      if segment.offset = next then segment :: contiguous (next + segment.data.length) rest
      else []

def reply (gathering : Gathering) : Reply := ⟨contiguous gathering.offset gathering.segments⟩

def outcome (gathering : Gathering) : Except Error Reply :=
  match gathering.error with
  | some error => .error error
  | none => .ok gathering.reply

-- Whether the end of the reply, if it is due next, is a 64-bit offset.
def replyFits (gathering : Gathering) : Bool :=
  gathering.awaited != 1 || gathering.error.isSome ||
    gathering.offset + gathering.reply.length < wordLimit

-- One page less is to come. The last one makes the result, once.
def arrive (gathering : Gathering) : Gathering :=
  let rest := { gathering with awaited := gathering.awaited - 1 }
  if rest.awaited = 0 ∧ rest.result.isNone then { rest with result := some rest.outcome }
  else rest

end Gathering

end PageCache
