import PageCache.Assoc
import PageCache.Backend
import PageCache.Gates

namespace PageCache

-- No buffer has as many bytes as this, half the number of words.
def bufferLimit : Nat := 9223372036854775808

-- A file of a memory backend.
structure StoredFile where
  data : Bytes
  attributes : Attributes
  fits : data.length < bufferLimit

-- Storage that holds its files in memory. Reads can be made to fail or to wait at a
-- gate, each for its file and exact offset. `reads` lists those started, the latest
-- first, and `overflowed` is set when a count passes 64 bits.
structure Memory where
  files : Assoc FileId StoredFile := {}
  version : Nat := 0
  reads : List (FileId × Nat) := []
  failures : Assoc (FileId × Nat) Nat := {}
  holds : Assoc (FileId × Nat) GateId := {}
  segmentSize : Option Nat := none
  overread : Nat := 0
  overflowed : Bool := false

namespace Memory

-- Creates or replaces a file. Each time the clock goes on by one second.
def insert (memory : Memory) (file : FileId) (data : Bytes) : Memory :=
  if fits : data.length < bufferLimit then
    let version := memory.version + 1
    { memory with
      version := version
      files := memory.files.set file ⟨data, ⟨data.length, version * 1000000000⟩, fits⟩ }
  else { memory with overflowed := true }

def attributes? (memory : Memory) (file : FileId) : Option Attributes :=
  (memory.files.get? file).map (·.attributes)

-- The bytes at `[offset, offset + length)`. The start is cut off at the end of the data, and so
-- is the stop, which before is no more than the largest word.
def window (data : Bytes) (offset length : Nat) : Bytes :=
  let start := min offset data.length
  data.slice start (min (addSat start length) data.length)

-- The bytes of a file at a place, cut off at its end.
def contents (memory : Memory) (file : FileId) (offset length : Nat) : Bytes :=
  match memory.files.get? file with
  | none => []
  | some stored => window stored.data offset length

def readsOf (memory : Memory) (file : FileId) (offset : Nat) : Nat :=
  memory.reads.count (file, offset)

def totalReads (memory : Memory) : Nat := memory.reads.length

-- How many reads of the place are still to fail.
def failuresOf (memory : Memory) (file : FileId) (offset : Nat) : Nat :=
  (memory.failures.get? (file, offset)).getD 0

-- Lets the next reads of the place fail, `times` more of them.
def fail (memory : Memory) (file : FileId) (offset times : Nat) : Memory :=
  let pending := memory.failuresOf file offset + times
  if pending < wordLimit then
    { memory with failures := memory.failures.set (file, offset) pending }
  else { memory with overflowed := true }

-- Lets the next read of the place wait at a gate. It replaces a gate set before.
def hold (memory : Memory) (file : FileId) (offset : Nat) (gate : GateId) : Memory :=
  { memory with holds := memory.holds.set (file, offset) gate }

-- A read comes in: it is counted, and takes the gate of its place.
def arrive (memory : Memory) (call : Call) : Memory × Option GateId :=
  ({ memory with
      reads := (call.file, call.offset) :: memory.reads
      holds := memory.holds.erase (call.file, call.offset) },
    memory.holds.get? (call.file, call.offset))

-- Cuts data into pieces of `size` bytes, the last one perhaps shorter.
def pieces (size : Nat) : Bytes → List Bytes
  | [] => []
  | first :: rest => (first :: rest.take (size - 1)) :: pieces size (rest.drop (size - 1))
termination_by data => data.length
decreasing_by simp only [List.length_drop, List.length_cons]; omega

-- Data as a list of segments, none of them empty.
def segments (segmentSize : Option Nat) (data : Bytes) : List Bytes :=
  match segmentSize with
  | some (size + 1) => pieces (size + 1) data
  | _ => if data.isEmpty then [] else [data]

-- A read past its gate is answered, with an injected failure if any is left. A length
-- past 64 bits has no answer: the error only stands in for one.
def answer (memory : Memory) (call : Call) : Memory × Except Error Fetched :=
  let pending := memory.failuresOf call.file call.offset
  if 0 < pending then
    ({ memory with failures := memory.failures.set (call.file, call.offset) (pending - 1) },
      .error (.readFailed ⟨.other, some "injected failure"⟩))
  else
    match memory.files.get? call.file with
    | none => (memory, .error (.readFailed ⟨.notFound, none⟩))
    | some stored =>
        let length := call.length + memory.overread
        if length < wordLimit then
          (memory, .ok ⟨segments memory.segmentSize (window stored.data call.offset length),
            stored.attributes⟩)
        else ({ memory with overflowed := true }, .error .canceled)

-- Memory with the gates that its reads may wait at.
def backend : Backend (Gates × Memory) (Option GateId) where
  start state call :=
    let arrived := state.2.arrive call
    ((state.1, arrived.1), arrived.2)
  poll state call gate :=
    if state.1.passes gate then
      let answered := state.2.answer call
      ((state.1, answered.1), .finished answered.2)
    else (state, .waiting gate)

-- No sum of words is cut off before the end of the data.
theorem window_eq {data : Bytes} (fits : data.length < bufferLimit) (offset length : Nat) :
    window data offset length = data.slice offset (offset + length) := by
  simp only [window, Bytes.slice]
  rcases Nat.le_total offset data.length with hle | hle
  · have hstop : min (min (addSat offset length) data.length) data.length =
        min (offset + length) data.length := by
      unfold addSat wordLimit
      unfold bufferLimit at fits
      omega
    rw [Nat.min_eq_left hle, List.take_eq_take_iff.mpr hstop]
  · rw [Nat.min_eq_right hle, List.drop_eq_nil_of_le (List.length_take_le' ..),
      List.drop_eq_nil_of_le (Nat.le_trans (List.length_take_le' ..) hle)]

theorem flatten_pieces (size : Nat) (data : Bytes) : (pieces size data).flatten = data := by
  fun_induction pieces size data with
  | case1 => rfl
  | case2 first rest ih => simp [ih]

end Memory

end PageCache
