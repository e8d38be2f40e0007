import PageCache.Backend
import PageCache.Counters
import PageCache.Span

namespace PageCache

-- The right of a read to work on the cached pages of a file.
structure Lease where
  file : FileId
  serial : Nat
  deriving DecidableEq

-- A fetch does nothing until a read that waits for it is polled. Once it is complete
-- it keeps its outcome for the reads that have yet to see it.
inductive Phase (τ : Type) where
  | idle
  | running (token : τ)
  | complete (outcome : Outcome)

structure Fetch (τ : Type) where
  call : Call
  phase : Phase τ

-- A read's interest in the fetch of a page.
structure Wait where
  page : Nat
  fetch : FetchId
  deriving DecidableEq

-- A read in progress, with the fetches whose outcome it has not seen, in file order.
structure LiveRead where
  id : ReadId
  lease : Lease
  waits : List Wait := []
  deriving DecidableEq

-- The pages of all files of one mount, with the fetches and the reads that have come
-- up so far. `pagesUsed` counts the pages, and the journal has the latest event first.
structure Pool (τ : Type) where
  limits : Limits
  files : LruMap FileCache := .empty
  serials : Nat := 0
  pagesUsed : Nat := 0
  fetches : Array (Fetch τ) := #[]
  gatherings : Array Gathering := #[]
  live : List LiveRead := []
  counters : Counters := {}
  journal : List Event := []

namespace Pool

variable {τ : Type}

def emit (pool : Pool τ) (event : Event) : Pool τ :=
  { pool with
    journal := event :: pool.journal
    counters := pool.counters.count event }

def require (pool : Pool τ) (holds : Bool) (breach : Breach) : Pool τ :=
  if holds then pool else pool.emit (.breached breach)

-- The gauge follows the number of pages held.
def setUsed (pool : Pool τ) (pages : Nat) : Pool τ :=
  { pool with
    pagesUsed := pages
    counters := { pool.counters with pages := pages } }

def grow (pool : Pool τ) (pages : Nat) : Pool τ := pool.setUsed (pool.pagesUsed + pages)

def shrink (pool : Pool τ) (pages : Nat) : Pool τ :=
  (pool.require (decide (pages ≤ pool.pagesUsed)) .pagesUnderflow).setUsed
    (pool.pagesUsed - pages)

-- The file behind a lease, if it has not been removed since.
def leased? (pool : Pool τ) (lease : Lease) : Option FileCache :=
  (pool.files.find? lease.file).filter (·.serial == lease.serial)

def page? (pool : Pool τ) (lease : Lease) (page : Nat) : Option Page :=
  (pool.leased? lease).bind (·.pages.find? page)

def modifyFile (pool : Pool τ) (file : FileId) (change : FileCache → FileCache) : Pool τ :=
  { pool with files := pool.files.modify file change }

-- Destroys pages of a file for the reason that the event tells.
def dropPages (pool : Pool τ) (file : FileId) (pages : List Nat) (event : Event) : Pool τ :=
  ((pool.modifyFile file (·.drop pages)).emit event).shrink pages.length

-- Forgets a file along with its pages.
def removeFile (pool : Pool τ) (file : FileId) : Pool τ :=
  match pool.files.find? file with
  | none => pool
  | some cached =>
      ({ pool with files := pool.files.erase file }.shrink cached.pages.size).emit
        (.fileRemoved file cached.pages.size)

def modifyGathering (pool : Pool τ) (id : ReadId) (change : Gathering → Gathering) : Pool τ :=
  { pool with gatherings := pool.gatherings.modify id change }

-- A read gets what a page has of its range.
def addPage (pool : Pool τ) (id : ReadId) (page : Nat) (data : Bytes) : Pool τ :=
  let checked :=
    (pool.require (pool.gatherings[id]?.all (·.sliceStarts page data)) .sliceUnderflow).require
      (pool.gatherings[id]?.all (·.sliceFits page data)) .sliceBounds
  checked.modifyGathering id (·.add page data)

def spoil (pool : Pool τ) (id : ReadId) (error : Error) : Pool τ :=
  pool.modifyGathering id (·.spoil error)

-- A read has one page less to come.
def arrive (pool : Pool τ) (id : ReadId) : Pool τ :=
  let checked :=
    (pool.require (pool.gatherings[id]?.all (0 < ·.awaited)) .arrivedTwice).require
      (pool.gatherings[id]?.all (·.replyFits)) .replyOverflow
  checked.modifyGathering id Gathering.arrive

def live? (pool : Pool τ) (id : ReadId) : Option LiveRead := pool.live.find? (·.id == id)

-- The fetch that a read waits for to get a page, with the lease of the read.
def awaited? (pool : Pool τ) (id : ReadId) (page : Nat) : Option (Lease × Wait) :=
  (pool.live? id).bind fun read => (read.waits.find? (·.page == page)).map (read.lease, ·)

def modifyLive (pool : Pool τ) (id : ReadId) (change : LiveRead → LiveRead) : Pool τ :=
  { pool with live := pool.live.map fun read => if read.id = id then change read else read }

end Pool

end PageCache
