import PageCache.Pool.Eviction

namespace PageCache

namespace Pool

variable {τ : Type}

-- Makes the file the most recently used one, with one more read in progress.
def enter (pool : Pool τ) (file : FileId) : Pool τ :=
  let present :=
    if pool.files.contains file then pool
    else
      { pool with
        files := pool.files.insert file { serial := pool.serials }
        serials := pool.serials + 1 }.emit (.fileAdded file)
  { present with
    files := (present.files.touch file).modify file fun cached =>
      { cached with readers := cached.readers + 1 } }

def lease (pool : Pool τ) (file : FileId) : Lease :=
  ⟨file, ((pool.files.find? file).map (·.serial)).getD 0⟩

-- Registers a read of `[offset, stop)` under the next number.
def register (pool : Pool τ) (lease : Lease) (offset stop : Nat) : Pool τ :=
  { pool with
    gatherings := pool.gatherings.push { offset := offset, stop := stop }
    live := pool.live ++ [{ id := pool.gatherings.size, lease := lease }] }

-- A new page, to be fetched.
def createPage (pool : Pool τ) (file : FileId) (page : Nat) : Pool τ :=
  let fetch := pool.fetches.size
  let created := { pool with
      fetches := pool.fetches.push ⟨⟨file, page, pool.limits.pageSize⟩, .idle⟩ }.modifyFile file
    fun cached => { cached with pages := cached.pages.insert page (.fetching fetch []) }
  (created.grow 1).emit (.pageCreated file page fetch)

-- A read waits for the fetch of a page.
def join (pool : Pool τ) (id : ReadId) (lease : Lease) (wait : Wait) : Pool τ :=
  let checked := pool.require ((pool.page? lease wait.page).any (!·.isLoaded)) .waitForLoaded
  let waiting := checked.modifyFile lease.file fun cached =>
    { cached with pages := cached.pages.modify wait.page (Page.wait id) }
  (waiting.modifyGathering id Gathering.await).modifyLive id fun read =>
    { read with waits := read.waits ++ [wait] }

-- Gets one page for a read: its bytes if it is loaded, else its fetch to wait for.
def lookup (id : ReadId) (lease : Lease) (pool : Pool τ) (page : Nat) : Pool τ :=
  match pool.page? lease page with
  | some (.loaded fetch data) =>
      let used := pool.modifyFile lease.file fun cached =>
        { cached with pages := cached.pages.touch page }
      (used.emit (.pageHit lease.file page fetch)).addPage id page data
  | some (.fetching fetch _) =>
      (pool.join id lease ⟨page, fetch⟩).emit (.pageJoined lease.file page fetch)
  | none => (pool.createPage lease.file page).join id lease ⟨page, pool.fetches.size⟩

-- Registers a read of `[offset, stop)` and looks up all its pages. The new ones are counted.
def lookupSpan (pool : Pool τ) (file : FileId) (offset stop : Nat) : Pool τ :=
  let entered := pool.enter file
  let lease := entered.lease file
  let looked := (pool.limits.span offset stop).foldl (lookup pool.gatherings.size lease)
    (entered.register lease offset stop)
  looked.require (decide (looked.fetches.size - pool.fetches.size < wordLimit)) .createdOverflow

-- Starts a read. The budget is enforced if pages were created, and not before all
-- pages have been looked up.
def startRead (pool : Pool τ) (file : FileId) (offset stop : Nat) : Pool τ :=
  let looked := pool.lookupSpan file offset stop
  let kept := if pool.fetches.size < looked.fetches.size then looked.enforceBudget else looked
  kept.arrive pool.gatherings.size

-- A read has one fetch less to see.
def observe (pool : Pool τ) (id : ReadId) (wait : Wait) : Pool τ :=
  pool.modifyLive id fun read => { read with waits := read.waits.erase wait }

-- Gives a lease back. A file that is released goes with the last of them.
def leave (pool : Pool τ) (lease : Lease) : Pool τ :=
  match pool.leased? lease with
  | none => pool
  | some cached =>
      let left := (pool.require (decide (0 < cached.readers)) .readersUnderflow).modifyFile
        lease.file fun cached => { cached with readers := cached.readers - 1 }
      if cached.readers ≤ 1 ∧ cached.released then left.removeFile lease.file else left

-- Ends a read, whether it returns or is given up.
def endRead (pool : Pool τ) (id : ReadId) : Pool τ :=
  match pool.live? id with
  | none => pool
  | some read => { pool with live := pool.live.filter (·.id != id) }.leave read.lease

-- What a read that has seen all its fetches returns.
def result (pool : Pool τ) (id : ReadId) : Except Error Reply :=
  (pool.gatherings[id]?.bind (·.result)).getD (.error .canceled)

end Pool

end PageCache
