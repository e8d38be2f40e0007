import PageCache.Pool

namespace PageCache

namespace Pool

variable {τ : Type}

-- Drops the pages that were read before the file changed. Those that reads wait for
-- are kept.
def dropStale (pool : Pool τ) (file : FileId) (keep : Nat) : Pool τ :=
  match pool.files.find? file with
  | none => pool
  | some cached =>
      let stale := cached.unwaited.filter (· != keep)
      if stale.isEmpty then pool
      else pool.dropPages file stale (.staleDropped file stale.length)

-- The fetched bytes become the page, and every read that waits gets its part.
def store (pool : Pool τ) (file : FileId) (wait : Wait) (waiters : List ReadId) (data : Bytes)
    (attributes : Attributes) : Pool τ :=
  let changed := (pool.files.find? file).any (·.isStale attributes)
  let stored := pool.modifyFile file fun cached =>
    { cached with
      pages := cached.pages.insert wait.page (.loaded wait.fetch data)
      attributes := some attributes }
  let fresh := if changed then stored.dropStale file wait.page else stored
  waiters.foldl (fun pool id => (pool.addPage id wait.page data).arrive id)
    (fresh.emit (.pageLoaded file wait.page wait.fetch data.length waiters.length))

-- The page is given up, and every read that waits gets the error.
def giveUp (pool : Pool τ) (file : FileId) (wait : Wait) (waiters : List ReadId)
    (error : Error) : Pool τ :=
  waiters.foldl (fun pool id => (pool.spoil id error).arrive id)
    (pool.dropPages file [wait.page]
      (.fetchFailed file wait.page wait.fetch error waiters.length))

-- A read has seen the outcome of a fetch. Only the first one that does finds the page
-- still waiting for this very fetch.
def resolve (pool : Pool τ) (lease : Lease) (wait : Wait) (outcome : Outcome) : Pool τ :=
  match pool.page? lease wait.page with
  | some (.fetching fetch waiters) =>
      if fetch = wait.fetch then
        match outcome with
        | .ok (data, attributes) => pool.store lease.file wait waiters data attributes
        | .error error => pool.giveUp lease.file wait waiters error
      else pool.emit (.fetchOutdated lease.file wait.page wait.fetch)
  | _ => pool.emit (.fetchOutdated lease.file wait.page wait.fetch)

end Pool

end PageCache
