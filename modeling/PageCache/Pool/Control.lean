import PageCache.Pool

namespace PageCache

namespace Pool

variable {τ : Type}

-- What the latest fetch or revalidation of a file said.
def attributes? (pool : Pool τ) (file : FileId) : Option Attributes :=
  (pool.files.find? file).bind (·.attributes)

-- Whether the page that holds `offset` is loaded.
def contains (pool : Pool τ) (file : FileId) (offset : Nat) : Bool :=
  (pool.files.find? file).any fun cached =>
    (cached.pages.find? (pool.limits.pageOf offset)).any Page.isLoaded

-- Drops the pages of a file that no read waits for, and forgets its attributes.
-- Gives the number of pages dropped.
def invalidate (pool : Pool τ) (file : FileId) : Pool τ × Nat :=
  match pool.files.find? file with
  | none => (pool, 0)
  | some cached =>
      let dropped := cached.unwaited
      let forgotten := pool.modifyFile file fun cached => { cached with attributes := none }
      (forgotten.dropPages file dropped (.fileInvalidated file dropped.length), dropped.length)

-- Drops the pages of a file if these attributes tell of a change. Gives whether
-- the pages were still valid.
def revalidate (pool : Pool τ) (file : FileId) (attributes : Attributes) : Pool τ × Bool :=
  match pool.files.find? file with
  | none => (pool, true)
  | some cached =>
      let recorded := pool.modifyFile file fun cached =>
        { cached with attributes := some attributes }
      if cached.isStale attributes then
        let dropped := cached.unwaited
        (recorded.dropPages file dropped (.fileChanged file dropped.length), false)
      else (recorded, true)

-- Stops caching a file, at once if no read is in progress. Gives whether it did.
def release (pool : Pool τ) (file : FileId) : Pool τ × Bool :=
  match pool.files.find? file with
  | none => (pool, false)
  | some cached =>
      if cached.isIdle then (pool.removeFile file, true)
      else (pool.modifyFile file fun cached => { cached with released := true }, false)

end Pool

end PageCache
