import PageCache.Pool

namespace PageCache

namespace Pool

variable {τ : Type}

-- Takes at most `excess` pages of one file, and the file too if no page is left and
-- no read is in progress. Also gives the excess that remains.
def evictFile (pool : Pool τ) (file : FileId) (excess : Nat) : Pool τ × Nat :=
  match pool.files.find? file with
  | none => (pool, excess)
  | some cached =>
      let victims := cached.victims excess
      let checked := (pool.require cached.isOrdered .strayOrder).require
        (decide (victims.length ≤ excess)) .excessUnderflow
      let evicted :=
        if victims.isEmpty then checked
        else checked.dropPages file victims (.pagesEvicted file victims.length)
      let bare := (evicted.files.find? file).any fun cached =>
        cached.isIdle && cached.pages.size == 0
      (if bare then evicted.removeFile file else evicted, excess - victims.length)

-- Goes over one more file, if there still is an excess.
def sweep (swept : Pool τ × Nat) (file : FileId) : Pool τ × Nat :=
  if swept.2 = 0 then swept else swept.1.evictFile file swept.2

-- One pass over the files, the oldest first, until the low watermark is reached.
-- Gives the number of pages destroyed. A pass is over before anything else happens. That
-- one can be asked for while another is under way, which would then be made by whoever
-- makes that other one, is left out.
def evict (pool : Pool τ) : Pool τ × Nat :=
  let excess := pool.pagesUsed - pool.limits.lowWatermark
  let swept := pool.files.keys.foldl sweep (pool, excess)
  let evicted := excess - swept.2
  (swept.1.require (decide (evicted < wordLimit)) .evictedOverflow, evicted)

def enforceBudget (pool : Pool τ) : Pool τ :=
  if pool.limits.pageBudget < pool.pagesUsed then pool.evict.1 else pool

end Pool

end PageCache
