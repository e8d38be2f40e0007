import PageCache.Event

namespace PageCache

-- Counts of what happened, and a gauge of the pages held.
structure Counters where
  hits : Nat := 0
  misses : Nat := 0
  coalesced : Nat := 0
  faults : Nat := 0
  faultFailures : Nat := 0
  evictions : Nat := 0
  invalidations : Nat := 0
  pages : Nat := 0
  deriving DecidableEq

namespace Counters

def count (counters : Counters) : Event → Counters
  | .pageHit _ _ _ => { counters with hits := counters.hits + 1 }
  | .pageCreated _ _ _ => { counters with misses := counters.misses + 1 }
  | .pageJoined _ _ _ => { counters with coalesced := counters.coalesced + 1 }
  | .fetchStarted _ _ _ => { counters with faults := counters.faults + 1 }
  | .fetchFailed _ _ _ _ _ => { counters with faultFailures := counters.faultFailures + 1 }
  | .pagesEvicted _ pages => { counters with evictions := counters.evictions + pages }
  | .staleDropped _ pages | .fileInvalidated _ pages | .fileChanged _ pages =>
      { counters with invalidations := counters.invalidations + pages }
  | _ => counters

def toList (counters : Counters) : List Nat :=
  [counters.hits, counters.misses, counters.coalesced, counters.faults, counters.faultFailures,
    counters.evictions, counters.invalidations, counters.pages]

end Counters

end PageCache
