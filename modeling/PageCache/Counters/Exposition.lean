import PageCache.Counters

namespace PageCache

namespace Counters

-- A metric in the text format that monitors collect. A counter's value is a total.
inductive Exposition.Kind where
  | counter
  | gauge

def Exposition.entry (name : String) (kind : Exposition.Kind) (value : Nat) (help : String) :
    String :=
  let sort := match kind with
    | .counter => "counter"
    | .gauge => "gauge"
  let sample := match kind with
    | .counter => name ++ "_total"
    | .gauge => name
  "# HELP " ++ name ++ " " ++ help ++ ".\n" ++ "# TYPE " ++ name ++ " " ++ sort ++ "\n" ++
    sample ++ " " ++ toString value ++ "\n"

def exposition (counters : Counters) : String :=
  String.join [
    Exposition.entry "cache_hits" .counter counters.hits
      "Number of page lookups served from a ready page",
    Exposition.entry "cache_misses" .counter counters.misses
      "Number of page lookups that created a page and faulted it",
    Exposition.entry "cache_coalesced" .counter counters.coalesced
      "Number of page lookups that joined a fault already in flight",
    Exposition.entry "cache_faults" .counter counters.faults
      "Number of fetches issued to the backend",
    Exposition.entry "cache_fault_failures" .counter counters.faultFailures
      "Number of fetches that failed or were aborted",
    Exposition.entry "cache_evictions" .counter counters.evictions
      "Number of pages destroyed by eviction",
    Exposition.entry "cache_invalidations" .counter counters.invalidations
      "Number of pages destroyed because they were stale or invalidated",
    Exposition.entry "cache_pages" .gauge counters.pages
      "Number of pages currently resident",
    "# EOF\n"]

end Counters

end PageCache
