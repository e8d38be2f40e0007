import PageCache.Event

namespace PageCache

inductive Event.Level where
  | trace
  | debug
  | warn
  deriving DecidableEq

def Event.Level.name : Event.Level → String
  | trace => "TRACE"
  | debug => "DEBUG"
  | warn => "WARN"

inductive Event.Field where
  | number (value : Nat)
  | text (value : String)
  deriving DecidableEq

-- A line of the log: what happened, with names for its numbers.
structure Event.Line where
  level : Event.Level
  message : String
  fields : List (String × Event.Field)
  deriving DecidableEq

namespace Event

-- A line about one page.
def pageLine (level : Level) (message : String) (file : FileId) (page : Nat)
    (fields : List (String × Field)) : Line :=
  ⟨level, message, [("file", .number file), ("offset", .number page)] ++ fields⟩

-- A line about pages of one file, under the name of their count.
def countLine (level : Level) (message : String) (file : FileId) (name : String)
    (pages : Nat) : Line :=
  ⟨level, message, [("file", .number file), (name, .number pages)]⟩

-- How the log tells of an event. The creation of a page and a breach are left out.
def line? : Event → Option Line
  | fileAdded file => some ⟨.trace, "created inode", [("file", .number file)]⟩
  | fileRemoved file pages => some (countLine .debug "removed inode" file "pages" pages)
  | pageCreated _ _ _ => none
  | pageJoined file page _ => some (pageLine .trace "waiting on page" file page [])
  | pageHit file page _ => some (pageLine .trace "page hit" file page [])
  | fetchStarted file page _ => some (pageLine .debug "faulting page" file page [])
  | fetchFailed file page _ error waiters =>
      some (pageLine .warn "fault failed" file page
        [("err", .text error.detail), ("waiters", .number waiters)])
  | fetchOutdated file page _ => some (pageLine .trace "fault already resolved" file page [])
  | pageLoaded file page _ length waiters =>
      some (pageLine .trace "page ready" file page
        [("len", .number length), ("waiters", .number waiters)])
  | staleDropped file pages =>
      some (countLine .debug "dropped pages of changed file" file "stale" pages)
  | fileInvalidated file pages =>
      some (countLine .debug "invalidated file" file "dropped" pages)
  | fileChanged file pages => some (countLine .debug "file changed" file "dropped" pages)
  | pagesEvicted file pages => some (countLine .debug "evicted pages" file "count" pages)
  | breached _ => none

end Event

end PageCache
