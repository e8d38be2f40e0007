import PageCache.Error.Detail
import PageCache.FileCache

namespace PageCache

-- Facts that the cache relies on. If one is found broken, this says which.
inductive Breach where
  | arrivedTwice
  | readersUnderflow
  | pagesUnderflow
  | waitForLoaded
  | strayOrder
  | sliceUnderflow
  | sliceBounds
  | replyOverflow
  | createdOverflow
  | excessUnderflow
  | evictedOverflow
  deriving DecidableEq

def Breach.message : Breach → String
  | arrivedTwice => "request settled too many times"
  | readersUnderflow => "inode reference count underflow"
  | pagesUnderflow => "page accounting underflow"
  | waitForLoaded => "waiting on a page that is already ready"
  | strayOrder => "page order lists a missing page"
  | sliceUnderflow => "attempt to subtract with overflow"
  | sliceBounds => "range end out of bounds"
  | replyOverflow => "attempt to add with overflow"
  | createdOverflow => "attempt to add with overflow"
  | excessUnderflow => "attempt to subtract with overflow"
  | evictedOverflow => "attempt to add with overflow"

-- What happens in the cache.
inductive Event where
  | fileAdded (file : FileId)
  | fileRemoved (file : FileId) (pages : Nat)
  | pageCreated (file : FileId) (page : Nat) (fetch : FetchId)
  | pageJoined (file : FileId) (page : Nat) (fetch : FetchId)
  | pageHit (file : FileId) (page : Nat) (fetch : FetchId)
  | fetchStarted (file : FileId) (page : Nat) (fetch : FetchId)
  | fetchFailed (file : FileId) (page : Nat) (fetch : FetchId) (error : Error) (waiters : Nat)
  | fetchOutdated (file : FileId) (page : Nat) (fetch : FetchId)
  | pageLoaded (file : FileId) (page : Nat) (fetch : FetchId) (length waiters : Nat)
  | staleDropped (file : FileId) (pages : Nat)
  | fileInvalidated (file : FileId) (pages : Nat)
  | fileChanged (file : FileId) (pages : Nat)
  | pagesEvicted (file : FileId) (pages : Nat)
  | breached (breach : Breach)
  deriving DecidableEq

def Event.breach? : Event → Option Breach
  | breached breach => some breach
  | _ => none

end PageCache
