import PageCache.Fetched
import PageCache.Gathering
import PageCache.LruMap

namespace PageCache

-- Fetches are numbered in the order in which their pages were created, those of all files
-- together. They share no numbers with the stamps of the order of use.
abbrev FetchId := Nat

-- A page is waiting for its fetch, along with the reads that want it, or it holds the
-- bytes of its fetch. Only the last page of a file is short of a whole page.
inductive Page where
  | fetching (fetch : FetchId) (waiters : List ReadId)
  | loaded (fetch : FetchId) (data : Bytes)
  deriving DecidableEq

namespace Page

def data? : Page → Option Bytes
  | fetching _ _ => none
  | loaded _ data => some data

def waiters : Page → List ReadId
  | fetching _ waiters => waiters
  | loaded _ _ => []

def isLoaded (page : Page) : Bool := page.data?.isSome

def isWaited (page : Page) : Bool := !page.waiters.isEmpty

-- Adds a read to those that wait. Nothing waits for a page that is loaded.
def wait (read : ReadId) : Page → Page
  | fetching fetch waiters => fetching fetch (waiters ++ [read])
  | loaded fetch data => loaded fetch data

end Page

-- The cached pages of one file. `readers` counts the reads in progress, and
-- `attributes` is what the latest fetch or revalidation said of the file. A file that
-- is cached again after its removal has another serial number.
structure FileCache where
  serial : Nat
  readers : Nat := 0
  released : Bool := false
  pages : LruMap Page := .empty
  attributes : Option Attributes := none

namespace FileCache

def isIdle (cached : FileCache) : Bool := cached.readers == 0

def isWaited (cached : FileCache) (page : Nat) : Bool :=
  (cached.pages.find? page).any Page.isWaited

-- Whether every page in the order of use is there.
def isOrdered (cached : FileCache) : Bool := cached.pages.keys.all cached.pages.contains

-- The pages that eviction takes, the oldest first and at most `limit`. If no read
-- is in progress, those who wait for a page have all gone away.
def victims (cached : FileCache) (limit : Nat) : List Nat :=
  (cached.pages.keys.filter fun page => cached.isIdle || !cached.isWaited page).take limit

-- The pages that no read waits for.
def unwaited (cached : FileCache) : List Nat :=
  cached.pages.keys.filter fun page => !cached.isWaited page

def drop (cached : FileCache) (pages : List Nat) : FileCache :=
  { cached with pages := cached.pages.eraseAll pages }

-- Whether these attributes tell of a change of the file.
def isStale (cached : FileCache) (attributes : Attributes) : Bool :=
  cached.attributes.any (· != attributes)

end FileCache

end PageCache
