import PageCache.Pool.Control
import PageCache.Pool.Reading
import PageCache.Pool.Resolution

namespace PageCache

-- Storage, in the state `storage`, and the pool of pages in front of it.
structure Mount (σ τ : Type) where
  storage : σ
  pool : Pool τ

-- In which turns a poll of a read goes through the fetches that it joins: out of the pages
-- that the read waits for, in file order, those to be polled, one after the other. How the
-- fetches are joined is not up to the cache, so a page may have no turn, or another one.
abbrev Turns := List Nat → List Nat

namespace Turns

-- Each page has one turn, in file order.
def all : Turns := fun pages => pages

-- Each page has a turn, in file order, before any of them has another one.
def Prompt (turns : Turns) : Prop := ∀ pages, pages <+: turns pages

-- Each page has a turn.
def Thorough (turns : Turns) : Prop := ∀ pages, pages ⊆ turns pages

theorem prompt_all : all.Prompt := List.prefix_refl

theorem Prompt.thorough {turns : Turns} (h : turns.Prompt) : turns.Thorough :=
  fun pages => (h pages).subset

end Turns

-- What is asked of a mount. Reads run bit by bit: `read` starts one and takes it as
-- far as it can go, and `poll` takes it further.
inductive Op where
  | read (file : FileId) (offset length : Nat) (turns : Turns)
  | poll (id : ReadId) (turns : Turns)
  | drop (id : ReadId)
  | invalidate (file : FileId)
  | revalidate (file : FileId) (attributes : Attributes)
  | release (file : FileId)
  | prune

inductive Answer where
  | pending (id : ReadId)
  | returned (result : Except Error Reply)
  | number (value : Nat)
  | flag (value : Bool)
  | unknown

namespace Mount

variable {σ τ : Type}

def create (limits : Limits) (storage : σ) : Mount σ τ := ⟨storage, { limits := limits }⟩

def setPhase (mount : Mount σ τ) (id : FetchId) (phase : Phase τ) : Mount σ τ :=
  { mount with
    pool := { mount.pool with
      fetches := mount.pool.fetches.modify id fun fetch => { fetch with phase := phase } } }

-- The read of storage behind a fetch begins when the fetch is first polled.
def launch (backend : Backend σ τ) (mount : Mount σ τ) (id : FetchId) (call : Call) :
    Mount σ τ × τ :=
  let started := backend.start mount.storage call
  (⟨started.1, mount.pool.emit (.fetchStarted call.file call.offset id)⟩, started.2)

-- Polls the read of storage behind a fetch. A finished one completes the fetch.
def advance (backend : Backend σ τ) (mount : Mount σ τ) (id : FetchId) (call : Call)
    (token : τ) : Mount σ τ × Option Outcome :=
  let polled := backend.poll mount.storage call token
  let moved : Mount σ τ := { mount with storage := polled.1 }
  match polled.2 with
  | .waiting token => (moved.setPhase id (.running token), none)
  | .finished answer =>
      let outcome := answer.bind (·.toPage call.length)
      (moved.setPhase id (.complete outcome), some outcome)

-- Takes a fetch as far as it can go, and gives its outcome once there is one.
def drive (backend : Backend σ τ) (mount : Mount σ τ) (id : FetchId) :
    Mount σ τ × Option Outcome :=
  match mount.pool.fetches[id]? with
  | none => (mount, none)
  | some ⟨_, .complete outcome⟩ => (mount, some outcome)
  | some ⟨call, .running token⟩ => mount.advance backend id call token
  | some ⟨call, .idle⟩ =>
      let launched := mount.launch backend id call
      launched.1.advance backend id call launched.2

-- Polls one fetch that a read waits for. Its outcome is applied right away.
def pollWait (backend : Backend σ τ) (id : ReadId) (lease : Lease) (mount : Mount σ τ)
    (wait : Wait) : Mount σ τ :=
  let driven := mount.drive backend wait.fetch
  match driven.2 with
  | none => driven.1
  | some outcome =>
      { driven.1 with pool := (driven.1.pool.resolve lease wait outcome).observe id wait }

-- One turn of a poll. A read that does not wait for the page any more has nothing to poll.
def takeTurn (backend : Backend σ τ) (id : ReadId) (mount : Mount σ τ) (page : Nat) :
    Mount σ τ :=
  match mount.pool.awaited? id page with
  | none => mount
  | some (lease, wait) => pollWait backend id lease mount wait

-- Polls the fetches that a read waits for, as they have their turns. The read returns once
-- it has seen them all.
def poll (backend : Backend σ τ) (mount : Mount σ τ) (id : ReadId) (turns : Turns) :
    Mount σ τ × Answer :=
  match mount.pool.live? id with
  | none => (mount, .unknown)
  | some read =>
      let polled := (turns (read.waits.map (·.page))).foldl (takeTurn backend id) mount
      if (polled.pool.live? id).all (·.waits.isEmpty) then
        ({ polled with pool := polled.pool.endRead id }, .returned (polled.pool.result id))
      else (polled, .pending id)

-- Starts a read, and polls it for the first time. A read of nothing, or past the last
-- offset, leaves no trace.
def read (backend : Backend σ τ) (mount : Mount σ τ) (file : FileId) (offset length : Nat)
    (turns : Turns) : Mount σ τ × Answer :=
  if length = 0 then (mount, .returned (.ok {}))
  else if offset + length < wordLimit then
    let started := mount.pool.startRead file offset (offset + length)
    poll backend { mount with pool := started } mount.pool.gatherings.size turns
  else (mount, .returned (.error .offsetOverflow))

def step (backend : Backend σ τ) (mount : Mount σ τ) : Op → Mount σ τ × Answer
  | .read file offset length turns => mount.read backend file offset length turns
  | .poll id turns => mount.poll backend id turns
  | .drop id =>
      ({ mount with pool := mount.pool.endRead id }, .flag (mount.pool.live? id).isSome)
  | .invalidate file =>
      let done := mount.pool.invalidate file
      ({ mount with pool := done.1 }, .number done.2)
  | .revalidate file attributes =>
      let done := mount.pool.revalidate file attributes
      ({ mount with pool := done.1 }, .flag done.2)
  | .release file =>
      let done := mount.pool.release file
      ({ mount with pool := done.1 }, .flag done.2)
  | .prune =>
      let done := mount.pool.evict
      ({ mount with pool := done.1 }, .number done.2)

end Mount

end PageCache
