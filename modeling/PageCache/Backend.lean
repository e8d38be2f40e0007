import PageCache.Fetched

namespace PageCache

-- A read of storage: up to `length` bytes of the file from `offset` on.
structure Call where
  file : FileId
  offset : Nat
  length : Nat
  deriving DecidableEq

-- How far a read of storage has come. A token stands for the rest of the work.
inductive Progress (τ : Type) where
  | waiting (token : τ)
  | finished (answer : Except Error Fetched)

def Progress.map {τ υ : Type} (wrap : τ → υ) : Progress τ → Progress υ
  | .waiting token => .waiting (wrap token)
  | .finished answer => .finished answer

-- Storage with state `σ`, whose reads run bit by bit: one is started, then polled
-- until it is finished. A read is given up by dropping its token.
structure Backend (σ τ : Type) where
  start : σ → Call → σ × τ
  poll : σ → Call → τ → σ × Progress τ

-- The same storage, with a list of the reads started so far, the latest one first.
def Backend.recording {σ τ : Type} (backend : Backend σ τ) : Backend (σ × List Call) τ where
  start state call :=
    let started := backend.start state.1 call
    ((started.1, call :: state.2), started.2)
  poll state call token :=
    let polled := backend.poll state.1 call token
    ((polled.1, state.2), polled.2)

end PageCache
