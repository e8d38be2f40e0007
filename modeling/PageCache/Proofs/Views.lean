import PageCache.Pool
import PageCache.Proofs.Plan
import PageCache.Proofs.Recency

namespace PageCache

def Phase.outcome? {τ : Type} : Phase τ → Option Outcome
  | .complete outcome => some outcome
  | _ => none

-- The fetch that a page waits for, or the one that has loaded it.
def Page.fetch : Page → FetchId
  | fetching fetch _ => fetch
  | loaded fetch _ => fetch

-- The fetch that an event says has failed, with its error.
def Event.failure? : Event → Option (FetchId × Error)
  | .fetchFailed _ _ fetch error _ => some (fetch, error)
  | _ => none

namespace Pool

variable {τ : Type}

def pageAt? (pool : Pool τ) (file : FileId) (page : Nat) : Option Page :=
  (pool.files.find? file).bind (·.pages.find? page)

def call? (pool : Pool τ) (fetch : FetchId) : Option Call := pool.fetches[fetch]?.map (·.call)

-- The outcome of a fetch that is complete.
def outcome? (pool : Pool τ) (fetch : FetchId) : Option Outcome :=
  pool.fetches[fetch]?.bind (·.phase.outcome?)

-- The fetches that failed, in the order in which they were given up.
def failures (pool : Pool τ) : List (FetchId × Error) :=
  pool.journal.reverse.filterMap Event.failure?

-- Whether a read of the file is in progress.
def Busy (pool : Pool τ) (file : FileId) : Prop := ∃ read ∈ pool.live, read.lease.file = file

theorem call?_eq_none_iff {pool : Pool τ} {fetch : FetchId} :
    pool.call? fetch = none ↔ pool.fetches.size ≤ fetch := by
  simp [call?]

theorem outcome?_eq_none_of_call? {pool : Pool τ} {fetch : FetchId}
    (h : pool.call? fetch = none) : pool.outcome? fetch = none := by
  simp only [call?, Option.map_eq_none_iff] at h
  simp [outcome?, h]

theorem getElem?_of_outcome? {pool : Pool τ} {fetch : FetchId} {call : Call} {outcome : Outcome}
    (hc : pool.call? fetch = some call) (ho : pool.outcome? fetch = some outcome) :
    pool.fetches[fetch]? = some ⟨call, .complete outcome⟩ := by
  obtain ⟨⟨_, phase⟩, hf, rfl⟩ := Option.map_eq_some_iff.mp hc
  simp only [outcome?, hf, Option.bind_some] at ho
  cases phase with
  | idle => cases ho
  | running token => cases ho
  | complete found =>
      cases ho
      exact hf

@[simp] theorem failures_emit (pool : Pool τ) (event : Event) :
    (pool.emit event).failures = pool.failures ++ event.failure?.toList := by
  simp only [failures, emit, List.reverse_cons, List.filterMap_append]
  cases h : event.failure? <;> simp [h]

@[simp] theorem limits_require (pool : Pool τ) (holds : Bool) (breach : Breach) :
    (pool.require holds breach).limits = pool.limits := by
  cases holds <;> rfl

@[simp] theorem files_require (pool : Pool τ) (holds : Bool) (breach : Breach) :
    (pool.require holds breach).files = pool.files := by
  cases holds <;> rfl

@[simp] theorem serials_require (pool : Pool τ) (holds : Bool) (breach : Breach) :
    (pool.require holds breach).serials = pool.serials := by
  cases holds <;> rfl

@[simp] theorem pagesUsed_require (pool : Pool τ) (holds : Bool) (breach : Breach) :
    (pool.require holds breach).pagesUsed = pool.pagesUsed := by
  cases holds <;> rfl

@[simp] theorem counters_require (pool : Pool τ) (holds : Bool) (breach : Breach) :
    (pool.require holds breach).counters = pool.counters := by
  cases holds <;> rfl

@[simp] theorem fetches_require (pool : Pool τ) (holds : Bool) (breach : Breach) :
    (pool.require holds breach).fetches = pool.fetches := by
  cases holds <;> rfl

@[simp] theorem gatherings_require (pool : Pool τ) (holds : Bool) (breach : Breach) :
    (pool.require holds breach).gatherings = pool.gatherings := by
  cases holds <;> rfl

@[simp] theorem live_require (pool : Pool τ) (holds : Bool) (breach : Breach) :
    (pool.require holds breach).live = pool.live := by
  cases holds <;> rfl

@[simp] theorem failures_require (pool : Pool τ) (holds : Bool) (breach : Breach) :
    (pool.require holds breach).failures = pool.failures := by
  cases holds with
  | true => rfl
  | false => simp [require, Event.failure?]

-- The file that a lease is for has not been removed.
def Holds (pool : Pool τ) (lease : Lease) : Prop :=
  ∃ cached, pool.files.find? lease.file = some cached ∧ cached.serial = lease.serial

theorem page?_eq_pageAt? {pool : Pool τ} {lease : Lease} (page : Nat) (h : pool.Holds lease) :
    pool.page? lease page = pool.pageAt? lease.file page := by
  obtain ⟨cached, hf, hs⟩ := h
  simp [page?, leased?, pageAt?, hf, hs, Option.filter]

end Pool

end PageCache
