import PageCache.Mount

namespace PageCache

section Fetches

variable {τ : Type}

-- The same phase, but without the token of a read of storage.
def Phase.bare : Phase τ → Phase Unit
  | .idle => .idle
  | .running _ => .running ()
  | .complete outcome => .complete outcome

def Fetch.bare (fetch : Fetch τ) : Fetch Unit := ⟨fetch.call, fetch.phase.bare⟩

end Fetches

namespace Pool

variable {τ : Type} (pool : Pool τ)

-- The same pool, of whose fetches nobody knows how storage goes on.
def bare : Pool Unit where
  limits := pool.limits
  files := pool.files
  serials := pool.serials
  pagesUsed := pool.pagesUsed
  fetches := pool.fetches.map Fetch.bare
  gatherings := pool.gatherings
  live := pool.live
  counters := pool.counters
  journal := pool.journal

@[simp] theorem limits_bare : pool.bare.limits = pool.limits := rfl

@[simp] theorem files_bare : pool.bare.files = pool.files := rfl

@[simp] theorem pagesUsed_bare : pool.bare.pagesUsed = pool.pagesUsed := rfl

@[simp] theorem gatherings_bare : pool.bare.gatherings = pool.gatherings := rfl

@[simp] theorem size_fetches_bare : pool.bare.fetches.size = pool.fetches.size :=
  Array.size_map

theorem emit_bare (event : Event) : pool.bare.emit event = (pool.emit event).bare := rfl

theorem require_bare (holds : Bool) (breach : Breach) :
    pool.bare.require holds breach = (pool.require holds breach).bare := by
  cases holds <;> rfl

theorem shrink_bare (pages : Nat) : pool.bare.shrink pages = (pool.shrink pages).bare := by
  unfold shrink
  rw [require_bare, pagesUsed_bare]
  rfl

theorem modifyFile_bare (file : FileId) (change : FileCache → FileCache) :
    pool.bare.modifyFile file change = (pool.modifyFile file change).bare := rfl

theorem dropPages_bare (file : FileId) (pages : List Nat) (event : Event) :
    pool.bare.dropPages file pages event = (pool.dropPages file pages event).bare := by
  unfold dropPages
  rw [modifyFile_bare, emit_bare, shrink_bare]

theorem removeFile_bare (file : FileId) :
    pool.bare.removeFile file = (pool.removeFile file).bare := by
  unfold removeFile
  rw [files_bare]
  cases pool.files.find? file with
  | none => rfl
  | some cached =>
      have hshrink := shrink_bare { pool with files := pool.files.erase file } cached.pages.size
      exact congrArg (emit · (.fileRemoved file cached.pages.size)) hshrink

theorem page?_bare (lease : Lease) (page : Nat) :
    pool.bare.page? lease page = pool.page? lease page := rfl

section Deliveries

theorem addPage_bare (id : ReadId) (page : Nat) (data : Bytes) :
    pool.bare.addPage id page data = (pool.addPage id page data).bare := by
  unfold addPage
  rw [gatherings_bare, require_bare, require_bare]
  rfl

theorem spoil_bare (id : ReadId) (error : Error) :
    pool.bare.spoil id error = (pool.spoil id error).bare := rfl

theorem arrive_bare (id : ReadId) : pool.bare.arrive id = (pool.arrive id).bare := by
  unfold arrive
  rw [gatherings_bare, require_bare, require_bare]
  rfl

theorem foldl_bare {α : Type} {act : Pool τ → α → Pool τ} {bareAct : Pool Unit → α → Pool Unit}
    (h : ∀ pool item, bareAct pool.bare item = (act pool item).bare) (items : List α) :
    items.foldl bareAct pool.bare = (items.foldl act pool).bare := by
  induction items generalizing pool with
  | nil => rfl
  | cons item rest ih => rw [List.foldl_cons, h, ih, List.foldl_cons]

end Deliveries

section Resolution

theorem dropStale_bare (file : FileId) (keep : Nat) :
    pool.bare.dropStale file keep = (pool.dropStale file keep).bare := by
  unfold dropStale
  rw [files_bare]
  cases pool.files.find? file with
  | none => rfl
  | some cached =>
      simp only
      split
      · rfl
      · exact dropPages_bare ..

theorem store_bare (file : FileId) (wait : Wait) (waiters : List ReadId) (data : Bytes)
    (attributes : Attributes) :
    pool.bare.store file wait waiters data attributes =
      (pool.store file wait waiters data attributes).bare := by
  have hfill : ∀ pool : Pool τ,
      waiters.foldl (fun pool id => (pool.addPage id wait.page data).arrive id) pool.bare =
        (waiters.foldl (fun pool id => (pool.addPage id wait.page data).arrive id) pool).bare :=
    fun pool => foldl_bare pool (fun pool id => by rw [addPage_bare, arrive_bare]) waiters
  unfold store
  simp only
  rw [files_bare, modifyFile_bare, dropStale_bare]
  split <;> rw [emit_bare, hfill]

theorem giveUp_bare (file : FileId) (wait : Wait) (waiters : List ReadId) (error : Error) :
    pool.bare.giveUp file wait waiters error = (pool.giveUp file wait waiters error).bare := by
  unfold giveUp
  rw [dropPages_bare]
  exact foldl_bare _ (fun pool id => by rw [spoil_bare, arrive_bare]) waiters

theorem resolve_bare (lease : Lease) (wait : Wait) (outcome : Outcome) :
    pool.bare.resolve lease wait outcome = (pool.resolve lease wait outcome).bare := by
  unfold resolve
  rw [page?_bare]
  split
  · split
    · split
      · exact store_bare ..
      · exact giveUp_bare ..
    · rfl
  · rfl

end Resolution

section Control

theorem invalidate_bare (file : FileId) :
    pool.bare.invalidate file = ((pool.invalidate file).1.bare, (pool.invalidate file).2) := by
  unfold invalidate
  rw [files_bare]
  cases pool.files.find? file with
  | none => rfl
  | some cached =>
      simp only
      rw [modifyFile_bare, dropPages_bare]

theorem revalidate_bare (file : FileId) (attributes : Attributes) :
    pool.bare.revalidate file attributes =
      ((pool.revalidate file attributes).1.bare, (pool.revalidate file attributes).2) := by
  unfold revalidate
  rw [files_bare]
  cases pool.files.find? file with
  | none => rfl
  | some cached =>
      simp only
      rw [modifyFile_bare, dropPages_bare]
      split <;> rfl

theorem release_bare (file : FileId) :
    pool.bare.release file = ((pool.release file).1.bare, (pool.release file).2) := by
  unfold release
  rw [files_bare]
  cases pool.files.find? file with
  | none => rfl
  | some cached =>
      simp only
      rw [removeFile_bare, modifyFile_bare]
      split <;> rfl

end Control

section Eviction

theorem evictFile_bare (file : FileId) (excess : Nat) :
    pool.bare.evictFile file excess =
      ((pool.evictFile file excess).1.bare, (pool.evictFile file excess).2) := by
  unfold evictFile
  rw [files_bare]
  cases pool.files.find? file with
  | none => rfl
  | some cached =>
      simp only [require_bare, dropPages_bare]
      split <;> simp only [files_bare, removeFile_bare] <;> split <;> rfl

theorem sweep_bare (excess : Nat) (file : FileId) :
    sweep (pool.bare, excess) file =
      ((sweep (pool, excess) file).1.bare, (sweep (pool, excess) file).2) := by
  unfold sweep
  simp only
  split
  · rfl
  · exact evictFile_bare ..

theorem sweeps_bare (files : List FileId) (excess : Nat) :
    files.foldl sweep (pool.bare, excess) =
      ((files.foldl sweep (pool, excess)).1.bare, (files.foldl sweep (pool, excess)).2) := by
  induction files generalizing pool excess with
  | nil => rfl
  | cons file rest ih => rw [List.foldl_cons, sweep_bare, ih, List.foldl_cons]

theorem evict_bare : pool.bare.evict = (pool.evict.1.bare, pool.evict.2) := by
  simp only [evict, pagesUsed_bare, limits_bare, files_bare, sweeps_bare, require_bare]

theorem enforceBudget_bare : pool.bare.enforceBudget = pool.enforceBudget.bare := by
  unfold enforceBudget
  rw [evict_bare, limits_bare, pagesUsed_bare]
  split <;> rfl

end Eviction

section Reading

theorem enter_bare (file : FileId) : pool.bare.enter file = (pool.enter file).bare := by
  unfold enter
  rw [files_bare]
  cases pool.files.contains file <;> rfl

theorem register_bare (lease : Lease) (offset stop : Nat) :
    pool.bare.register lease offset stop = (pool.register lease offset stop).bare := rfl

theorem createPage_bare (file : FileId) (page : Nat) :
    pool.bare.createPage file page = (pool.createPage file page).bare := by
  have hpush : ∀ fetch : Fetch τ, (pool.fetches.push fetch).map Fetch.bare =
      pool.bare.fetches.push fetch.bare := fun fetch => Array.map_push
  simp only [createPage, size_fetches_bare]
  simp only [grow, setUsed, modifyFile, emit, bare, hpush]
  rfl

theorem join_bare (id : ReadId) (lease : Lease) (wait : Wait) :
    pool.bare.join id lease wait = (pool.join id lease wait).bare := by
  unfold join
  rw [page?_bare, require_bare]
  rfl

theorem lookup_bare (id : ReadId) (lease : Lease) (page : Nat) :
    lookup id lease pool.bare page = (lookup id lease pool page).bare := by
  unfold lookup
  rw [page?_bare]
  split
  · rw [← addPage_bare]
    rfl
  · rw [join_bare, emit_bare]
  · rw [createPage_bare, join_bare, size_fetches_bare]

theorem lookupSpan_bare (file : FileId) (offset stop : Nat) :
    pool.bare.lookupSpan file offset stop = (pool.lookupSpan file offset stop).bare := by
  have hlookups : ∀ (id : ReadId) (lease : Lease) (pages : List Nat) (pool : Pool τ),
      pages.foldl (lookup id lease) pool.bare = (pages.foldl (lookup id lease) pool).bare :=
    fun id lease pages pool => foldl_bare pool (fun pool page => lookup_bare pool ..) pages
  simp only [lookupSpan, enter_bare, register_bare, gatherings_bare, limits_bare, hlookups,
    size_fetches_bare, require_bare]
  rfl

theorem startRead_bare (file : FileId) (offset stop : Nat) :
    pool.bare.startRead file offset stop = (pool.startRead file offset stop).bare := by
  simp only [startRead, lookupSpan_bare, size_fetches_bare, enforceBudget_bare, gatherings_bare]
  split <;> exact arrive_bare ..

theorem observe_bare (id : ReadId) (wait : Wait) :
    pool.bare.observe id wait = (pool.observe id wait).bare := rfl

theorem leave_bare (lease : Lease) : pool.bare.leave lease = (pool.leave lease).bare := by
  have hleased : pool.bare.leased? lease = pool.leased? lease := rfl
  unfold leave
  rw [hleased]
  cases pool.leased? lease with
  | none => rfl
  | some cached =>
      simp only [require_bare, modifyFile_bare, removeFile_bare]
      split <;> rfl

theorem live?_bare (id : ReadId) : pool.bare.live? id = pool.live? id := rfl

theorem endRead_bare (id : ReadId) : pool.bare.endRead id = (pool.endRead id).bare := by
  unfold endRead
  rw [live?_bare]
  cases pool.live? id with
  | none => rfl
  | some read => exact leave_bare { pool with live := pool.live.filter (·.id != id) } read.lease

theorem result_bare (id : ReadId) : pool.bare.result id = pool.result id := rfl

end Reading

end Pool

end PageCache
