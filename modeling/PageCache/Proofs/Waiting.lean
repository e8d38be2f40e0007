import PageCache.Proofs.Span
import PageCache.Proofs.Upkeep

namespace PageCache

namespace Pool

variable {τ : Type}

-- Pages and their fetches tell the same story, as do outcomes and the journal.
structure Backed (pool : Pool τ) : Prop where
  fetching : ∀ file page fetch waiters,
    pool.pageAt? file page = some (.fetching fetch waiters) →
    pool.call? fetch = some ⟨file, page, pool.limits.pageSize⟩ ∧ pool.outcome? fetch = none
  loaded : ∀ file page fetch data, pool.pageAt? file page = some (.loaded fetch data) →
    pool.call? fetch = some ⟨file, page, pool.limits.pageSize⟩ ∧
    ∃ attributes, pool.outcome? fetch = some (.ok (data, attributes))
  failed : ∀ fetch error,
    (fetch, error) ∈ pool.failures ↔ pool.outcome? fetch = some (.error error)
  sized : ∀ fetch data attributes, pool.outcome? fetch = some (.ok (data, attributes)) →
    data.length ≤ pool.limits.pageSize

-- A read in progress still has to see what is left of its plan, and the pages of its
-- incomplete fetches are there.
structure Reads (pool : Pool τ) (read : LiveRead) (plan : Plan) : Prop where
  file : read.lease.file = plan.file
  nodup : read.waits.Nodup
  planned : ∀ wait ∈ read.waits, ⟨wait.page, .fetch wait.fetch⟩ ∈ plan.parts
  unseen : ∀ page fetch, ⟨page, .fetch fetch⟩ ∈ plan.parts → pool.outcome? fetch = none →
    ⟨page, fetch⟩ ∈ read.waits ∧
    ∃ waiters, pool.pageAt? plan.file page = some (.fetching fetch waiters)

-- A read that was ever started stands where its plan says. Pages that fetch for it
-- list it, be it in progress or not.
structure Tracks (pool : Pool τ) (id : ReadId) (plan : Plan) : Prop where
  gathering : pool.gatherings[id]? = some (plan.gathering pool.outcome? pool.failures)
  pages : plan.parts.map (·.page) <+: pool.limits.span plan.offset plan.stop
  calls : ∀ page fetch, ⟨page, .fetch fetch⟩ ∈ plan.parts →
    pool.call? fetch = some ⟨plan.file, page, pool.limits.pageSize⟩
  waiting : ∀ file page fetch waiters,
    pool.pageAt? file page = some (.fetching fetch waiters) →
    (id ∈ waiters ↔ file = plan.file ∧ ⟨page, .fetch fetch⟩ ∈ plan.parts)
  reading : ∀ read ∈ pool.live, read.id = id → pool.Reads read plan

-- The invariant of a pool. The plans are those of all reads ever started. Waiters
-- are listed in the order in which they started.
structure Sound (pool : Pool τ) (plans : ReadId → Plan) : Prop where
  ordered : pool.Ordered
  leased : pool.Leased
  backed : pool.Backed
  waiters : ∀ file page fetch waiters,
    pool.pageAt? file page = some (.fetching fetch waiters) →
    waiters.Pairwise (· < ·) ∧ ∀ id ∈ waiters, id < pool.gatherings.size
  tracked : ∀ id < pool.gatherings.size, pool.Tracks id (plans id)

theorem spaced_of_pages {limits : Limits} {plan : Plan}
    (h : plan.parts.map (·.page) <+: limits.span plan.offset plan.stop) : plan.Spaced :=
  List.pairwise_map.mp ((limits.span_pairwise plan.offset plan.stop).sublist h.sublist)

theorem Tracks.spaced {pool : Pool τ} {id : ReadId} {plan : Plan} (h : pool.Tracks id plan) :
    plan.Spaced := spaced_of_pages h.pages

-- No other page of the read comes with this fetch.
theorem Tracks.page_unique {pool : Pool τ} {id : ReadId} {plan : Plan} (h : pool.Tracks id plan)
    {page : Nat} {fetch : FetchId} (hm : ⟨page, .fetch fetch⟩ ∈ plan.parts) :
    ∀ other, ⟨other, .fetch fetch⟩ ∈ plan.parts → other = page := by
  intro other ho
  have he := (h.calls other fetch ho).symm.trans (h.calls page fetch hm)
  simpa using he

-- Two pools with the same pages and the same fetches.
structure Alike (pool other : Pool τ) : Prop where
  limits : other.limits = pool.limits
  call? : other.call? = pool.call?
  outcome? : other.outcome? = pool.outcome?
  failures : other.failures = pool.failures
  pageAt? : other.pageAt? = pool.pageAt?

theorem Alike.backed {pool other : Pool τ} (h : pool.Alike other) (hb : pool.Backed) :
    other.Backed where
  fetching := by
    rw [h.pageAt?, h.call?, h.outcome?, h.limits]
    exact hb.fetching
  loaded := by
    rw [h.pageAt?, h.call?, h.outcome?, h.limits]
    exact hb.loaded
  failed := by
    rw [h.failures, h.outcome?]
    exact hb.failed
  sized := by
    rw [h.outcome?, h.limits]
    exact hb.sized

theorem Alike.reads {pool other : Pool τ} (h : pool.Alike other) {read : LiveRead} {plan : Plan}
    (hr : pool.Reads read plan) : other.Reads read plan where
  file := hr.file
  nodup := hr.nodup
  planned := hr.planned
  unseen := by
    rw [h.outcome?, h.pageAt?]
    exact hr.unseen

theorem Alike.tracks {pool other : Pool τ} (h : pool.Alike other) {id : ReadId} {plan : Plan}
    (ht : pool.Tracks id plan) (hg : other.gatherings[id]? = pool.gatherings[id]?)
    (hr : ∀ read ∈ other.live, read.id = id → pool.Reads read plan) :
    other.Tracks id plan where
  gathering := by
    rw [hg, h.outcome?, h.failures]
    exact ht.gathering
  pages := by
    rw [h.limits]
    exact ht.pages
  calls := by
    rw [h.call?, h.limits]
    exact ht.calls
  waiting := by
    rw [h.pageAt?]
    exact ht.waiting
  reading read hm hid := h.reads (hr read hm hid)

-- A plan that changes in pages that were held only is followed as well.
theorem Alike.replans {pool other : Pool τ} (h : pool.Alike other) {id : ReadId}
    {plan changed : Plan} (ht : pool.Tracks id plan) (hl : other.live = pool.live)
    (hfile : changed.file = plan.file)
    (hparts : ∀ page fetch, ⟨page, .fetch fetch⟩ ∈ changed.parts ↔
      ⟨page, .fetch fetch⟩ ∈ plan.parts)
    (hpages : changed.parts.map (·.page) <+: pool.limits.span changed.offset changed.stop)
    (hg : other.gatherings[id]? = some (changed.gathering pool.outcome? pool.failures)) :
    other.Tracks id changed := by
  refine ⟨?_, ?_, ?_, ?_, ?_⟩
  · rw [hg, h.outcome?, h.failures]
  · rw [h.limits]
    exact hpages
  · intro page fetch hm
    rw [h.call?, h.limits, hfile]
    exact ht.calls page fetch ((hparts page fetch).mp hm)
  · rw [h.pageAt?]
    intro file page fetch waiters hp
    rw [hparts, hfile]
    exact ht.waiting file page fetch waiters hp
  · intro read hr hid
    rw [hl] at hr
    have hreads := h.reads (ht.reading read hr hid)
    refine ⟨hreads.file.trans hfile.symm, hreads.nodup, ?_, ?_⟩
    · exact fun wait hw => (hparts _ _).mpr (hreads.planned wait hw)
    · intro page fetch hm ho
      rw [hfile]
      exact hreads.unseen page fetch ((hparts page fetch).mp hm) ho

theorem Trims.outcome?_eq {pool trimmed : Pool τ} (h : pool.Trims trimmed) :
    trimmed.outcome? = pool.outcome? := by
  funext fetch
  simp only [outcome?, h.fetches]

theorem Trims.call?_eq {pool trimmed : Pool τ} (h : pool.Trims trimmed) :
    trimmed.call? = pool.call? := by
  funext fetch
  simp only [call?, h.fetches]

theorem Trims.pageAt? {pool trimmed : Pool τ} (h : pool.Trims trimmed) {file : FileId}
    {page : Nat} {found : Page} (hp : trimmed.pageAt? file page = some found) :
    pool.pageAt? file page = some found := by
  obtain ⟨left, hleft, hpage⟩ := Option.bind_eq_some_iff.mp hp
  obtain ⟨cached, hf, _, _, hpages⟩ := h.file file left hleft
  exact Option.bind_eq_some_iff.mpr ⟨cached, hf, hpages page found hpage⟩

theorem Trims.pageAt?_kept {pool trimmed : Pool τ} (h : pool.Trims trimmed) {file : FileId}
    {page : Nat} {found : Page} (hb : pool.Busy file) (hw : found.isWaited = true)
    (hp : pool.pageAt? file page = some found) : trimmed.pageAt? file page = some found := by
  obtain ⟨cached, hf, hpage⟩ := Option.bind_eq_some_iff.mp hp
  obtain ⟨left, hleft, hpages⟩ := h.kept file cached hf hb
  exact Option.bind_eq_some_iff.mpr ⟨left, hleft, hpages page found hpage hw⟩

theorem Trims.backed {pool trimmed : Pool τ} (h : pool.Trims trimmed) (hb : pool.Backed) :
    trimmed.Backed where
  fetching file page fetch waiters hp := by
    rw [h.call?_eq, h.outcome?_eq, h.limits]
    exact hb.fetching file page fetch waiters (h.pageAt? hp)
  loaded file page fetch data hp := by
    rw [h.call?_eq, h.outcome?_eq, h.limits]
    exact hb.loaded file page fetch data (h.pageAt? hp)
  failed := by
    rw [h.failures, h.outcome?_eq]
    exact hb.failed
  sized := by
    rw [h.outcome?_eq, h.limits]
    exact hb.sized

theorem isWaited_of_mem {fetch : FetchId} {waiters : List ReadId} {id : ReadId}
    (h : id ∈ waiters) : (Page.fetching fetch waiters).isWaited = true := by
  cases waiters with
  | nil => cases h
  | cons first rest => rfl

-- A read in progress is listed by each page that it has yet to see the bytes of.
theorem Reads.waiting {pool : Pool τ} {read : LiveRead} {plan : Plan} {id : ReadId}
    (h : pool.Reads read plan) (ht : pool.Tracks id plan) {page : Nat} {fetch : FetchId}
    (hm : ⟨page, .fetch fetch⟩ ∈ plan.parts) (ho : pool.outcome? fetch = none) :
    ∃ waiters, pool.pageAt? plan.file page = some (.fetching fetch waiters) ∧ id ∈ waiters := by
  obtain ⟨_, waiters, hp⟩ := h.unseen page fetch hm ho
  exact ⟨waiters, hp, (ht.waiting _ _ _ _ hp).mpr ⟨rfl, hm⟩⟩

theorem Trims.tracks {pool trimmed : Pool τ} (h : pool.Trims trimmed) {id : ReadId} {plan : Plan}
    (ht : pool.Tracks id plan) : trimmed.Tracks id plan where
  gathering := by
    rw [h.gatherings, h.outcome?_eq, h.failures]
    exact ht.gathering
  pages := by
    rw [h.limits]
    exact ht.pages
  calls := by
    rw [h.call?_eq, h.limits]
    exact ht.calls
  waiting file page fetch waiters hp := ht.waiting file page fetch waiters (h.pageAt? hp)
  reading read hr hid := by
    rw [h.live] at hr
    have hreads := ht.reading read hr hid
    refine ⟨hreads.file, hreads.nodup, hreads.planned, fun page fetch hm ho => ?_⟩
    rw [h.outcome?_eq] at ho
    obtain ⟨waiters, hp, hw⟩ := hreads.waiting ht hm ho
    have hb : pool.Busy plan.file := ⟨read, hr, hreads.file⟩
    exact ⟨(hreads.unseen page fetch hm ho).1, waiters,
      h.pageAt?_kept hb (isWaited_of_mem hw) hp⟩

theorem Trims.sound {pool trimmed : Pool τ} (h : pool.Trims trimmed) {plans : ReadId → Plan}
    (hs : pool.Sound plans) : trimmed.Sound plans where
  ordered := h.ordered hs.ordered
  leased := h.leased hs.leased
  backed := h.backed hs.backed
  waiters file page fetch waiters hp := by
    rw [h.gatherings]
    exact hs.waiters file page fetch waiters (h.pageAt? hp)
  tracked id hid := by
    rw [h.gatherings] at hid
    exact h.tracks (hs.tracked id hid)

end Pool

end PageCache
