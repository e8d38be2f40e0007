import PageCache.Proofs.Waiting

namespace PageCache

namespace Pool

variable {τ : Type}

-- What leases go by: the serial number of a cached file and its readers.
def tenancy (pool : Pool τ) (file : FileId) : Option (Nat × Nat) :=
  (pool.files.find? file).map fun cached => (cached.serial, cached.readers)

theorem Leased.of_tenancy {pool other : Pool τ} (h : pool.Leased) (hl : other.live = pool.live)
    (hg : other.gatherings.size = pool.gatherings.size)
    (ht : ∀ file, other.tenancy file = pool.tenancy file) : other.Leased where
  distinct := hl ▸ h.distinct
  known := by
    rw [hl, hg]
    exact h.known
  current read hr := by
    rw [hl] at hr
    obtain ⟨cached, hf, hs⟩ := h.current read hr
    have hsome := ht read.lease.file
    simp only [tenancy, hf, Option.map_some] at hsome
    obtain ⟨found, hfound, he⟩ := Option.map_eq_some_iff.mp hsome
    exact ⟨found, hfound, (congrArg Prod.fst he).trans hs⟩
  readers file found hfound := by
    have hsome := ht file
    simp only [tenancy, hfound, Option.map_some] at hsome
    obtain ⟨cached, hf, he⟩ := Option.map_eq_some_iff.mp hsome.symm
    rw [hl, ← h.readers file cached hf]
    exact (congrArg Prod.snd he).symm

-- A fetch completes, and its page is resolved in the same breath: the page is loaded or
-- gone, and the reads that it lists get its bytes or the error.
structure Settles (pool settled : Pool τ) (file : FileId) (page : Nat) (fetch : FetchId)
    (waiters : List ReadId) (outcome : Outcome) : Prop where
  limits : settled.limits = pool.limits
  live : settled.live = pool.live
  call? : settled.call? = pool.call?
  completes : Plan.Completes pool.outcome? settled.outcome? fetch outcome
  failures : settled.failures = pool.failures ++ outcome.failure? fetch
  ordered : pool.Ordered → settled.Ordered
  size : settled.gatherings.size = pool.gatherings.size
  gatherings : ∀ id, settled.gatherings[id]? =
    if id ∈ waiters then pool.gatherings[id]?.map (·.settle page outcome)
    else pool.gatherings[id]?
  tenancy : ∀ other, settled.tenancy other = pool.tenancy other
  resolved : settled.pageAt? file page = outcome.toOption.map fun answer => .loaded fetch answer.1
  untouched : ∀ other name, ¬ (other = file ∧ name = page) →
    settled.pageAt? other name = pool.pageAt? other name

section Settles

variable {pool settled : Pool τ} {file : FileId} {page : Nat} {fetch : FetchId}
  {waiters : List ReadId} {outcome : Outcome}

-- The page that was resolved waits no longer, and other pages are as they were.
theorem Settles.pageAt?_fetching (h : pool.Settles settled file page fetch waiters outcome)
    {other : FileId} {name : Nat} {found : FetchId} {readers : List ReadId}
    (hp : settled.pageAt? other name = some (.fetching found readers)) :
    ¬ (other = file ∧ name = page) ∧
      pool.pageAt? other name = some (.fetching found readers) := by
  have hn : ¬ (other = file ∧ name = page) := by
    rintro ⟨rfl, rfl⟩
    rw [h.resolved] at hp
    obtain ⟨_, _, he⟩ := Option.map_eq_some_iff.mp hp
    cases he
  exact ⟨hn, h.untouched other name hn ▸ hp⟩

theorem Settles.ne_of_page (hb : pool.Backed)
    (hp : pool.pageAt? file page = some (.fetching fetch waiters))
    {other : FileId} {name : Nat} {found : FetchId}
    (hc : pool.call? found = some ⟨other, name, pool.limits.pageSize⟩)
    (hn : ¬ (other = file ∧ name = page)) : found ≠ fetch := by
  rintro rfl
  have he := hc.symm.trans (hb.fetching file page found waiters hp).1
  simp only [Option.some.injEq, Call.mk.injEq, and_true] at he
  exact hn he

theorem Settles.backed (h : pool.Settles settled file page fetch waiters outcome)
    (hb : pool.Backed) (hp : pool.pageAt? file page = some (.fetching fetch waiters))
    (hz : ∀ data attributes, outcome = .ok (data, attributes) →
      data.length ≤ pool.limits.pageSize) : settled.Backed where
  fetching other name found readers hf := by
    obtain ⟨hn, hf⟩ := h.pageAt?_fetching hf
    obtain ⟨hc, ho⟩ := hb.fetching other name found readers hf
    rw [h.call?, h.limits, h.completes.others found (ne_of_page hb hp hc hn)]
    exact ⟨hc, ho⟩
  loaded other name found data hf := by
    rw [h.call?, h.limits]
    by_cases hn : other = file ∧ name = page
    · obtain ⟨rfl, rfl⟩ := hn
      rw [h.resolved] at hf
      obtain ⟨⟨bytes, attributes⟩, ho, he⟩ := Option.map_eq_some_iff.mp hf
      cases he
      refine ⟨(hb.fetching _ _ _ _ hp).1, attributes, ?_⟩
      cases outcome with
      | ok answer => rw [h.completes.complete, Option.some.inj ho]
      | error error => cases ho
    · rw [h.untouched other name hn] at hf
      obtain ⟨hc, ho⟩ := hb.loaded other name found data hf
      rw [h.completes.others found (ne_of_page hb hp hc hn)]
      exact ⟨hc, ho⟩
  failed found error := by
    have hold := hb.failed found error
    rw [h.failures, List.mem_append]
    by_cases he : found = fetch
    · subst he
      rw [hold, h.completes.incomplete, h.completes.complete]
      cases outcome <;> simp [Outcome.failure?, eq_comm]
    · rw [h.completes.others found he, ← hold]
      cases outcome <;> simp [Outcome.failure?, he]
  sized found data attributes ho := by
    rw [h.limits]
    by_cases he : found = fetch
    · subst he
      exact hz data attributes (Option.some.inj (h.completes.complete.symm.trans ho))
    · rw [h.completes.others found he] at ho
      exact hb.sized found data attributes ho

theorem Settles.tracks (h : pool.Settles settled file page fetch waiters outcome)
    (hb : pool.Backed) (hp : pool.pageAt? file page = some (.fetching fetch waiters))
    {id : ReadId} {plan : Plan} (ht : pool.Tracks id plan) : settled.Tracks id plan where
  gathering := by
    have hw := ht.waiting file page fetch waiters hp
    rw [h.gatherings, h.failures]
    split
    · rename_i hid
      have hm := (hw.mp hid).2
      rw [ht.gathering, Option.map_some,
        Plan.gathering_settle ht.spaced pool.failures h.completes hm (ht.page_unique hm)]
    · rename_i hid
      have hn : fetch ∉ plan.fetches := by
        intro hm
        obtain ⟨name, hm⟩ := Plan.mem_fetches.mp hm
        have he := (ht.calls name fetch hm).symm.trans (hb.fetching file page fetch waiters hp).1
        simp only [Option.some.injEq, Call.mk.injEq, and_true] at he
        obtain ⟨rfl, rfl⟩ := he
        exact hid (hw.mpr ⟨rfl, hm⟩)
      rw [ht.gathering, Plan.gathering_of_notMem pool.failures outcome hn h.completes.others]
  pages := by
    rw [h.limits]
    exact ht.pages
  calls := by
    rw [h.call?, h.limits]
    exact ht.calls
  waiting other name found readers hf :=
    ht.waiting other name found readers (h.pageAt?_fetching hf).2
  reading read hr hid := by
    rw [h.live] at hr
    have hreads := ht.reading read hr hid
    refine ⟨hreads.file, hreads.nodup, hreads.planned, fun name found hm ho => ?_⟩
    have hne : found ≠ fetch := by
      rintro rfl
      rw [h.completes.complete] at ho
      cases ho
    rw [h.completes.others found hne] at ho
    obtain ⟨hw, readers, hf⟩ := hreads.unseen name found hm ho
    have hn : ¬ (plan.file = file ∧ name = page) := by
      rintro ⟨hfile, rfl⟩
      rw [hfile, hp] at hf
      cases hf
      exact hne rfl
    exact ⟨hw, readers, h.untouched _ _ hn ▸ hf⟩

theorem Settles.sound (h : pool.Settles settled file page fetch waiters outcome)
    {plans : ReadId → Plan} (hs : pool.Sound plans)
    (hp : pool.pageAt? file page = some (.fetching fetch waiters))
    (hz : ∀ data attributes, outcome = .ok (data, attributes) →
      data.length ≤ pool.limits.pageSize) : settled.Sound plans where
  ordered := h.ordered hs.ordered
  leased := hs.leased.of_tenancy h.live h.size h.tenancy
  backed := h.backed hs.backed hp hz
  waiters other name found readers hf := by
    rw [h.size]
    exact hs.waiters other name found readers (h.pageAt?_fetching hf).2
  tracked id hid := by
    rw [h.size] at hid
    exact h.tracks hs.backed hp (hs.tracked id hid)

end Settles

end Pool

end PageCache
