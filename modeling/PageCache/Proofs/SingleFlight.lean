import PageCache.Proofs.Issuing
import PageCache.Proofs.ReadOutcome

namespace PageCache

namespace Pool

variable {τ : Type} {pool : Pool τ} {plans : ReadId → Plan} {fetch : FetchId}

-- A fetch is held by its page and by the reads that have yet to see its outcome. With the
-- last of them it is dropped.
def Held (pool : Pool τ) (fetch : FetchId) : Prop :=
  (∃ file page waiters, pool.pageAt? file page = some (.fetching fetch waiters)) ∨
    ∃ read ∈ pool.live, ∃ wait ∈ read.waits, wait.fetch = fetch

-- The read of storage behind a fetch has begun, and it is neither finished nor dropped.
def InFlight (pool : Pool τ) (fetch : FetchId) : Prop :=
  (∃ call token, pool.fetches[fetch]? = some ⟨call, .running token⟩) ∧ pool.Held fetch

theorem InFlight.incomplete (h : pool.InFlight fetch) : pool.outcome? fetch = none := by
  obtain ⟨⟨call, token, hf⟩, _⟩ := h
  simp [outcome?, hf, Phase.outcome?]

-- Whoever holds on to a fetch under way, its page is there and waits for it.
theorem InFlight.exists_page (h : pool.InFlight fetch) (hs : pool.Sound plans) :
    ∃ file page waiters, pool.pageAt? file page = some (.fetching fetch waiters) := by
  rcases h.2 with hpage | ⟨read, hr, wait, hw, rfl⟩
  · exact hpage
  · have ht := hs.tracked read.id (hs.leased.known read hr)
    have hreads := ht.reading read hr rfl
    obtain ⟨_, waiters, hp⟩ := hreads.unseen _ _ (hreads.planned wait hw) h.incomplete
    exact ⟨_, _, waiters, hp⟩

-- A fetch that has been launched is running or complete.
theorem Launched.phase (hl : pool.Launched) {found : Fetch τ}
    (hf : pool.fetches[fetch]? = some found) :
    (∃ token, found.phase = .running token) ∨ ∃ outcome, found.phase = .complete outcome := by
  have hidle : ¬ found.phase.isIdle := by
    have hnone := hl fetch
    rw [idle?, Option.map_eq_none_iff, hf] at hnone
    simpa using hnone
  cases hphase : found.phase with
  | idle => exact absurd (by rw [hphase]; rfl) hidle
  | running token => exact .inl ⟨token, rfl⟩
  | complete outcome => exact .inr ⟨outcome, rfl⟩

-- A fetch that a page waits for is under way, unless it has yet to be launched.
theorem inFlight_of_page (hs : pool.Sound plans) (hl : pool.Launched)
    {file : FileId} {page : Nat} {waiters : List ReadId}
    (hp : pool.pageAt? file page = some (.fetching fetch waiters)) : pool.InFlight fetch := by
  obtain ⟨hcall, houtcome⟩ := hs.backed.fetching file page fetch waiters hp
  obtain ⟨found, hf, _⟩ := Option.map_eq_some_iff.mp hcall
  refine ⟨?_, .inl ⟨file, page, waiters, hp⟩⟩
  rcases hl.phase hf with ⟨token, hphase⟩ | ⟨outcome, hphase⟩
  · exact ⟨found.call, token, hphase ▸ hf⟩
  · simp [outcome?, hf, hphase, Phase.outcome?] at houtcome

-- Two pages do not wait for the same fetch, nor does a page wait for two.
theorem InFlight.unique (h : pool.InFlight fetch) (hs : pool.Sound plans) {other : FetchId}
    (ho : pool.InFlight other) {call asked : Call} (hc : pool.call? fetch = some call)
    (ha : pool.call? other = some asked) (hf : asked.file = call.file)
    (hp : asked.offset = call.offset) : other = fetch := by
  obtain ⟨file, page, waiters, hpage⟩ := h.exists_page hs
  obtain ⟨otherFile, otherPage, others, hother⟩ := ho.exists_page hs
  have hcall := (hs.backed.fetching _ _ _ _ hpage).1
  have hasked := (hs.backed.fetching _ _ _ _ hother).1
  cases hc.symm.trans hcall
  cases ha.symm.trans hasked
  cases hf
  cases hp
  cases hpage.symm.trans hother
  rfl

-- The pages that wait and the fetches under way are one to one.
theorem exists_waiting_iff (hs : pool.Sound plans) (hl : pool.Launched)
    (file : FileId) (page : Nat) :
    (∃ fetch waiters, pool.pageAt? file page = some (.fetching fetch waiters)) ↔
      ∃! fetch, pool.InFlight fetch ∧
        pool.call? fetch = some ⟨file, page, pool.limits.pageSize⟩ := by
  constructor
  · rintro ⟨fetch, waiters, hp⟩
    have hcall := (hs.backed.fetching file page fetch waiters hp).1
    have hflight := inFlight_of_page hs hl hp
    refine ⟨fetch, ⟨hflight, hcall⟩, fun other ho => ?_⟩
    exact hflight.unique hs ho.1 hcall ho.2 rfl rfl
  · rintro ⟨fetch, ⟨hf, hcall⟩, _⟩
    obtain ⟨other, name, waiters, hp⟩ := hf.exists_page hs
    cases hcall.symm.trans (hs.backed.fetching other name fetch waiters hp).1
    exact ⟨fetch, waiters, hp⟩

end Pool

namespace Mount

variable {σ τ : Type}

-- The fetches under way are of pages that wait, and no page has two of them: storage is never
-- asked for a page while it is still being read. If reads take prompt turns when they start,
-- each fetch is one read of storage, which begins in the step that creates its page, and every
-- page that waits has its own.
theorem single_flight (backend : Backend σ τ) (limits : Limits) (storage : σ)
    (acts : List (Act σ)) :
    let pool := (run backend (create limits storage) acts).pool
    (∀ fetch, pool.InFlight fetch → ∃ file page waiters,
      pool.pageAt? file page = some (.fetching fetch waiters) ∧
      pool.call? fetch = some ⟨file, page, limits.pageSize⟩ ∧ limits.pageSize ∣ page) ∧
    (∀ fetch other call asked, pool.InFlight fetch → pool.InFlight other →
      pool.call? fetch = some call → pool.call? other = some asked →
      asked.file = call.file → asked.offset = call.offset → other = fetch) ∧
    ((∀ act ∈ acts, act.Prompt) →
      issued backend (create limits storage) acts = pool.fetches.toList.map (·.call) ∧
      (∀ fetch ∈ pool.fetches, (∃ token, fetch.phase = .running token) ∨
        ∃ outcome, fetch.phase = .complete outcome) ∧
      ∀ file page, (∃ fetch waiters, pool.pageAt? file page = some (.fetching fetch waiters)) ↔
        ∃! fetch, pool.InFlight fetch ∧
          pool.call? fetch = some ⟨file, page, limits.pageSize⟩) := by
  intro pool
  obtain ⟨plans, hs, hlimits⟩ := exists_steady backend limits storage acts
  have hserved := served_anything backend limits storage acts
  refine ⟨fun fetch hf => ?_, ?_, fun hp => ?_⟩
  · obtain ⟨file, page, waiters, hp⟩ := hf.exists_page hs.sound
    have hcall := (hs.sound.backed.fetching file page fetch waiters hp).1
    obtain ⟨found, hfound, he⟩ := Option.map_eq_some_iff.mp hcall
    have hasks := (hserved.pool fetch found hfound).1
    rw [he] at hasks
    exact ⟨file, page, waiters, hp, hlimits ▸ hcall, hasks.2⟩
  · intro fetch other call asked hf ho hc ha hfile hoffset
    exact hf.unique hs.sound ho hc ha hfile hoffset
  · obtain ⟨hissued, hlaunched⟩ := issued_eq_calls backend limits storage hp
    refine ⟨hissued, fun fetch hf => ?_, fun file page => ?_⟩
    · obtain ⟨id, hid⟩ := Array.getElem?_of_mem hf
      exact hlaunched.phase hid
    · rw [← hlimits]
      exact Pool.exists_waiting_iff hs.sound hlaunched file page

-- Two reads wait for the page that the gate holds back, and share the one fetch of it.
def untilShared : List (Act (Gates × Memory)) :=
  [.ask (.read 0 1 8 .all), .ask (.read 0 4 2 .all)]

theorem gated_single_flight :
    let pool := (run Memory.backend (create fourByteLimits gatedStorage) untilShared).pool
    (∀ act ∈ untilShared, act.Prompt) ∧
    pool.pageAt? 0 4 = some (.fetching 1 [0, 1]) ∧
    (issued Memory.backend (create fourByteLimits gatedStorage) untilShared).length = 3 ∧
    ∃! fetch, pool.InFlight fetch ∧ pool.call? fetch = some ⟨0, 4, 4⟩ := by
  intro pool
  have hp : ∀ act ∈ untilShared, act.Prompt := by
    simp only [untilShared, List.forall_mem_cons]
    exact ⟨Turns.prompt_all, Turns.prompt_all, fun _ hm => nomatch hm⟩
  obtain ⟨_, _, hprompt⟩ :=
    single_flight Memory.backend fourByteLimits gatedStorage untilShared
  obtain ⟨hissued, _, hwaiting⟩ := hprompt hp
  have hpage : pool.pageAt? 0 4 = some (.fetching 1 [0, 1]) := by decide
  exact ⟨hp, hpage, hissued ▸ by decide, (hwaiting 0 4).mp ⟨1, [0, 1], hpage⟩⟩

end Mount

end PageCache
