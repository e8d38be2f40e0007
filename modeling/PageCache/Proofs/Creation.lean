import PageCache.Proofs.Registration

namespace PageCache

namespace Pool

variable {τ : Type}

variable {pool : Pool τ} {file : FileId} {page : Nat}

theorem call?_createPage (pool : Pool τ) (file : FileId) (page : Nat) (fetch : FetchId) :
    (pool.createPage file page).call? fetch =
      if fetch = pool.fetches.size then some ⟨file, page, pool.limits.pageSize⟩
      else pool.call? fetch := by
  simp only [call?, createPage, grow, setUsed, emit, modifyFile, Array.getElem?_push]
  split <;> rfl

theorem calls_createPage (pool : Pool τ) (file : FileId) (page : Nat) {fetch : FetchId}
    {call : Call} (hc : pool.call? fetch = some call) :
    (pool.createPage file page).call? fetch = some call := by
  rw [call?_createPage, if_neg, hc]
  rintro rfl
  rw [call?_eq_none_iff.mpr (Nat.le_refl _)] at hc
  cases hc

theorem outcome?_createPage (pool : Pool τ) (file : FileId) (page : Nat) :
    (pool.createPage file page).outcome? = pool.outcome? := by
  funext fetch
  simp only [outcome?, createPage, grow, setUsed, emit, modifyFile, Array.getElem?_push]
  split
  · rename_i he
    simp [he, Phase.outcome?]
  · rfl

theorem failures_createPage (pool : Pool τ) (file : FileId) (page : Nat) :
    (pool.createPage file page).failures = pool.failures :=
  (failures_emit _ _).trans (List.append_nil _)

theorem pageAt?_createPage {cached : FileCache} (hf : pool.files.find? file = some cached)
    (other : FileId) (name : Nat) :
    (pool.createPage file page).pageAt? other name =
      if other = file ∧ name = page then some (.fetching pool.fetches.size [])
      else pool.pageAt? other name := by
  have hm : (pool.createPage file page).pageAt? other name =
      if other = file then (pool.files.find? other).bind fun cached =>
        (cached.pages.insert page (.fetching pool.fetches.size [])).find? name
      else pool.pageAt? other name := pageAt?_modifyFile _ file other _ name
  rw [hm]
  by_cases ho : other = file
  · subst ho
    simp only [hf, Option.bind_some, pageAt?, LruMap.find?_insert, true_and, if_true]
  · simp only [ho, if_false, false_and]

theorem Ordered.createPage (h : pool.Ordered) (file : FileId) (page : Nat) :
    (pool.createPage file page).Ordered := by
  have hm : (pool.modifyFile file fun cached =>
      { cached with
        pages := cached.pages.insert page (.fetching pool.fetches.size []) }).Ordered :=
    h.modifyFile file fun _ _ hc => hc.insert _ _
  exact hm.of_files rfl

theorem Leased.createPage (h : pool.Leased) (file : FileId) (page : Nat) :
    (pool.createPage file page).Leased :=
  h.of_tenancy rfl rfl fun other => tenancy_modifyFile pool file other (fun _ => rfl) fun _ => rfl

section Present

variable {cached : FileCache}

theorem Backed.createPage (h : pool.Backed) (hf : pool.files.find? file = some cached)
    (page : Nat) : (pool.createPage file page).Backed := by
  have hlimits : (pool.createPage file page).limits = pool.limits := rfl
  refine ⟨?_, ?_, ?_, ?_⟩
  · intro other name fetch waiters hw
    rw [pageAt?_createPage hf] at hw
    rw [outcome?_createPage, hlimits]
    split at hw
    · rename_i he
      cases hw
      rw [call?_createPage, if_pos rfl, he.1, he.2]
      exact ⟨rfl, outcome?_eq_none_of_call? (call?_eq_none_iff.mpr (Nat.le_refl _))⟩
    · obtain ⟨hc, ho⟩ := h.fetching other name fetch waiters hw
      exact ⟨calls_createPage pool file page hc, ho⟩
  · intro other name fetch data hl
    rw [pageAt?_createPage hf] at hl
    rw [outcome?_createPage, hlimits]
    split at hl
    · cases hl
    · obtain ⟨hc, ho⟩ := h.loaded other name fetch data hl
      exact ⟨calls_createPage pool file page hc, ho⟩
  · rw [failures_createPage, outcome?_createPage]
    exact h.failed
  · rw [outcome?_createPage]
    exact h.sized

-- The page that is created is not one that the read looks at.
theorem Reads.createPage {read : LiveRead} {plan : Plan} (h : pool.Reads read plan)
    (hf : pool.files.find? file = some cached) (hp : pool.pageAt? file page = none) :
    (pool.createPage file page).Reads read plan := by
  refine ⟨h.file, h.nodup, h.planned, fun name fetch hm ho => ?_⟩
  rw [outcome?_createPage] at ho
  obtain ⟨hw, waiters, hfetching⟩ := h.unseen name fetch hm ho
  refine ⟨hw, waiters, ?_⟩
  rw [pageAt?_createPage hf, if_neg, hfetching]
  rintro ⟨hfile, rfl⟩
  rw [hfile, hp] at hfetching
  cases hfetching

-- No read has heard of the fetch that the page comes with.
theorem Tracks.createPage {id : ReadId} {plan : Plan} (h : pool.Tracks id plan)
    (hf : pool.files.find? file = some cached) (hp : pool.pageAt? file page = none) :
    (pool.createPage file page).Tracks id plan := by
  have hgather : (pool.createPage file page).gatherings = pool.gatherings := rfl
  refine ⟨?_, h.pages, ?_, ?_, fun read hr hid => (h.reading read hr hid).createPage hf hp⟩
  · rw [hgather, outcome?_createPage, failures_createPage]
    exact h.gathering
  · exact fun name fetch hm => calls_createPage pool file page (h.calls name fetch hm)
  · intro other name fetch waiters hw
    rw [pageAt?_createPage hf] at hw
    split at hw
    · cases hw
      refine iff_of_false List.not_mem_nil fun hm => ?_
      have hc := h.calls name _ hm.2
      rw [call?_eq_none_iff.mpr (Nat.le_refl _)] at hc
      cases hc
    · exact h.waiting other name fetch waiters hw

-- A page that no read waits for comes with a fetch that was never heard of.
theorem sound_createPage {plans : ReadId → Plan} (hs : pool.Sound plans)
    (hf : pool.files.find? file = some cached) (hp : pool.pageAt? file page = none) :
    (pool.createPage file page).Sound plans where
  ordered := hs.ordered.createPage file page
  leased := hs.leased.createPage file page
  backed := hs.backed.createPage hf page
  waiters other name fetch waiters hw := by
    rw [pageAt?_createPage hf] at hw
    split at hw
    · cases hw
      exact ⟨List.Pairwise.nil, fun _ hm => (List.not_mem_nil hm).elim⟩
    · exact hs.waiters other name fetch waiters hw
  tracked id hid := (hs.tracked id hid).createPage hf hp

end Present

end Pool

end PageCache
