import PageCache.Proofs.Launching
import PageCache.Proofs.Updates

namespace PageCache

theorem Page.fetch_wait (read : ReadId) (page : Page) : (page.wait read).fetch = page.fetch := by
  cases page <;> rfl

namespace FileCache

variable {cached : FileCache} {page name : Nat} {found : Page}

theorem find?_of_refresh {attributes : Attributes}
    (h : (cached.refresh attributes).pages.find? page = some found) :
    cached.pages.find? page = some found := by
  unfold refresh at h
  split at h
  · exact (find?_drop_eq_some_iff.mp h).2
  · exact h

theorem find?_of_load {fetch : FetchId} {data : Bytes} {attributes : Attributes}
    (h : (cached.load page fetch data attributes).pages.find? name = some found) :
    name = page ∧ found = .loaded fetch data ∨ cached.pages.find? name = some found := by
  have hstored : (cached.pages.insert page (.loaded fetch data)).find? name = some found := by
    unfold load at h
    split at h
    · exact (find?_drop_eq_some_iff.mp h).2
    · exact h
  rw [LruMap.find?_insert] at hstored
  by_cases hn : name = page
  · rw [if_pos hn, Option.some.injEq] at hstored
    exact .inl ⟨hn, hstored.symm⟩
  · rw [if_neg hn] at hstored
    exact .inr hstored

end FileCache

namespace Pool

variable {τ : Type} {pool middle next : Pool τ} {file : FileId}
  {spanned : FileId → Nat → Prop}

-- Whatever a file holds later on, it has held all the while, but for the pages that were
-- looked up in between. Those may have come with new fetches.
structure Renews (pool next : Pool τ) (spanned : FileId → Nat → Prop) : Prop where
  limits : next.limits = pool.limits
  size : pool.fetches.size ≤ next.fetches.size
  page : ∀ file page found, next.pageAt? file page = some found →
    (∃ old, pool.pageAt? file page = some old ∧ old.fetch = found.fetch) ∨
      spanned file page ∧ pool.fetches.size ≤ found.fetch

theorem Renews.refl (pool : Pool τ) : pool.Renews pool spanned where
  limits := rfl
  size := Nat.le_refl _
  page _ _ found hp := .inl ⟨found, hp, rfl⟩

theorem Renews.trans (h : pool.Renews middle spanned) (hn : middle.Renews next spanned) :
    pool.Renews next spanned where
  limits := hn.limits.trans h.limits
  size := h.size.trans hn.size
  page file page found hp := by
    rcases hn.page file page found hp with ⟨old, hold, he⟩ | ⟨hs, hle⟩
    · rw [← he]
      exact h.page file page old hold
    · exact .inr ⟨hs, h.size.trans hle⟩

theorem Renews.mono (h : pool.Renews next spanned) {wider : FileId → Nat → Prop}
    (hw : ∀ file page, spanned file page → wider file page) : pool.Renews next wider where
  limits := h.limits
  size := h.size
  page file page found hp := (h.page file page found hp).imp_right (.imp_left (hw file page))

theorem Renews.absent (h : pool.Renews next spanned) {page : Nat}
    (hp : pool.pageAt? file page = none) (hs : ¬ spanned file page) :
    next.pageAt? file page = none := by
  by_contra hn
  obtain ⟨found, hfound⟩ := Option.ne_none_iff_exists'.mp hn
  rcases h.page file page found hfound with ⟨old, hold, _⟩ | ⟨hspanned, _⟩
  · cases hp.symm.trans hold
  · exact hs hspanned

-- What was not there can only be got with a fetch of later on.
theorem Renews.le_of_sources (h : pool.Renews next spanned) {page : Nat} {fetch : FetchId}
    (hp : pool.pageAt? file page = none) (hs : next.Sources file page fetch) :
    pool.fetches.size ≤ fetch := by
  rcases hs with ⟨found, hfound, rfl⟩ | hle
  · rcases h.page file page found hfound with ⟨old, hold, _⟩ | ⟨_, hle⟩
    · cases hp.symm.trans hold
    · exact hle
  · exact h.size.trans hle

-- A file that changes keeps some of its pages, and gets no new ones.
theorem Updates.renews {change : FileCache → FileCache} (h : pool.Updates next file change)
    (hl : next.limits = pool.limits) (hx : next.fetches = pool.fetches)
    (hc : ∀ cached page found, pool.files.find? file = some cached →
      (change cached).pages.find? page = some found →
        ∃ old, cached.pages.find? page = some old ∧ old.fetch = found.fetch) :
    pool.Renews next spanned where
  limits := hl
  size := Nat.le_of_eq (congrArg Array.size hx).symm
  page other page found hp := by
    refine .inl ?_
    obtain ⟨left, hleft, hfound⟩ := Option.bind_eq_some_iff.mp hp
    rw [h.find? other] at hleft
    by_cases ho : other = file
    · subst ho
      rw [if_pos rfl] at hleft
      obtain ⟨cached, hf, rfl⟩ := Option.map_eq_some_iff.mp hleft
      obtain ⟨old, hold, he⟩ := hc cached page found hf hfound
      exact ⟨old, by rw [pageAt?, hf, Option.bind_some, hold], he⟩
    · rw [if_neg ho] at hleft
      exact ⟨found, by rw [pageAt?, hleft, Option.bind_some, hfound], rfl⟩

theorem limits_dropPages (pool : Pool τ) (file : FileId) (pages : List Nat) (event : Event) :
    (pool.dropPages file pages event).limits = pool.limits := limits_require ..

theorem renews_dropPages (pool : Pool τ) (file : FileId) (pages : List Nat) (event : Event) :
    pool.Renews (pool.dropPages file pages event) spanned :=
  (updates_dropPages pool file pages event).renews (limits_dropPages ..) (fetches_dropPages ..)
    fun _ _ found _ hp => ⟨found, (FileCache.find?_drop_eq_some_iff.mp hp).2, rfl⟩

theorem renews_removeFile {cached : FileCache} (hf : pool.files.find? file = some cached) :
    pool.Renews (pool.removeFile file) spanned where
  limits := by
    simp only [removeFile, hf]
    exact limits_require ..
  size := by
    have hx : (pool.removeFile file).fetches = pool.fetches := by
      simp only [removeFile, hf]
      exact fetches_require ..
    exact Nat.le_of_eq (congrArg Array.size hx).symm
  page other page found hp := by
    refine .inl ⟨found, ?_, rfl⟩
    obtain ⟨left, hleft, hfound⟩ := Option.bind_eq_some_iff.mp hp
    rw [files_removeFile hf] at hleft
    rw [pageAt?, (LruMap.find?_of_erase hleft).2, Option.bind_some, hfound]

theorem renews_createPage {cached : FileCache} (hf : pool.files.find? file = some cached)
    {page : Nat} (hs : spanned file page) : pool.Renews (pool.createPage file page) spanned where
  limits := rfl
  size := by
    change pool.fetches.size ≤ (pool.fetches.push _).size
    rw [Array.size_push]
    omega
  page other name found hp := by
    rw [pageAt?_createPage hf] at hp
    by_cases hn : other = file ∧ name = page
    · obtain ⟨rfl, rfl⟩ := hn
      rw [if_pos ⟨rfl, rfl⟩, Option.some.injEq] at hp
      exact .inr ⟨hs, hp ▸ Nat.le_refl _⟩
    · rw [if_neg hn] at hp
      exact .inl ⟨found, hp, rfl⟩

theorem renews_load {wait : Wait} {waiters : List ReadId} {data : Bytes}
    {attributes : Attributes}
    (hp : pool.pageAt? file wait.page = some (.fetching wait.fetch waiters)) :
    pool.Renews (pool.load file wait waiters data attributes) spanned := by
  obtain ⟨cached, hf, hpage⟩ := Option.bind_eq_some_iff.mp hp
  refine (updates_load hf wait waiters data attributes).renews ?_ (fetches_load ..) ?_
  · unfold load
    simp only
    split
    · exact (trims_dropStale ..).limits
    · rfl
  · intro other name found hother hfound
    cases hf.symm.trans hother
    rcases FileCache.find?_of_load hfound with ⟨rfl, rfl⟩ | hold
    · exact ⟨_, hpage, rfl⟩
    · exact ⟨found, hold, rfl⟩

theorem Move.renews {op : Op} (h : Move op pool next) :
    pool.Renews next (op.Spans pool.limits) := by
  cases h with
  | aside h =>
      refine ⟨h.limits, ?_, fun other name found hp => .inl ⟨found, ?_, rfl⟩⟩
      · rw [← length_calls, ← length_calls, calls_eq_of_call? h.calls]
      · rwa [pageAt?, h.files] at hp
  | enter =>
      obtain ⟨hl, hx, _⟩ := enter_frame pool _
      refine ⟨hl, Nat.le_of_eq (congrArg Array.size hx).symm, fun other name found hp => ?_⟩
      rw [pageAt?_enter] at hp
      exact .inl ⟨found, hp, rfl⟩
  | create hs hf => exact renews_createPage hf hs
  | wait file page id =>
      refine (updates_modifyFile ..).renews rfl rfl fun cached name found _ hp => ?_
      rw [LruMap.find?_modify] at hp
      split at hp
      · obtain ⟨old, hold, rfl⟩ := Option.map_eq_some_iff.mp hp
        exact ⟨old, hold, (old.fetch_wait id).symm⟩
      · exact ⟨found, hp, rfl⟩
  | use file page =>
      refine (updates_modifyFile ..).renews rfl rfl fun cached name found _ hp => ?_
      rw [LruMap.find?_touch] at hp
      exact ⟨found, hp, rfl⟩
  | load hp => exact renews_load hp
  | fail => exact renews_dropPages ..
  | evict => exact renews_dropPages ..
  | remove hf => exact renews_removeFile hf
  | part file =>
      exact (updates_modifyFile ..).renews rfl rfl fun _ _ found _ hp => ⟨found, hp, rfl⟩
  | mark file =>
      exact (updates_modifyFile ..).renews rfl rfl fun _ _ found _ hp => ⟨found, hp, rfl⟩
  | @invalidate file =>
      have htrims := trims_invalidate pool file
      exact (updates_invalidate pool file).renews htrims.limits htrims.fetches
        fun _ _ found _ hp => ⟨found, (FileCache.find?_drop_eq_some_iff.mp hp).2, rfl⟩
  | @revalidate file attributes =>
      have htrims := trims_revalidate pool file attributes
      exact (updates_revalidate pool file attributes).renews htrims.limits htrims.fetches
        fun _ _ found _ hp => ⟨found, FileCache.find?_of_refresh hp, rfl⟩

theorem Moves.renews {op : Op} (h : Moves op pool next) :
    pool.Renews next (op.Spans pool.limits) := by
  induction h with
  | refl => exact .refl pool
  | tail _ hlast ih =>
      have hrenews := hlast.renews
      rw [ih.limits] at hrenews
      exact ih.trans hrenews

end Pool

namespace Mount

variable {σ τ : Type}

-- Only a read that spans a page can bring it in, and never with a fetch of before.
theorem renews_run (backend : Backend σ τ) (mount : Mount σ τ) (acts : List (Act σ)) :
    mount.pool.Renews (mount.run backend acts).pool fun file page =>
      ∃ op, .ask op ∈ acts ∧ op.Spans mount.pool.limits file page := by
  induction acts generalizing mount with
  | nil => exact .refl mount.pool
  | cons act rest ih =>
      cases act with
      | change become =>
          have hrest := ih { mount with storage := become mount.storage }
          exact hrest.mono fun file page ⟨op, hm, hs⟩ => ⟨op, List.mem_cons_of_mem _ hm, hs⟩
      | ask op =>
          have hstep := (moves_step backend mount op).renews
          have hrest := ih (mount.step backend op).1
          rw [hstep.limits] at hrest
          refine Pool.Renews.trans ?_ (hrest.mono fun file page ⟨other, hm, hs⟩ => ?_)
          · exact hstep.mono fun file page hs => ⟨op, List.mem_cons_self, hs⟩
          · exact ⟨other, List.mem_cons_of_mem _ hm, hs⟩

end Mount

end PageCache
