import PageCache.Proofs.Accounting
import PageCache.Proofs.Issuing
import PageCache.Proofs.Renewal
import PageCache.Proofs.Transparency
import PageCache.Proofs.Versions

namespace PageCache

theorem LruMap.size_eq_zero {α : Type} {map : LruMap α} (h : ∀ key, map.find? key = none) :
    map.size = 0 := by
  cases hs : map.slots with
  | nil => rw [size, hs, List.length_nil]
  | cons slot rest =>
      have hfirst := h slot.key
      simp [find?, slot?, hs] at hfirst

theorem FileCache.find?_eraseAll_unwaited {cached : FileCache} (h : cached.pages.Ordered)
    (page : Nat) :
    (cached.pages.eraseAll cached.unwaited).find? page =
      (cached.pages.find? page).filter Page.isWaited := by
  have hm : page ∈ cached.unwaited ↔
      ∃ found, cached.pages.find? page = some found ∧ found.isWaited = false := by
    simp only [unwaited, List.mem_filter, h.mem_keys, isWaited]
    constructor
    · rintro ⟨⟨found, hp⟩, hw⟩
      exact ⟨found, hp, by simpa [hp] using hw⟩
    · rintro ⟨found, hp, hw⟩
      exact ⟨⟨found, hp⟩, by simp [hp, hw]⟩
  rw [LruMap.find?_eraseAll]
  cases hp : cached.pages.find? page with
  | none => simp
  | some found =>
      by_cases hw : found.isWaited = true
      · have hn : page ∉ cached.unwaited := by simp [hm, hp, hw]
        rw [if_neg hn, Option.filter, if_pos hw]
      · have hy : page ∈ cached.unwaited := hm.mpr ⟨found, hp, by simpa using hw⟩
        rw [if_pos hy, Option.filter, if_neg hw]

namespace Pool

variable {τ : Type} {pool next : Pool τ} {file : FileId} {page dropped : Nat}

-- Nobody is on the list of those that wait for the page.
def Unwaited (pool : Pool τ) (file : FileId) (page : Nat) : Prop :=
  ∀ found, pool.pageAt? file page = some found → found.isWaited = false

-- The pages of a file that nobody waits for are gone, and off the count.
structure Clears (pool next : Pool τ) (file : FileId) (dropped : Nat) : Prop where
  page : ∀ page, next.pageAt? file page = (pool.pageAt? file page).filter Page.isWaited
  size : (next.resident file).pages.size + dropped = (pool.resident file).pages.size
  used : next.pagesUsed + dropped = pool.pagesUsed

theorem Clears.absent (h : pool.Clears next file dropped) (hu : pool.Unwaited file page) :
    next.pageAt? file page = none := by
  rw [h.page page]
  cases hp : pool.pageAt? file page with
  | none => rfl
  | some found => simp [Option.filter, hu found hp]

theorem Clears.all (h : pool.Clears next file dropped) (hu : ∀ page, pool.Unwaited file page) :
    dropped = (pool.resident file).pages.size := by
  have hzero : (next.resident file).pages.size = 0 := by
    apply LruMap.size_eq_zero
    intro page
    rw [pages_resident]
    exact h.absent (hu page)
  have hsize := h.size
  omega

theorem clears_of_none (hf : pool.files.find? file = none) : pool.Clears pool file 0 where
  page page := by
    rw [pageAt?, hf]
    rfl
  size := rfl
  used := rfl

-- A file may be annotated before its pages are dropped.
theorem clears_dropPages (ho : pool.Ordered) (ha : pool.Accounted) {cached : FileCache}
    (hf : pool.files.find? file = some cached) {change : FileCache → FileCache}
    (hc : (change cached).pages = cached.pages) (event : Event) :
    pool.Clears ((pool.modifyFile file change).dropPages file cached.unwaited event) file
      cached.unwaited.length := by
  have hordered := ho.pages file cached hf
  have hfound := ((updates_modifyFile pool file change).trans
    (updates_dropPages _ file cached.unwaited event)).find? file
  rw [if_pos rfl, hf, Option.map_some, Function.comp_apply] at hfound
  have hsize := hordered.size_eraseAll (hordered.nodup_keys.sublist cached.unwaited_sublist)
    cached.unwaited_sublist.subset
  have hheld := ho.files.total_erase (·.pages.size) hf
  have hused := ha.used
  refine ⟨fun page => ?_, ?_, ?_⟩
  · simp only [pageAt?, hfound, hf, Option.bind_some, FileCache.drop, hc]
    exact FileCache.find?_eraseAll_unwaited hordered page
  · simp only [resident, hfound, hf, Option.getD_some, FileCache.drop, hc]
    exact hsize
  · change pool.pagesUsed - cached.unwaited.length + cached.unwaited.length = pool.pagesUsed
    rw [pagesHeld] at hused
    omega

theorem clears_invalidate (ho : pool.Ordered) (ha : pool.Accounted) (file : FileId) :
    pool.Clears (pool.invalidate file).1 file (pool.invalidate file).2 := by
  unfold invalidate
  split
  · rename_i hf
    exact clears_of_none hf
  · rename_i cached hf
    exact clears_dropPages ho ha hf rfl _

theorem clears_revalidate (ho : pool.Ordered) (ha : pool.Accounted) {attributes : Attributes}
    (hr : (pool.revalidate file attributes).2 = false) :
    ∃ dropped, pool.Clears (pool.revalidate file attributes).1 file dropped := by
  unfold revalidate at hr ⊢
  split
  · rename_i hf
    simp [hf] at hr
  · rename_i cached hf
    by_cases hs : cached.isStale attributes = true
    · simp only [hs, if_true]
      exact ⟨_, clears_dropPages ho ha hf rfl _⟩
    · simp [hf, hs] at hr

end Pool

namespace Mount

variable {σ τ : Type} {backend : Backend σ τ} {mount : Mount σ τ} {file : FileId}

-- The pages of a file are invalidated, be it outright or because the file has changed.
def Invalidates (backend : Backend σ τ) (mount : Mount σ τ) (op : Op) (file : FileId) : Prop :=
  op = .invalidate file ∨ ∃ attributes, op = .revalidate file attributes ∧
    (mount.step backend op).2 = .flag false

theorem Invalidates.clears {op : Op} (h : mount.Invalidates backend op file)
    (ho : mount.pool.Ordered) (ha : mount.pool.Accounted) :
    ∃ dropped, mount.pool.Clears (mount.step backend op).1.pool file dropped ∧
      (op = .invalidate file → (mount.step backend op).2 = .number dropped) := by
  rcases h with rfl | ⟨attributes, rfl, hfalse⟩
  · exact ⟨_, Pool.clears_invalidate ho ha file, fun _ => rfl⟩
  · obtain ⟨dropped, hclears⟩ := Pool.clears_revalidate ho ha (Answer.flag.inj hfalse)
    exact ⟨dropped, hclears, fun he => nomatch he⟩

-- Each segment of a reply is what a page has of the range, and the page comes from a fetch.
theorem Returns.sourced {final : Mount σ τ} {plans : ReadId → Plan} {offset length : Nat}
    {acts : List (Act σ)} {reply : Reply}
    (h : Returns backend mount file offset length acts (.ok reply) final)
    (hs : mount.pool.Steady plans) {segment : Segment} (hm : segment ∈ reply.segments) :
    ∃ page fetch data attributes, mount.pool.Sources file page fetch ∧
      final.pool.call? fetch = some ⟨file, page, mount.pool.limits.pageSize⟩ ∧
      final.pool.outcome? fetch = some (.ok (data, attributes)) ∧
      Gathering.overlap { offset := offset, stop := offset + length } page data = some segment := by
  rcases h.ok_cases with ⟨_, rfl⟩ | ⟨hl, hw⟩
  · cases hm
  · obtain ⟨_, _, hsegments⟩ := h.reply hs hl hw
    rw [hsegments] at hm
    obtain ⟨found, hfound, hoverlap⟩ :=
      List.mem_filterMap.mp (Gathering.contiguous_subset _ _ hm)
    obtain ⟨part, hp, he⟩ := List.mem_filterMap.mp hfound
    obtain ⟨fetch, data, attributes, hsource, hc, ho, hdata⟩ := h.answered hs hl hw hp
    rw [hdata, Option.map_some, Option.some.injEq] at he
    subst he
    exact ⟨part.page, fetch, data, attributes, hsource, hc, ho, hoverlap⟩

-- An invalidation takes exactly the pages that nobody is on the list for. It tells their
-- number, and they are off the count. What is read of them afterwards has to be fetched
-- again: no reply has bytes of such a page from a fetch of before.
theorem unwaited_cleared (backend : Backend σ τ) (limits : Limits) (storage : σ)
    (before : List (Act σ)) {file : FileId} {op : Op}
    (hop : (run backend (create limits storage) before).Invalidates backend op file) :
    let mount := run backend (create limits storage) before
    let next := (mount.step backend op).1
    (∃ dropped, (op = .invalidate file → (mount.step backend op).2 = .number dropped) ∧
      (∀ page, next.pool.pageAt? file page =
        (mount.pool.pageAt? file page).filter Page.isWaited) ∧
      (next.pool.resident file).pages.size + dropped = (mount.pool.resident file).pages.size ∧
      next.pool.pagesUsed + dropped = mount.pool.pagesUsed ∧
      ((∀ page, mount.pool.Unwaited file page) →
        dropped = (mount.pool.resident file).pages.size)) ∧
    ∀ rest, let acts := before ++ .ask op :: rest
      (∀ page, mount.pool.Unwaited file page →
        (∀ other, .ask other ∈ rest → ¬ other.Spans limits file page) →
        ∀ offset length turns, 0 < length → offset + length < wordLimit → turns.Thorough →
          page ∈ limits.span offset (offset + length) → ∃ calls,
            issued backend (create limits storage)
                (acts ++ [.ask (.read file offset length turns)]) =
              issued backend (create limits storage) acts ++ calls ∧
            ⟨file, page, limits.pageSize⟩ ∈ calls) ∧
      ∀ offset length later reply final,
        Returns backend (run backend (create limits storage) acts) file offset length later
          (.ok reply) final →
        ∀ segment ∈ reply.segments, ∃ page fetch data attributes,
          final.pool.Answered backend fetch ⟨file, page, limits.pageSize⟩ data attributes ∧
          Gathering.overlap { offset := offset, stop := offset + length } page data =
            some segment ∧
          (mount.pool.Unwaited file page →
            (issued backend (create limits storage) before).length ≤ fetch) := by
  intro mount next
  obtain ⟨plans, hs, hlimits⟩ := exists_steady backend limits storage before
  obtain ⟨dropped, hclears, hanswer⟩ :=
    hop.clears hs.sound.ordered (accounted_run backend limits storage before)
  refine ⟨⟨dropped, hanswer, hclears.page, hclears.size, hclears.used, hclears.all⟩, ?_⟩
  intro rest acts
  have hstep : mount.pool.Renews next.pool (op.Spans mount.pool.limits) :=
    (moves_step backend mount op).renews
  have hrest : next.pool.Renews (run backend (create limits storage) acts).pool
      fun file page => ∃ other, .ask other ∈ rest ∧ other.Spans limits file page := by
    have hrenews := renews_run backend next rest
    rw [hstep.limits, hlimits] at hrenews
    rw [run_append]
    exact hrenews
  obtain ⟨after, hafter, hsame⟩ := exists_steady backend limits storage acts
  refine ⟨?_, ?_⟩
  · -- the page is still not there, so that the read creates it
    intro page hu hr offset length turns hl hw ht hpage
    have habsent := hrest.absent (hclears.absent hu) fun ⟨other, hm, hspans⟩ => hr other hm hspans
    exact exists_issued_read backend limits storage acts file hl hw hpage habsent ht
  · -- the page may be back by the time of the read, but with a fetch of after the invalidation
    intro offset length later reply final hreturns segment hm
    obtain ⟨page, fetch, data, attributes, hsource, hc, ho, hoverlap⟩ :=
      hreturns.sourced hafter hm
    rw [hsame] at hc
    have hserved := hreturns.served (served_anything backend limits storage acts) hsame hafter
      fun act _ => backend.allows_givesAnything _ act
    refine ⟨page, fetch, data, attributes, hserved.answered hc ho, hoverlap, fun hu => ?_⟩
    refine (length_issued_le backend limits storage before).trans (hstep.size.trans ?_)
    exact hrest.le_of_sources (hclears.absent hu) hsource

theorem gated_unwaited_cleared :
    (gatedRun [.ask (.drop 0)]).Invalidates Memory.backend (.invalidate 0) 0 ∧
    (gatedRun [.ask (.drop 0)]).pool.Unwaited 0 8 ∧
    (∃ dropped, ((gatedRun [.ask (.drop 0)]).step Memory.backend (.invalidate 0)).2 =
        .number dropped ∧
      (gatedRun [.ask (.drop 0), .ask (.invalidate 0)]).pool.pagesUsed + dropped = 3) ∧
    (gatedRun [.ask (.drop 0), .ask (.invalidate 0)]).pool.pageAt? 0 8 = none ∧
    8 ∈ fourByteLimits.span 8 10 ∧
    ∃ calls, issued Memory.backend (create fourByteLimits gatedStorage)
        [.ask (.read 0 1 8 .all), .ask (.drop 0), .ask (.invalidate 0), .ask (.read 0 8 2 .all)] =
      issued Memory.backend (create fourByteLimits gatedStorage)
        [.ask (.read 0 1 8 .all), .ask (.drop 0), .ask (.invalidate 0)] ++ calls ∧
      ⟨0, 8, 4⟩ ∈ calls := by
  have hop : (gatedRun [.ask (.drop 0)]).Invalidates Memory.backend (.invalidate 0) 0 := .inl rfl
  have hu : (gatedRun [.ask (.drop 0)]).pool.Unwaited 0 8 := by
    intro found hf
    cases hf
    rfl
  have hspan : 8 ∈ fourByteLimits.span 8 10 := by decide
  obtain ⟨⟨dropped, hanswer, hpage, _, hused, _⟩, hlater⟩ :=
    unwaited_cleared Memory.backend fourByteLimits gatedStorage
      [.ask (.read 0 1 8 .all), .ask (.drop 0)] hop
  have hcalls := (hlater []).1 8 hu (fun _ hm => (List.not_mem_nil hm).elim) 8 2 .all
    (by decide) (by decide) Turns.prompt_all.thorough hspan
  exact ⟨hop, hu, ⟨dropped, hanswer rfl, hused⟩, hpage 8, hspan, hcalls⟩

-- A read that is dropped stays on the lists of the pages that it waited for. Such a page
-- outlives the invalidation, though no read is in progress, and a read of later on gets the
-- bytes that were asked for before.
theorem abandoned_page_kept :
    (gatedRun [.ask (.drop 0)]).pool.live = [] ∧
    ((gatedRun [.ask (.drop 0)]).pool.resident 0).pages.size = 3 ∧
    (gatedRun [.ask (.drop 0)]).pool.pagesUsed = 3 ∧
    ((gatedRun [.ask (.drop 0)]).step Memory.backend (.invalidate 0)).2 = .number 2 ∧
    (gatedRun [.ask (.drop 0), .ask (.invalidate 0)]).pool.pagesUsed = 1 ∧
    (gatedRun [.ask (.drop 0), .ask (.invalidate 0)]).pool.pageAt? 0 4 =
      some (.fetching 1 [0]) ∧
    ((gatedRun [.ask (.drop 0)]).step Memory.backend (.revalidate 0 ⟨11, 0⟩)).2 = .flag false ∧
    (gatedRun [.ask (.drop 0), .ask (.revalidate 0 ⟨11, 0⟩)]).pool.pageAt? 0 4 =
      some (.fetching 1 [0]) ∧
    issued Memory.backend (create fourByteLimits gatedStorage)
        [.ask (.read 0 1 8 .all), .ask (.drop 0), .ask (.invalidate 0),
          .change fun storage => (storage.1.release 0, storage.2), .ask (.read 0 4 4 .all)] =
      issued Memory.backend (create fourByteLimits gatedStorage)
        [.ask (.read 0 1 8 .all), .ask (.drop 0), .ask (.invalidate 0)] ∧
    ∃ final, Returns Memory.backend (gatedRun [.ask (.drop 0), .ask (.invalidate 0),
      .change fun storage => (storage.1.release 0, storage.2)]) 0 4 4 []
      (.ok ⟨[⟨4, [5, 6, 7, 8]⟩]⟩) final :=
  ⟨rfl, rfl, rfl, rfl, rfl, rfl, rfl, rfl, rfl, _, .all, .inl ⟨rfl, rfl⟩⟩

end Mount

end PageCache
