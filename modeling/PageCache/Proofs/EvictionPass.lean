import PageCache.Proofs.ReadOutcome
import PageCache.Proofs.Renewal
import PageCache.Proofs.Sweeping

namespace PageCache

namespace Pool

variable {τ : Type} {pool next : Pool τ} {file : FileId} {cached left : FileCache} {page : Nat}

-- How many pages are above the low watermark.
def excess (pool : Pool τ) : Nat := pool.pagesUsed - pool.limits.lowWatermark

-- A pass goes over the files in the order of use. It destroys `count` pages, the first of those
-- that it may destroy, and what it leaves of the pages and files stays as it was. A file goes if
-- nobody reads it, no page of it is left, and the pass got as far as to it.
structure Passes (pool next : Pool τ) (count : Nat) : Prop where
  number : count = min pool.excess pool.spares.length
  used : next.pagesUsed =
    if pool.pagesUsed ≤ pool.limits.lowWatermark then pool.pagesUsed
    else max pool.limits.lowWatermark (pool.entries.filter (!pool.evictable ·)).length
  counters : next.counters =
    { pool.counters with
      evictions := pool.counters.evictions + count
      pages := next.pagesUsed }
  pages : ∀ file page, next.pageAt? file page =
    if (file, page) ∈ pool.spares.take count then none else pool.pageAt? file page
  pageOrder : ∀ file, next.pagesOf file =
    (pool.pagesOf file).filter fun page => (file, page) ∉ pool.spares.take count
  fileOrder : next.files.keys = pool.files.keys.filter fun file => next.files.contains file
  kept : ∀ file left, next.files.find? file = some left → ∃ cached,
    pool.files.find? file = some cached ∧ left = { cached with pages := left.pages }
  removed : ∀ file cached, pool.files.find? file = some cached →
    (next.files.find? file = none ↔
      cached.readers = 0 ∧
      (∀ page ∈ pool.pagesOf file, (file, page) ∈ pool.spares.take count) ∧
      ∃ before after, pool.files.keys = before ++ file :: after ∧
        (pool.sparesOf before).length < pool.excess)
  limits : next.limits = pool.limits
  serials : next.serials = pool.serials
  fetches : next.fetches = pool.fetches
  gatherings : next.gatherings = pool.gatherings
  live : next.live = pool.live
  again : next.evict = (next, 0)

theorem Ordered.length_entries (ho : pool.Ordered) : pool.entries.length = pool.pagesHeld := by
  rw [entries, entriesOf, List.length_flatMap, pagesHeld, ho.files.total_eq_sum_keys]
  refine congrArg List.sum (List.map_congr_left fun file hm => ?_)
  obtain ⟨cached, hf⟩ := ho.files.mem_keys.mp hm
  rw [List.length_map, pagesOf, hf, Option.map_some, Option.getD_some]
  exact (ho.pages file cached hf).length_keys

-- A page can be evicted or it cannot.
theorem length_spares_add (ho : pool.Ordered) (ha : pool.Accounted) :
    pool.spares.length + (pool.entries.filter (!pool.evictable ·)).length = pool.pagesUsed := by
  have hsplit := List.length_eq_countP_add_countP pool.evictable (l := pool.entries)
  rw [List.countP_eq_length_filter, List.countP_eq_length_filter] at hsplit
  simpa [spares, ha.used, ← ho.length_entries] using hsplit.symm

theorem find?_evict (ho : pool.Ordered) (ha : pool.Accounted) {before after : List FileId}
    (hk : pool.files.keys = before ++ file :: after) :
    pool.evict.1.files.find? file =
      (pool.files.find? file).bind (·.swept? (pool.excess - (pool.sparesOf before).length)) := by
  have hn := ho.files.nodup_keys
  rw [hk] at hn
  rw [files_evict_eq, swept, hk]
  exact find?_sweeps ho ha.gauge hn _

theorem find?_evict_of_none (ho : pool.Ordered) (ha : pool.Accounted)
    (hf : pool.files.find? file = none) : pool.evict.1.files.find? file = none := by
  have hm : file ∉ pool.files.keys := fun hm => by
    obtain ⟨cached, hc⟩ := ho.files.mem_keys.mp hm
    exact nomatch hf.symm.trans hc
  rw [files_evict_eq]
  exact (find?_sweeps_of_notMem ho ha.gauge hm _).trans hf

theorem mem_victims_iff (ho : pool.Ordered) (hf : pool.files.find? file = some cached)
    {before after : List FileId} (hk : pool.files.keys = before ++ file :: after) (page : Nat) :
    page ∈ cached.victims (pool.excess - (pool.sparesOf before).length) ↔
      (file, page) ∈ pool.spares.take pool.excess := by
  have hn := ho.files.nodup_keys
  rw [hk] at hn
  have hspares : pool.spares = pool.sparesOf pool.files.keys := rfl
  rw [hspares, hk, mem_take_sparesOf hn, spareOf_eq hf, FileCache.victims_eq_take]

theorem exists_split (ho : pool.Ordered) (hf : pool.files.find? file = some cached) :
    ∃ before after, pool.files.keys = before ++ file :: after :=
  List.append_of_mem (ho.files.mem_keys.mpr ⟨cached, hf⟩)

theorem evicted_evict (ho : pool.Ordered) (ha : pool.Accounted) :
    pool.evict.2 = min pool.excess pool.spares.length ∧
      pool.Evicted pool.evict.1 (min pool.excess pool.spares.length) := by
  obtain ⟨hroom, hevicted⟩ := evicted_sweeps ho ha.gauge ho.files.nodup_keys pool.excess
  refine ⟨?_, hevicted.trans (evicted_require hevicted.gauge _ _)⟩
  have hcount : pool.evict.2 = pool.excess -
      (pool.files.keys.foldl sweep (pool, pool.excess)).2 := rfl
  have hspares : pool.sparesOf pool.files.keys = pool.spares := rfl
  rw [hcount, hroom, hspares]
  omega

theorem ordered_evict (ho : pool.Ordered) : pool.evict.1.Ordered :=
  (ordered_sweeps pool.files.keys ho _).of_files (files_evict_eq pool)

theorem eq_of_find?_evict (ho : pool.Ordered) (ha : pool.Accounted)
    (hl : pool.evict.1.files.find? file = some left) :
    ∃ cached, pool.files.find? file = some cached ∧
      left = { cached with pages := left.pages } ∧
      ∀ page, left.pages.find? page =
        if (file, page) ∈ pool.spares.take pool.excess then none
        else cached.pages.find? page := by
  cases hf : pool.files.find? file with
  | none => exact nomatch (find?_evict_of_none ho ha hf).symm.trans hl
  | some cached =>
      obtain ⟨before, after, hk⟩ := exists_split ho hf
      rw [find?_evict ho ha hk, hf, Option.bind_some] at hl
      rw [FileCache.eq_of_swept? hl]
      refine ⟨cached, rfl, rfl, fun page => ?_⟩
      simp only [FileCache.drop, LruMap.find?_eraseAll, mem_victims_iff ho hf hk]

theorem find?_evict_eq_none_iff (ho : pool.Ordered) (ha : pool.Accounted)
    (hf : pool.files.find? file = some cached) {before after : List FileId}
    (hk : pool.files.keys = before ++ file :: after) :
    pool.evict.1.files.find? file = none ↔
      cached.readers = 0 ∧
        (∀ page ∈ pool.pagesOf file, (file, page) ∈ pool.spares.take pool.excess) ∧
        (pool.sparesOf before).length < pool.excess := by
  have hpages : pool.pagesOf file = cached.pages.keys := by rw [pagesOf, hf]
  rw [find?_evict ho ha hk, hf, Option.bind_some,
    FileCache.swept?_eq_none_iff (ho.pages file cached hf), hpages]
  simp only [mem_victims_iff ho hf hk]
  constructor
  · rintro ⟨hroom, hidle, hall⟩
    exact ⟨hidle, hall, by omega⟩
  · rintro ⟨hidle, hall, hroom⟩
    exact ⟨by omega, hidle, hall⟩

theorem pageAt?_evict (ho : pool.Ordered) (ha : pool.Accounted) (file : FileId) (page : Nat) :
    pool.evict.1.pageAt? file page =
      if (file, page) ∈ pool.spares.take pool.excess then none else pool.pageAt? file page := by
  cases hl : pool.evict.1.files.find? file with
  | some left =>
      obtain ⟨cached, hf, _, hpages⟩ := eq_of_find?_evict ho ha hl
      rw [pageAt?, hl, Option.bind_some, hpages, pageAt?, hf, Option.bind_some]
  | none =>
      have hgone : pool.evict.1.pageAt? file page = none := by rw [pageAt?, hl, Option.bind_none]
      rw [hgone]
      split
      · rfl
      · rename_i hm
        cases hf : pool.files.find? file with
        | none => rw [pageAt?, hf, Option.bind_none]
        | some cached =>
            -- the file has gone, and so have all its pages
            obtain ⟨before, after, hk⟩ := exists_split ho hf
            obtain ⟨_, hall, _⟩ := (find?_evict_eq_none_iff ho ha hf hk).mp hl
            have habsent : page ∉ pool.pagesOf file := fun hp => hm (hall page hp)
            rwa [ho.mem_pagesOf, Option.not_isSome_iff_eq_none, eq_comm] at habsent

theorem pagesOf_evict (ho : pool.Ordered) (ha : pool.Accounted) (file : FileId) :
    pool.evict.1.pagesOf file =
      (pool.pagesOf file).filter fun page => (file, page) ∉ pool.spares.take pool.excess := by
  have hafter := ordered_evict ho
  refine (eq_filter_of_sublist ((sheds_evict pool).pages file) (ho.nodup_pagesOf file)).trans
    (List.filter_congr fun page hp => ?_)
  rw [ho.mem_pagesOf] at hp
  rw [Bool.eq_iff_iff, decide_eq_true_iff, decide_eq_true_iff, hafter.mem_pagesOf,
    pageAt?_evict ho ha]
  split
  · simpa
  · simpa [hp]

theorem files_evict (ho : pool.Ordered) :
    pool.evict.1.files.keys =
      pool.files.keys.filter fun file => pool.evict.1.files.contains file := by
  have hafter := ordered_evict ho
  refine (eq_filter_of_sublist (sheds_evict pool).files ho.files.nodup_keys).trans
    (List.filter_congr fun file _ => ?_)
  rw [Bool.eq_iff_iff, decide_eq_true_iff, LruMap.contains_eq_isSome, hafter.files.mem_keys,
    Option.isSome_iff_exists]

theorem pagesUsed_evict (ho : pool.Ordered) (ha : pool.Accounted) :
    pool.evict.1.pagesUsed =
      if pool.pagesUsed ≤ pool.limits.lowWatermark then pool.pagesUsed
      else max pool.limits.lowWatermark (pool.entries.filter (!pool.evictable ·)).length := by
  have hused := (evicted_evict ho ha).2.used
  have hsplit := length_spares_add ho ha
  simp only [excess] at hused
  split <;> omega

theorem sweep_eq_self (ho : pool.Ordered) (hg : pool.counters.pages = pool.pagesUsed)
    (hs : pool.spareOf file = [])
    (hb : ∀ cached, pool.files.find? file = some cached → cached.readers = 0 →
      cached.pages.size ≠ 0) (excess : Nat) : sweep (pool, excess) file = (pool, excess) := by
  unfold sweep
  split
  · rfl
  · cases hf : pool.files.find? file with
    | none => simp only [evictFile, hf]
    | some cached =>
        have hvictims : cached.victims excess = [] := by
          rw [FileCache.victims_eq_take, ← spareOf_eq hf, hs, List.take_nil]
        obtain ⟨evicted, _, _, hsame, hevict⟩ := exists_evictFile ho hg hf excess
        rw [hevict, hsame hvictims, hvictims, List.length_nil, Nat.sub_zero, if_neg]
        rw [Bool.and_eq_true, beq_iff_eq, FileCache.isIdle, beq_iff_eq]
        exact fun hbare => hb cached hf hbare.1 hbare.2

theorem sweeps_eq_self {files : List FileId} {excess : Nat}
    (h : ∀ file ∈ files, sweep (pool, excess) file = (pool, excess)) :
    files.foldl sweep (pool, excess) = (pool, excess) := by
  induction files with
  | nil => rfl
  | cons file rest ih =>
      rw [List.foldl_cons, h file List.mem_cons_self]
      exact ih fun other hm => h other (List.mem_cons_of_mem file hm)

-- If there still is an excess, then all that can be evicted of a file is gone.
theorem spareOf_evict (ho : pool.Ordered) (ha : pool.Accounted)
    (he : pool.spares.length < pool.excess) (hl : pool.evict.1.files.find? file = some left) :
    pool.evict.1.spareOf file = [] := by
  have hall : pool.spares.take pool.excess = pool.spares :=
    List.take_of_length_le (Nat.le_of_lt he)
  obtain ⟨cached, hf, hsame, hpages⟩ := eq_of_find?_evict ho ha hl
  refine List.eq_nil_iff_forall_not_mem.mpr fun page hp => ?_
  obtain ⟨hmem, hevictable⟩ := List.mem_filter.mp hp
  rw [pagesOf_evict ho ha, List.mem_filter, decide_eq_true_iff, hall] at hmem
  have hpage := hpages page
  rw [hall, if_neg hmem.2] at hpage
  have hidle : left.isIdle = cached.isIdle := by
    rw [hsame]
    rfl
  refine hmem.2 (mem_sparesOf.mpr ⟨ho.files.mem_keys.mpr ⟨cached, hf⟩,
    List.mem_filter.mpr ⟨hmem.1, ?_⟩⟩)
  simpa [evictable, hl, hf, FileCache.isWaited, hpage, hidle] using hevictable

theorem length_sparesOf_le {before after : List FileId}
    (hk : pool.files.keys = before ++ after) :
    (pool.sparesOf before).length ≤ pool.spares.length := by
  have hsplit : pool.spares = pool.sparesOf before ++ pool.sparesOf after := by
    rw [← sparesOf_append, ← hk]
    rfl
  rw [hsplit, List.length_append]
  exact Nat.le_add_right ..

-- A file that nobody reads has a page, or it would have gone with its last one.
theorem size_ne_zero_of_evict (ho : pool.Ordered) (ha : pool.Accounted)
    (he : pool.spares.length < pool.excess) (hl : pool.evict.1.files.find? file = some left)
    (hidle : left.readers = 0) : left.pages.size ≠ 0 := by
  intro hempty
  obtain ⟨cached, hf, hsame, _⟩ := eq_of_find?_evict ho ha hl
  obtain ⟨before, after, hk⟩ := exists_split ho hf
  have hnone : pool.evict.1.pagesOf file = [] := by
    have hlength := ((ordered_evict ho).pages file left hl).length_keys.trans hempty
    simpa [pagesOf, hl] using List.length_eq_zero_iff.mp hlength
  have hgone : pool.evict.1.files.find? file = none := by
    refine (find?_evict_eq_none_iff ho ha hf hk).mpr
      ⟨?_, fun page hp => ?_, (length_sparesOf_le hk).trans_lt he⟩
    · rw [hsame] at hidle
      exact hidle
    · rw [pagesOf_evict ho ha, List.filter_eq_nil_iff] at hnone
      simpa using hnone page hp
  rw [hgone] at hl
  cases hl

theorem evict_of_swept (h : pool.swept = (pool, pool.excess)) : pool.evict = (pool, 0) := by
  have hevict : pool.evict =
      (pool.swept.1.require (decide (pool.excess - pool.swept.2 < wordLimit)) .evictedOverflow,
        pool.excess - pool.swept.2) := rfl
  rw [hevict, h, Nat.sub_self]
  rfl

theorem evict_evict (ho : pool.Ordered) (ha : pool.Accounted) :
    pool.evict.1.evict = (pool.evict.1, 0) := by
  have hmoves : Moves .prune pool pool.evict.1 := moves_evict pool
  obtain ⟨hordered, haccounted⟩ := hmoves.preserve (fun _ _ hm => hm.accounted) ho ha
  obtain ⟨_, hevicted⟩ := evicted_evict ho ha
  have hstays : ∀ file ∈ pool.evict.1.files.keys,
      sweep (pool.evict.1, pool.evict.1.excess) file = (pool.evict.1, pool.evict.1.excess) := by
    intro file hfile
    by_cases hdone : pool.evict.1.excess = 0
    · rw [sweep, if_pos hdone]
    · have hspares : pool.spares.length < pool.excess := by
        have hused := hevicted.used
        have hlimits := hevicted.limits
        simp only [excess, hlimits] at hdone ⊢ hused
        omega
      obtain ⟨left, hleft⟩ := hordered.files.mem_keys.mp hfile
      refine sweep_eq_self hordered haccounted.gauge (spareOf_evict ho ha hspares hleft)
        (fun found hfound => ?_) _
      exact size_ne_zero_of_evict ho ha hspares hfound
  have hswept : pool.evict.1.swept = (pool.evict.1, pool.evict.1.excess) :=
    sweeps_eq_self hstays
  exact evict_of_swept hswept

theorem passes_evict (ho : pool.Ordered) (ha : pool.Accounted) :
    pool.Passes pool.evict.1 pool.evict.2 := by
  obtain ⟨hcount, hevicted⟩ := evicted_evict ho ha
  have htaken : pool.spares.take pool.evict.2 = pool.spares.take pool.excess := by
    rw [hcount, ← List.take_eq_take_min]
  exact
    { number := hcount
      used := pagesUsed_evict ho ha
      counters := hcount ▸ hevicted.counters
      pages := htaken ▸ pageAt?_evict ho ha
      pageOrder := htaken ▸ pagesOf_evict ho ha
      fileOrder := files_evict ho
      kept := fun file left hl => by
        obtain ⟨cached, hf, hsame, _⟩ := eq_of_find?_evict ho ha hl
        exact ⟨cached, hf, hsame⟩
      removed := fun file cached hf => by
        rw [htaken]
        constructor
        · intro hgone
          obtain ⟨before, after, hk⟩ := exists_split ho hf
          obtain ⟨hidle, hall, hroom⟩ := (find?_evict_eq_none_iff ho ha hf hk).mp hgone
          exact ⟨hidle, hall, before, after, hk, hroom⟩
        · rintro ⟨hidle, hall, before, after, hk, hroom⟩
          exact (find?_evict_eq_none_iff ho ha hf hk).mpr ⟨hidle, hall, hroom⟩
      limits := hevicted.limits
      serials := hevicted.serials
      fetches := hevicted.fetches
      gatherings := hevicted.gatherings
      live := hevicted.live
      again := evict_evict ho ha }

end Pool

namespace Mount

variable {σ τ : Type}

-- A pass does just what `Passes` says, be it asked for or made on behalf of a read that has
-- looked up its pages and created some.
theorem eviction_passes (backend : Backend σ τ) (limits : Limits) (storage : σ)
    (acts : List (Act σ)) :
    let mount := run backend (create limits storage) acts
    (∃ next count, mount.pool.Passes next count ∧
      mount.act backend (.ask .prune) = ({ mount with pool := next }, some (.number count))) ∧
    ∀ file offset length,
      let looked := mount.pool.lookupSpan file offset (offset + length)
      ∃ next count, looked.Passes next count ∧
        mount.pool.startRead file offset (offset + length) =
          if mount.pool.fetches.size < looked.fetches.size ∧ limits.pageBudget < looked.pagesUsed
            then next.arrive mount.pool.gatherings.size
          else looked.arrive mount.pool.gatherings.size := by
  intro mount
  obtain ⟨plans, hs, hlimits⟩ := exists_steady backend limits storage acts
  have hordered := hs.sound.ordered
  have haccounted := accounted_run backend limits storage acts
  refine ⟨⟨_, _, Pool.passes_evict hordered haccounted, rfl⟩, fun file offset length => ?_⟩
  have hmoves := mount.pool.moves_lookupSpan file offset length .all
  obtain ⟨hlooked, hcharged⟩ := hmoves.preserve (fun _ _ hm => hm.accounted) hordered haccounted
  have hbudget : (mount.pool.lookupSpan file offset (offset + length)).limits = limits :=
    hmoves.renews.limits.trans hlimits
  refine ⟨_, _, Pool.passes_evict hlooked hcharged, ?_⟩
  simp only [Pool.startRead, Pool.enforceBudget, hbudget]
  by_cases hgrown : mount.pool.fetches.size <
      (mount.pool.lookupSpan file offset (offset + length)).fetches.size
  · simp only [hgrown, if_true, true_and]
    split <;> rfl
  · simp only [hgrown, if_false, false_and]

-- The page in the middle is waited for, and the two beside it bring the pages down to the mark.
example : (gatedRun []).pool.spares = [(0, 0), (0, 8)] ∧ (gatedRun []).pool.evict.2 = 2 := by
  decide

end Mount

end PageCache
