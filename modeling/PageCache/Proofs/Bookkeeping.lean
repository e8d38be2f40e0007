import PageCache.Proofs.RecentUse

namespace PageCache

theorem LruMap.Ordered.keys_eraseAll {α : Type} {map : LruMap α} (h : map.Ordered)
    (keys : List Nat) : (map.eraseAll keys).keys = map.keys.filter (· ∉ keys) := by
  refine (eq_filter_of_sublist (map.keys_eraseAll_sublist keys) h.nodup_keys).trans
    (List.filter_congr fun key hk => ?_)
  rw [Bool.eq_iff_iff, decide_eq_true_iff, decide_eq_true_iff, (h.eraseAll keys).mem_keys,
    find?_eraseAll]
  by_cases hm : key ∈ keys
  · simp [hm]
  · simpa [hm] using h.mem_keys.mp hk

-- What is cached of a file but for its pages.
def FileCache.outline (cached : FileCache) : FileCache := { cached with pages := .empty }

namespace Pool

variable {τ : Type} {pool middle next : Pool τ}

-- Nothing happens that is counted.
structure Uncounted (pool next : Pool τ) : Prop where
  serials : next.serials = pool.serials
  used : next.pagesUsed = pool.pagesUsed
  counters : next.counters = pool.counters

theorem Uncounted.refl (pool : Pool τ) : pool.Uncounted pool := ⟨rfl, rfl, rfl⟩

theorem Uncounted.trans (h : pool.Uncounted middle) (hn : middle.Uncounted next) :
    pool.Uncounted next :=
  ⟨hn.serials.trans h.serials, hn.used.trans h.used, hn.counters.trans h.counters⟩

theorem uncounted_require (pool : Pool τ) (holds : Bool) (breach : Breach) :
    pool.Uncounted (pool.require holds breach) :=
  ⟨serials_require .., pagesUsed_require .., counters_require ..⟩

theorem uncounted_modifyGathering (pool : Pool τ) (id : ReadId)
    (change : Gathering → Gathering) : pool.Uncounted (pool.modifyGathering id change) :=
  ⟨rfl, rfl, rfl⟩

theorem uncounted_addPage (pool : Pool τ) (id : ReadId) (page : Nat) (data : Bytes) :
    pool.Uncounted (pool.addPage id page data) :=
  ((uncounted_require ..).trans (uncounted_require ..)).trans (uncounted_modifyGathering ..)

theorem uncounted_spoil (pool : Pool τ) (id : ReadId) (error : Error) :
    pool.Uncounted (pool.spoil id error) :=
  uncounted_modifyGathering ..

theorem uncounted_arrive (pool : Pool τ) (id : ReadId) : pool.Uncounted (pool.arrive id) :=
  ((uncounted_require ..).trans (uncounted_require ..)).trans (uncounted_modifyGathering ..)

theorem uncounted_foldl {act : Pool τ → ReadId → Pool τ}
    (h : ∀ pool id, Uncounted pool (act pool id)) (ids : List ReadId) (pool : Pool τ) :
    pool.Uncounted (ids.foldl act pool) := by
  induction ids generalizing pool with
  | nil => exact .refl pool
  | cons first rest ih => exact (h pool first).trans (ih _)

theorem counters_shrink (pool : Pool τ) (pages : Nat) :
    (pool.shrink pages).counters = { pool.counters with pages := pool.pagesUsed - pages } := by
  unfold shrink
  cases decide (pages ≤ pool.pagesUsed) <;> rfl

theorem counters_dropPages (pool : Pool τ) (file : FileId) (pages : List Nat) (event : Event) :
    (pool.dropPages file pages event).counters =
      { pool.counters.count event with pages := pool.pagesUsed - pages.length } :=
  counters_shrink ..

end Pool

end PageCache
