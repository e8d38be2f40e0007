import PageCache.Proofs.Accounting
import PageCache.Proofs.Issuing

namespace PageCache

namespace Event

-- The pages that an event says were created.
def created : Event → Nat
  | .pageCreated _ _ _ => 1
  | _ => 0

-- The pages that an event says were destroyed while their file stays.
def destroyed : Event → Nat
  | .fetchFailed _ _ _ _ _ => 1
  | .pagesEvicted _ pages | .staleDropped _ pages | .fileInvalidated _ pages
  | .fileChanged _ pages => pages
  | _ => 0

-- The pages that an event says went with their file.
def removed : Event → Nat
  | .fileRemoved _ pages => pages
  | _ => 0

theorem removed_of_isAside {event : Event} (h : event.isAside = true) : event.removed = 0 := by
  cases event with
  | fileRemoved => cases h
  | _ => rfl

end Event

namespace Counters

theorem misses_count (counters : Counters) (event : Event) :
    (counters.count event).misses = counters.misses + event.created := by
  cases event <;> rfl

theorem destroyed_count (counters : Counters) (event : Event) :
    (counters.count event).destroyed = counters.destroyed + event.destroyed := by
  cases event <;> simp only [Counters.count, Counters.destroyed, Event.destroyed] <;> omega

end Counters

namespace Pool

variable {τ : Type} {pool next : Pool τ} {file : FileId} {cached : FileCache}

-- The pages that went with their files so far.
def pagesRemoved (pool : Pool τ) : Nat := (pool.journal.map Event.removed).sum

-- A page comes with each fetch. It is still there, or it has been destroyed, or it went with
-- its file.
structure Balanced (pool : Pool τ) : Prop where
  fetches : pool.counters.misses = pool.fetches.size
  pages : pool.counters.misses =
    pool.pagesUsed + pool.counters.destroyed + pool.pagesRemoved

theorem misses_emit (pool : Pool τ) (event : Event) :
    (pool.emit event).counters.misses = pool.counters.misses + event.created :=
  Counters.misses_count _ _

theorem destroyed_emit (pool : Pool τ) (event : Event) :
    (pool.emit event).counters.destroyed = pool.counters.destroyed + event.destroyed :=
  Counters.destroyed_count _ _

theorem pagesRemoved_emit (pool : Pool τ) (event : Event) :
    (pool.emit event).pagesRemoved = pool.pagesRemoved + event.removed := by
  rw [pagesRemoved, Pool.emit, List.map_cons, List.sum_cons, Nat.add_comm, pagesRemoved]

-- Pages come and go, and each that does is counted.
theorem Balanced.of_counts (h : pool.Balanced) (created destroyed removed : Nat)
    (hx : next.fetches.size = pool.fetches.size + created)
    (hm : next.counters.misses = pool.counters.misses + created)
    (hd : next.counters.destroyed = pool.counters.destroyed + destroyed)
    (hr : next.pagesRemoved = pool.pagesRemoved + removed)
    (hu : next.pagesUsed + destroyed + removed = pool.pagesUsed + created) : next.Balanced := by
  have hfetches := h.fetches
  have hpages := h.pages
  exact ⟨by omega, by omega⟩

theorem Balanced.of_eq (h : pool.Balanced) (hx : next.fetches.size = pool.fetches.size)
    (hu : next.pagesUsed = pool.pagesUsed) (hm : next.counters.misses = pool.counters.misses)
    (hd : next.counters.destroyed = pool.counters.destroyed)
    (hr : next.pagesRemoved = pool.pagesRemoved) : next.Balanced :=
  h.of_counts 0 0 0 hx hm hd hr hu

theorem Balanced.aside (h : pool.Balanced) (ha : pool.Aside next) : next.Balanced := by
  refine h.of_eq ?_ ha.used ha.misses ha.destroyed ?_
  · rw [← length_calls, calls_eq_of_call? ha.calls, length_calls]
  · obtain ⟨events, he, haside⟩ := ha.journal
    have hnone : (events.map Event.removed).sum = 0 := by
      refine List.sum_eq_zero_iff_forall_eq_nat.mpr fun pages hp => ?_
      obtain ⟨event, hm, rfl⟩ := List.mem_map.mp hp
      exact event.removed_of_isAside (haside event hm)
    rw [pagesRemoved, he, List.map_append, List.sum_append, hnone, Nat.zero_add, pagesRemoved]

theorem Balanced.emit (h : pool.Balanced) {event : Event} (hc : event.created = 0)
    (hd : event.destroyed = 0) (hr : event.removed = 0) : (pool.emit event).Balanced := by
  refine h.of_eq rfl rfl ?_ ?_ ?_
  · rw [misses_emit, hc, Nat.add_zero]
  · rw [destroyed_emit, hd, Nat.add_zero]
  · rw [pagesRemoved_emit, hr, Nat.add_zero]

-- Pages are only taken off the count here, which no other count shows.
theorem counts_shrink (pool : Pool τ) (pages : Nat) :
    (pool.shrink pages).fetches = pool.fetches ∧
    (pool.shrink pages).counters.misses = pool.counters.misses ∧
    (pool.shrink pages).counters.destroyed = pool.counters.destroyed ∧
    (pool.shrink pages).pagesRemoved = pool.pagesRemoved := by
  unfold shrink require
  split
  · exact ⟨rfl, rfl, rfl, rfl⟩
  · exact ⟨rfl, rfl, rfl, pagesRemoved_emit ..⟩

theorem pagesRemoved_require (pool : Pool τ) (holds : Bool) (breach : Breach) :
    (pool.require holds breach).pagesRemoved = pool.pagesRemoved := by
  cases holds with
  | true => rfl
  | false => exact pagesRemoved_emit ..

theorem pagesRemoved_dropPages (pool : Pool τ) (file : FileId) (pages : List Nat)
    (event : Event) :
    (pool.dropPages file pages event).pagesRemoved = pool.pagesRemoved + event.removed :=
  (counts_shrink _ _).2.2.2.trans (pagesRemoved_emit ..)

theorem pagesRemoved_removeFile (hf : pool.files.find? file = some cached) :
    (pool.removeFile file).pagesRemoved = pool.pagesRemoved + cached.pages.size := by
  simp only [Pool.removeFile, hf]
  rw [pagesRemoved_emit, (counts_shrink _ _).2.2.2]
  rfl

-- A file that an eviction pass takes has no page left.
theorem pagesRemoved_evictFile (pool : Pool τ) (file : FileId) (excess : Nat) :
    (pool.evictFile file excess).1.pagesRemoved = pool.pagesRemoved := by
  cases hf : pool.files.find? file with
  | none => rw [evictFile_of_none hf]
  | some cached =>
      obtain ⟨evicted, left, he, hevicted, hleft⟩ := evictFile_cases hf excess
      have hsame : evicted.pagesRemoved = pool.pagesRemoved := by
        rcases hevicted with ⟨_, rfl⟩ | rfl
        · exact (pagesRemoved_require ..).trans (pagesRemoved_require ..)
        · exact (pagesRemoved_dropPages ..).trans
            ((pagesRemoved_require ..).trans (pagesRemoved_require ..))
      rw [he]
      rcases hleft with rfl | ⟨bare, hbare, _, hempty, rfl⟩
      · exact hsame
      · exact (pagesRemoved_removeFile hbare).trans (by rw [hempty, Nat.add_zero, hsame])

theorem pagesRemoved_evict (pool : Pool τ) : pool.evict.1.pagesRemoved = pool.pagesRemoved := by
  have hsweeps (files : List FileId) (excess : Nat) :
      (files.foldl sweep (pool, excess)).1.pagesRemoved = pool.pagesRemoved :=
    sweeps_induction (P := fun swept => swept.1.pagesRemoved = pool.pagesRemoved)
      (fun swept file hs => (pagesRemoved_evictFile swept.1 file swept.2).trans hs) files rfl
  exact (pagesRemoved_require ..).trans (hsweeps _ _)

-- Pages are destroyed and counted, as many of them as the event says.
theorem Balanced.dropPages (h : pool.Balanced) (ha : pool.Accounted) (ho : pool.Ordered)
    (hf : pool.files.find? file = some cached) {pages : List Nat} (hn : pages.Nodup)
    (hk : pages ⊆ cached.pages.keys) {event : Event} (hc : event.created = 0)
    (hd : event.destroyed = pages.length) (hr : event.removed = 0) :
    (pool.dropPages file pages event).Balanced := by
  obtain ⟨hfetches, hmisses, hdestroyed, hremoved⟩ :=
    counts_shrink ((pool.modifyFile file (·.drop pages)).emit event) pages.length
  have hle : pages.length ≤ pool.pagesUsed := by
    rw [ha.used, ← ho.pagesHeld_drop hf hn hk]
    exact Nat.le_add_left _ _
  refine h.of_counts 0 pages.length 0 (congrArg Array.size hfetches) ?_ ?_ ?_ ?_
  · exact hmisses.trans ((misses_emit ..).trans (congrArg _ hc))
  · exact hdestroyed.trans ((destroyed_emit ..).trans (congrArg _ hd))
  · exact hremoved.trans ((pagesRemoved_emit ..).trans (congrArg _ hr))
  · exact Nat.sub_add_cancel hle

theorem Balanced.removeFile (h : pool.Balanced) (ha : pool.Accounted) (ho : pool.Ordered)
    (hf : pool.files.find? file = some cached) : (pool.removeFile file).Balanced := by
  obtain ⟨hfetches, hmisses, hdestroyed, hremoved⟩ :=
    counts_shrink { pool with files := pool.files.erase file } cached.pages.size
  have hle : cached.pages.size ≤ pool.pagesUsed := by
    rw [ha.used, pagesHeld, ← ho.files.total_erase (·.pages.size) hf]
    exact Nat.le_add_left _ _
  simp only [Pool.removeFile, hf]
  refine h.of_counts 0 0 cached.pages.size (congrArg Array.size hfetches) ?_ ?_ ?_ ?_
  · rw [misses_emit, hmisses]
    rfl
  · rw [destroyed_emit, hdestroyed]
    rfl
  · rw [pagesRemoved_emit, hremoved]
    rfl
  · exact Nat.sub_add_cancel hle

-- The page and its fetch are counted together.
theorem Balanced.createPage (h : pool.Balanced) (file : FileId) (page : Nat) :
    (pool.createPage file page).Balanced :=
  h.of_counts 1 0 0 (Array.size_push _) (misses_emit ..) (destroyed_emit ..)
    (pagesRemoved_emit ..) rfl

theorem Balanced.enter (h : pool.Balanced) (file : FileId) : (pool.enter file).Balanced := by
  unfold Pool.enter
  simp only
  split
  · exact h.of_eq rfl rfl rfl rfl rfl
  · exact h.of_eq rfl rfl rfl rfl (pagesRemoved_emit ..)

theorem Balanced.modifyFile (h : pool.Balanced) (file : FileId)
    (change : FileCache → FileCache) : (pool.modifyFile file change).Balanced :=
  h.of_eq rfl rfl rfl rfl rfl

theorem Balanced.dropUnwaited (h : pool.Balanced) (ha : pool.Accounted) (ho : pool.Ordered)
    (hf : pool.files.find? file = some cached) {pages : List Nat}
    (hp : pages.Sublist cached.unwaited) {event : Event} (hc : event.created = 0)
    (hd : event.destroyed = pages.length) (hr : event.removed = 0) :
    (pool.dropPages file pages event).Balanced := by
  have hkeys := hp.trans cached.unwaited_sublist
  exact h.dropPages ha ho hf ((ho.pages file cached hf).nodup_keys.sublist hkeys) hkeys.subset hc
    hd hr

theorem Balanced.dropStale (h : pool.Balanced) (ha : pool.Accounted) (ho : pool.Ordered)
    (file : FileId) (keep : Nat) : (pool.dropStale file keep).Balanced := by
  unfold Pool.dropStale
  split
  · exact h
  · rename_i cached hf
    simp only
    split
    · exact h
    · exact h.dropUnwaited ha ho hf List.filter_sublist rfl rfl rfl

theorem Balanced.load (h : pool.Balanced) (ha : pool.Accounted) (ho : pool.Ordered) {wait : Wait}
    {waiters : List ReadId} {data : Bytes} {attributes : Attributes}
    (hp : pool.pageAt? file wait.page = some (.fetching wait.fetch waiters)) :
    (pool.load file wait waiters data attributes).Balanced := by
  let stored := pool.modifyFile file fun cached =>
    { cached with
      pages := cached.pages.insert wait.page (.loaded wait.fetch data)
      attributes := some attributes }
  have hordered : stored.Ordered := ho.modifyFile file fun _ _ hc => hc.insert wait.page _
  have haccounted : stored.Accounted := ha.insert ho hp _ _
  have hstored : stored.Balanced := h.modifyFile file _
  have hfresh : (if (pool.files.find? file).any (·.isStale attributes)
      then stored.dropStale file wait.page else stored).Balanced := by
    split
    · exact hstored.dropStale haccounted hordered file wait.page
    · exact hstored
  exact hfresh.emit rfl rfl rfl

-- What a file is said to have does not count, and the pages that are dropped with it do.
theorem Balanced.annotate (h : pool.Balanced) (ha : pool.Accounted) (ho : pool.Ordered)
    (hf : pool.files.find? file = some cached) (attributes : Option Attributes) {event : Event}
    (hc : event.created = 0) (hd : event.destroyed = cached.unwaited.length)
    (hr : event.removed = 0) :
    ((pool.modifyFile file fun cached => { cached with attributes := attributes }).dropPages file
      cached.unwaited event).Balanced := by
  let annotated := pool.modifyFile file fun cached => { cached with attributes := attributes }
  have hfound : annotated.files.find? file = some { cached with attributes := attributes } := by
    rw [find?_modifyFile, if_pos rfl, hf, Option.map_some]
  have haccounted : annotated.Accounted := ha.modifyFile ho fun _ _ => rfl
  have hordered : annotated.Ordered := ho.modifyFile file fun _ _ hc => hc
  have hbalanced : annotated.Balanced := h.modifyFile file _
  exact hbalanced.dropUnwaited haccounted hordered hfound (.refl _) hc hd hr

theorem Move.balanced {op : Op} (hm : Move op pool next) (ho : pool.Ordered)
    (h : pool.Accounted ∧ pool.Balanced) : next.Accounted ∧ next.Balanced := by
  obtain ⟨ha, h⟩ := h
  refine ⟨hm.accounted ho ha, ?_⟩
  cases hm with
  | aside haside => exact h.aside haside
  | enter => exact h.enter _
  | create => exact h.createPage _ _
  | wait file => exact h.modifyFile file _
  | use file => exact h.modifyFile file _
  | load hp => exact h.load ha ho hp
  | fail hp =>
      obtain ⟨cached, hf, hfound⟩ := Option.bind_eq_some_iff.mp hp
      have hkey := (ho.pages _ cached hf).mem_keys.mpr ⟨_, hfound⟩
      exact h.dropPages ha ho hf (List.nodup_singleton _) (by simpa using hkey) rfl rfl rfl
  | @evict file cached hf limit =>
      have hkeys := cached.victims_sublist limit
      exact h.dropPages ha ho hf ((ho.pages _ _ hf).nodup_keys.sublist hkeys) hkeys.subset rfl rfl
        rfl
  | remove hf => exact h.removeFile ha ho hf
  | part file => exact h.modifyFile file _
  | mark file => exact h.modifyFile file _
  | @invalidate file =>
      unfold Pool.invalidate
      split
      · exact h
      · rename_i cached hf
        exact h.annotate ha ho hf none rfl rfl rfl
  | @revalidate file attributes =>
      unfold Pool.revalidate
      split
      · exact h
      · rename_i cached hf
        simp only
        split
        · exact h.annotate ha ho hf (some attributes) rfl rfl rfl
        · exact h.modifyFile file _

end Pool

theorem Mount.balanced_run {σ τ : Type} (backend : Backend σ τ) (limits : Limits) (storage : σ)
    (acts : List (Act σ)) : (run backend (create limits storage) acts).pool.Balanced := by
  have hfresh : ({ limits := limits } : Pool τ).Accounted ∧
      ({ limits := limits } : Pool τ).Balanced := ⟨⟨rfl, rfl, List.not_mem_nil⟩, rfl, rfl⟩
  exact (run_create_preserves backend (fun _ _ _ hm => hm.balanced) limits storage acts hfresh).2

end PageCache
