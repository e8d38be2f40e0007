import PageCache.Proofs.Moves
import PageCache.Proofs.Waiters

namespace PageCache

namespace LruMap

variable {α : Type}

theorem keys_erase_sublist (map : LruMap α) (key : Nat) :
    (map.erase key).keys.Sublist map.keys := by
  unfold erase
  split
  · exact .refl _
  · exact List.filter_sublist.map _

theorem keys_eraseAll_sublist (map : LruMap α) (keys : List Nat) :
    (map.eraseAll keys).keys.Sublist map.keys := by
  unfold eraseAll
  induction keys generalizing map with
  | nil => exact .refl _
  | cons key rest ih => exact (ih (map.erase key)).trans (map.keys_erase_sublist key)

end LruMap

-- The pages that reads have looked up, in whatever state they were found.
def Counters.lookups (counters : Counters) : Nat :=
  counters.hits + counters.misses + counters.coalesced

-- The page that was looked up, with its file, if the event tells of a lookup. A new page is
-- looked up as well as one that is there.
def Event.lookup? : Event → Option (FileId × Nat)
  | .pageHit file page _ | .pageCreated file page _ | .pageJoined file page _ => some (file, page)
  | _ => none

-- The page whose read of storage begins, with its file, if the event tells of one.
def Event.launch? : Event → Option (FileId × Nat)
  | .fetchStarted file page _ => some (file, page)
  | _ => none

-- Events that come with no lookup of a page and no read of storage.
def Event.isShedding : Event → Bool
  | .pageHit _ _ _ | .pageCreated _ _ _ | .pageJoined _ _ _ | .fetchStarted _ _ _ => false
  | _ => true

theorem Counters.count_shedding (counters : Counters) {event : Event}
    (h : event.isShedding = true) :
    (counters.count event).lookups = counters.lookups ∧
      (counters.count event).faults = counters.faults := by
  cases event with
  | pageHit => cases h
  | pageCreated => cases h
  | pageJoined => cases h
  | fetchStarted => cases h
  | _ => exact ⟨rfl, rfl⟩

theorem Event.lookup?_of_shedding {event : Event} (h : event.isShedding = true) :
    event.lookup? = none := by
  cases event with
  | pageHit => cases h
  | pageCreated => cases h
  | pageJoined => cases h
  | fetchStarted => cases h
  | _ => rfl

theorem Event.launch?_of_shedding {event : Event} (h : event.isShedding = true) :
    event.launch? = none := by
  cases event with
  | fetchStarted => cases h
  | _ => rfl

namespace Pool

variable {τ : Type} {pool middle next : Pool τ}

-- The pages that have been looked up so far, the earliest first.
def looked (pool : Pool τ) : List (FileId × Nat) :=
  (pool.journal.filterMap Event.lookup?).reverse

theorem looked_emit (pool : Pool τ) (event : Event) :
    (pool.emit event).looked = pool.looked ++ event.lookup?.toList := by
  simp only [looked, emit, List.filterMap_cons]
  cases event.lookup? <;> simp

-- The pages whose reads of storage have begun so far, the latest first.
def launches (pool : Pool τ) : List (FileId × Nat) := pool.journal.filterMap Event.launch?

theorem launches_emit (pool : Pool τ) (event : Event) :
    (pool.emit event).launches = event.launch?.toList ++ pool.launches := by
  simp only [launches, emit, List.filterMap_cons]
  cases event.launch? <;> rfl

-- Those of them that are of the file.
def launchesOf (pool : Pool τ) (file : FileId) : List (FileId × Nat) :=
  pool.launches.filter (·.1 == file)

-- Nothing is looked up, fetched or used. Files and pages may go, and what is left of them
-- keeps its order.
structure Sheds (pool next : Pool τ) : Prop where
  files : next.files.keys.Sublist pool.files.keys
  pages : ∀ file, (next.pagesOf file).Sublist (pool.pagesOf file)
  looked : next.looked = pool.looked
  launches : next.launches = pool.launches
  lookups : next.counters.lookups = pool.counters.lookups
  faults : next.counters.faults = pool.counters.faults

theorem Sheds.refl (pool : Pool τ) : pool.Sheds pool :=
  ⟨.refl _, fun _ => .refl _, rfl, rfl, rfl, rfl⟩

theorem Sheds.trans (h : pool.Sheds middle) (hn : middle.Sheds next) : pool.Sheds next where
  files := hn.files.trans h.files
  pages file := (hn.pages file).trans (h.pages file)
  looked := hn.looked.trans h.looked
  launches := hn.launches.trans h.launches
  lookups := hn.lookups.trans h.lookups
  faults := hn.faults.trans h.faults

theorem pagesOf_of_files (h : next.files = pool.files) : next.pagesOf = pool.pagesOf := by
  funext file
  rw [pagesOf, pagesOf, h]

theorem Sheds.of_eq (hf : next.files = pool.files) (hj : next.looked = pool.looked)
    (hb : next.launches = pool.launches) (hl : next.counters.lookups = pool.counters.lookups)
    (hx : next.counters.faults = pool.counters.faults) : pool.Sheds next :=
  ⟨hf ▸ .refl _, fun _ => pagesOf_of_files hf ▸ .refl _, hj, hb, hl, hx⟩

theorem sheds_emit (pool : Pool τ) {event : Event} (h : event.isShedding = true) :
    pool.Sheds (pool.emit event) :=
  .of_eq rfl (by rw [looked_emit, Event.lookup?_of_shedding h, Option.toList_none, List.append_nil])
    (by rw [launches_emit, Event.launch?_of_shedding h, Option.toList_none, List.nil_append])
    (pool.counters.count_shedding h).1 (pool.counters.count_shedding h).2

theorem sheds_require (pool : Pool τ) (holds : Bool) (breach : Breach) :
    pool.Sheds (pool.require holds breach) := by
  cases holds with
  | true => exact .refl pool
  | false => exact sheds_emit pool rfl

theorem sheds_shrink (pool : Pool τ) (pages : Nat) : pool.Sheds (pool.shrink pages) :=
  (sheds_require pool _ _).trans (.of_eq rfl rfl rfl rfl rfl)

theorem sheds_modifyFile (pool : Pool τ) (file : FileId) {change : FileCache → FileCache}
    (hc : ∀ cached, (change cached).pages.keys.Sublist cached.pages.keys) :
    pool.Sheds (pool.modifyFile file change) where
  files := .refl _
  pages other := by
    simp only [pagesOf, find?_modifyFile]
    by_cases he : other = file
    · rw [if_pos he]
      cases pool.files.find? other with
      | none => exact .refl _
      | some cached => exact hc cached
    · rw [if_neg he]
  looked := rfl
  launches := rfl
  lookups := rfl
  faults := rfl

theorem sheds_dropPages (pool : Pool τ) (file : FileId) (pages : List Nat) {event : Event}
    (h : event.isShedding = true) : pool.Sheds (pool.dropPages file pages event) :=
  ((sheds_modifyFile pool file fun cached => cached.pages.keys_eraseAll_sublist pages).trans
    (sheds_emit _ h)).trans (sheds_shrink _ _)

theorem sheds_removeFile (pool : Pool τ) (file : FileId) :
    pool.Sheds (pool.removeFile file) := by
  unfold removeFile
  split
  · exact .refl pool
  · rename_i cached _
    have herase : pool.Sheds { pool with files := pool.files.erase file } := by
      refine ⟨pool.files.keys_erase_sublist file, fun other => ?_, rfl, rfl, rfl, rfl⟩
      rw [pagesOf]
      split
      · exact List.nil_sublist _
      · rename_i left hleft
        have hpages : pool.pagesOf other = left.pages.keys := by
          rw [pagesOf, (LruMap.find?_of_erase hleft).2]
        exact hpages ▸ .refl _
    exact (herase.trans (sheds_shrink _ _)).trans (sheds_emit _ rfl)

theorem sheds_foldl {α : Type} {act : Pool τ → α → Pool τ}
    (h : ∀ pool item, Sheds pool (act pool item)) (items : List α) (pool : Pool τ) :
    pool.Sheds (items.foldl act pool) := by
  induction items generalizing pool with
  | nil => exact .refl pool
  | cons item rest ih => exact (h pool item).trans (ih _)

theorem sheds_evictFile (pool : Pool τ) (file : FileId) (excess : Nat) :
    pool.Sheds (pool.evictFile file excess).1 := by
  cases hf : pool.files.find? file with
  | none =>
      rw [evictFile_of_none hf]
      exact .refl pool
  | some cached =>
      obtain ⟨evicted, left, he, hevicted, hleft⟩ := evictFile_cases hf excess
      have hchecked : pool.Sheds ((pool.require cached.isOrdered .strayOrder).require
          (decide ((cached.victims excess).length ≤ excess)) .excessUnderflow) :=
        (sheds_require _ _ _).trans (sheds_require _ _ _)
      have hsheds : pool.Sheds evicted := by
        rcases hevicted with ⟨_, rfl⟩ | rfl
        · exact hchecked
        · exact hchecked.trans (sheds_dropPages _ _ _ rfl)
      rw [he]
      rcases hleft with rfl | ⟨_, _, _, _, rfl⟩
      · exact hsheds
      · exact hsheds.trans (sheds_removeFile _ _)

theorem sheds_sweeps (pool : Pool τ) (files : List FileId) (excess : Nat) :
    pool.Sheds (files.foldl sweep (pool, excess)).1 :=
  sweeps_induction (P := fun swept => pool.Sheds swept.1)
    (fun swept file hs => hs.trans (sheds_evictFile swept.1 file swept.2)) files (.refl pool)

theorem sheds_evict (pool : Pool τ) : pool.Sheds pool.evict.1 :=
  (sheds_sweeps pool _ _).trans (sheds_require ..)

theorem sheds_enforceBudget (pool : Pool τ) : pool.Sheds pool.enforceBudget := by
  unfold enforceBudget
  split
  · exact sheds_evict pool
  · exact .refl pool

theorem sheds_addPage (pool : Pool τ) (id : ReadId) (page : Nat) (data : Bytes) :
    pool.Sheds (pool.addPage id page data) :=
  ((sheds_require _ _ _).trans (sheds_require _ _ _)).trans (.of_eq rfl rfl rfl rfl rfl)

theorem sheds_spoil (pool : Pool τ) (id : ReadId) (error : Error) :
    pool.Sheds (pool.spoil id error) := .of_eq rfl rfl rfl rfl rfl

theorem sheds_arrive (pool : Pool τ) (id : ReadId) : pool.Sheds (pool.arrive id) :=
  ((sheds_require _ _ _).trans (sheds_require _ _ _)).trans (.of_eq rfl rfl rfl rfl rfl)

theorem sheds_leave (pool : Pool τ) (lease : Lease) : pool.Sheds (pool.leave lease) := by
  unfold leave
  split
  · exact .refl pool
  · rename_i cached _
    have hleft : pool.Sheds ((pool.require (decide (0 < cached.readers))
        .readersUnderflow).modifyFile lease.file fun cached =>
          { cached with readers := cached.readers - 1 }) :=
      (sheds_require _ _ _).trans (sheds_modifyFile _ _ fun _ => .refl _)
    simp only
    split
    · exact hleft.trans (sheds_removeFile _ _)
    · exact hleft

theorem sheds_endRead (pool : Pool τ) (id : ReadId) : pool.Sheds (pool.endRead id) := by
  unfold endRead
  split
  · exact .refl pool
  · rename_i read _
    let rest := { pool with live := pool.live.filter (·.id != id) }
    have hrest : pool.Sheds rest := .of_eq rfl rfl rfl rfl rfl
    exact hrest.trans (sheds_leave rest read.lease)

theorem sheds_dropStale (pool : Pool τ) (file : FileId) (keep : Nat) :
    pool.Sheds (pool.dropStale file keep) := by
  unfold dropStale
  split
  · exact .refl pool
  · simp only
    split
    · exact .refl pool
    · exact sheds_dropPages _ _ _ rfl

-- The fetched bytes take the place of the page. What is told of it comes later.
def install (pool : Pool τ) (file : FileId) (wait : Wait) (data : Bytes)
    (attributes : Attributes) : Pool τ :=
  pool.modifyFile file fun cached =>
    { cached with
      pages := cached.pages.insert wait.page (.loaded wait.fetch data)
      attributes := some attributes }

theorem sheds_store (pool : Pool τ) (file : FileId) (wait : Wait) (waiters : List ReadId)
    (data : Bytes) (attributes : Attributes) :
    (pool.install file wait data attributes).Sheds
      (pool.store file wait waiters data attributes) := by
  have htell : ∀ fresh : Pool τ, fresh.Sheds (waiters.foldl
      (fun pool id => (pool.addPage id wait.page data).arrive id)
      (fresh.emit (.pageLoaded file wait.page wait.fetch data.length waiters.length))) :=
    fun fresh => (sheds_emit fresh rfl).trans
      (sheds_foldl (fun pool id => (sheds_addPage pool id _ _).trans (sheds_arrive _ id)) _ _)
  unfold store
  simp only
  split
  · exact (sheds_dropStale _ _ _).trans (htell _)
  · exact htell _

-- A fetch that fails takes its page away.
theorem sheds_giveUp (pool : Pool τ) (file : FileId) (wait : Wait) (waiters : List ReadId)
    (error : Error) : pool.Sheds (pool.giveUp file wait waiters error) :=
  (sheds_dropPages _ _ _ rfl).trans
    (sheds_foldl (fun pool id => (sheds_spoil pool id error).trans (sheds_arrive _ id)) _ _)

-- A page that reads wait for is not used.
theorem sheds_join (pool : Pool τ) (id : ReadId) (lease : Lease) (wait : Wait) :
    pool.Sheds (pool.join id lease wait) := by
  let checked := pool.require ((pool.page? lease wait.page).any (!·.isLoaded)) .waitForLoaded
  have hwaiting : checked.Sheds (checked.modifyFile lease.file fun cached =>
      { cached with pages := cached.pages.modify wait.page (Page.wait id) }) :=
    sheds_modifyFile _ _ fun _ => .refl _
  exact ((sheds_require _ _ _).trans hwaiting).trans (.of_eq rfl rfl rfl rfl rfl)

theorem sheds_observe (pool : Pool τ) (id : ReadId) (wait : Wait) :
    pool.Sheds (pool.observe id wait) := .of_eq rfl rfl rfl rfl rfl

theorem sheds_invalidate (pool : Pool τ) (file : FileId) :
    pool.Sheds (pool.invalidate file).1 := by
  unfold invalidate
  split
  · exact .refl pool
  · have hforgotten : pool.Sheds (pool.modifyFile file fun cached =>
        { cached with attributes := none }) := sheds_modifyFile _ _ fun _ => .refl _
    exact hforgotten.trans (sheds_dropPages _ _ _ rfl)

theorem sheds_revalidate (pool : Pool τ) (file : FileId) (attributes : Attributes) :
    pool.Sheds (pool.revalidate file attributes).1 := by
  unfold revalidate
  split
  · exact .refl pool
  · have hrecorded : pool.Sheds (pool.modifyFile file fun cached =>
        { cached with attributes := some attributes }) := sheds_modifyFile _ _ fun _ => .refl _
    simp only
    split
    · exact hrecorded.trans (sheds_dropPages _ _ _ rfl)
    · exact hrecorded

theorem sheds_release (pool : Pool τ) (file : FileId) : pool.Sheds (pool.release file).1 := by
  unfold release
  split
  · exact .refl pool
  · split
    · exact sheds_removeFile _ _
    · exact sheds_modifyFile _ _ fun _ => .refl _

-- Pages are looked up and reads of storage begin, both of which the journal and the counts
-- tell alike. The first are listed in order, the others with the latest first.
structure Logs (pool next : Pool τ) (found begun : List (FileId × Nat)) : Prop where
  looked : next.looked = pool.looked ++ found
  launches : next.launches = begun ++ pool.launches
  lookups : next.counters.lookups = pool.counters.lookups + found.length
  faults : next.counters.faults = pool.counters.faults + begun.length

section Logs

variable {found begun later more : List (FileId × Nat)}

theorem Sheds.logs (h : pool.Sheds next) : pool.Logs next [] [] where
  looked := h.looked.trans (List.append_nil _).symm
  launches := h.launches
  lookups := h.lookups
  faults := h.faults

theorem Logs.refl (pool : Pool τ) : pool.Logs pool [] [] := (Sheds.refl pool).logs

theorem Logs.trans (h : pool.Logs middle found begun) (hn : middle.Logs next later more) :
    pool.Logs next (found ++ later) (more ++ begun) where
  looked := by rw [hn.looked, h.looked, List.append_assoc]
  launches := by rw [hn.launches, h.launches, List.append_assoc]
  lookups := by rw [hn.lookups, h.lookups, List.length_append, Nat.add_assoc]
  faults := by
    rw [hn.faults, h.faults, List.length_append, Nat.add_assoc, Nat.add_comm begun.length]

theorem Logs.sheds (h : pool.Logs middle found begun) (hn : middle.Sheds next) :
    pool.Logs next found begun := by
  have hboth := h.trans hn.logs
  rwa [List.append_nil, List.nil_append] at hboth

theorem Sheds.trans_logs (h : pool.Sheds middle) (hn : middle.Logs next found begun) :
    pool.Logs next found begun := by
  have hboth := h.logs.trans hn
  rwa [List.append_nil, List.nil_append] at hboth

-- A pool with the same journal and counts can take the place of one of the two.
theorem Logs.of_eq (h : middle.Logs next found begun) (hj : middle.journal = pool.journal)
    (hc : middle.counters = pool.counters) : pool.Logs next found begun where
  looked := by rw [h.looked, Pool.looked, hj, Pool.looked]
  launches := by rw [h.launches, Pool.launches, hj, Pool.launches]
  lookups := hc ▸ h.lookups
  faults := hc ▸ h.faults

theorem Logs.to_eq (h : pool.Logs middle found begun) (hj : next.journal = middle.journal)
    (hc : next.counters = middle.counters) : pool.Logs next found begun where
  looked := by rw [Pool.looked, hj, ← Pool.looked, h.looked]
  launches := by rw [Pool.launches, hj, ← Pool.launches, h.launches]
  lookups := hc ▸ h.lookups
  faults := hc ▸ h.faults

-- An event of a lookup is the only trace of it.
theorem logs_of_lookup {event : Event} {place : FileId × Nat}
    (hj : next.journal = event :: pool.journal) (hl : event.lookup? = some place)
    (hc : next.counters.lookups = pool.counters.lookups + 1)
    (hx : next.counters.faults = pool.counters.faults) : pool.Logs next [place] [] where
  looked := by
    rw [looked, hj, List.filterMap_cons, hl, List.reverse_cons, looked]
  launches := by
    have hnone : event.launch? = none := by
      cases event with
      | fetchStarted => cases hl
      | _ => rfl
    rw [launches, hj, List.filterMap_cons, hnone, launches, List.nil_append]
  lookups := hc
  faults := hx

-- A page that is looked up is a hit, a miss or a page in flight, and never two of them.
theorem logs_lookup (id : ReadId) (lease : Lease) (pool : Pool τ) (page : Nat) :
    pool.Logs (lookup id lease pool page) [(lease.file, page)] [] := by
  unfold lookup
  split
  · rename_i fetch data _
    let used := pool.modifyFile lease.file fun cached =>
      { cached with pages := cached.pages.touch page }
    have hhit : pool.Logs (used.emit (.pageHit lease.file page fetch)) [(lease.file, page)] [] := by
      refine logs_of_lookup rfl rfl ?_ rfl
      simp only [Pool.emit, Counters.count, Counters.lookups, used, modifyFile]
      omega
    exact hhit.sheds (sheds_addPage _ id page data)
  · rename_i fetch _ _
    have hjoined := sheds_join pool id lease ⟨page, fetch⟩
    exact hjoined.trans_logs (logs_of_lookup rfl rfl rfl rfl)
  · have hcreated : pool.Logs (pool.createPage lease.file page) [(lease.file, page)] [] := by
      refine logs_of_lookup rfl rfl ?_ rfl
      simp only [createPage, Pool.emit, Counters.count, Counters.lookups, grow, setUsed,
        modifyFile]
      omega
    exact hcreated.sheds (sheds_join _ id lease ⟨page, pool.fetches.size⟩)

theorem logs_lookups (id : ReadId) (lease : Lease) (pages : List Nat) (pool : Pool τ) :
    pool.Logs (pages.foldl (lookup id lease) pool) (pages.map (lease.file, ·)) [] := by
  induction pages generalizing pool with
  | nil => exact .refl pool
  | cons page rest ih => exact (logs_lookup id lease pool page).trans (ih _)

-- A file that is added is told of, which is no lookup.
theorem logs_enter (pool : Pool τ) (file : FileId) : pool.Logs (pool.enter file) [] [] := by
  have hold : ∀ fresh : Pool τ, pool.Logs fresh [] [] →
      pool.Logs { fresh with
        files := (fresh.files.touch file).modify file fun cached =>
          { cached with readers := cached.readers + 1 } } [] [] :=
    fun _ h => ⟨h.looked, h.launches, h.lookups, h.faults⟩
  unfold enter
  simp only
  split
  · exact hold pool (.refl pool)
  · exact hold _ ⟨(looked_emit ..), (launches_emit ..), rfl, rfl⟩

-- A read looks up each page of its span once, whatever is evicted to make room.
theorem logs_startRead (pool : Pool τ) (file : FileId) (offset stop : Nat) :
    pool.Logs (pool.startRead file offset stop)
      ((pool.limits.span offset stop).map (file, ·)) [] := by
  let entered := pool.enter file
  let registered := entered.register (entered.lease file) offset stop
  have hlooked := logs_lookups pool.gatherings.size (entered.lease file)
    (pool.limits.span offset stop) registered
  have hspan : pool.Logs (pool.lookupSpan file offset stop)
      ((pool.limits.span offset stop).map (file, ·)) [] :=
    ((logs_enter pool file).trans (hlooked.of_eq rfl rfl)).sheds (sheds_require ..)
  unfold startRead
  simp only
  split
  · exact (hspan.sheds (sheds_enforceBudget _)).sheds (sheds_arrive _ _)
  · exact hspan.sheds (sheds_arrive _ _)

-- Nothing is looked up when an outcome is seen, be it a success or not.
theorem logs_resolve (pool : Pool τ) (lease : Lease) (wait : Wait) (outcome : Outcome) :
    pool.Logs (pool.resolve lease wait outcome) [] [] := by
  unfold resolve
  split
  · rename_i fetch waiters _
    split
    · cases outcome with
      | ok answer =>
          have hstored := sheds_store pool lease.file wait waiters answer.1 answer.2
          exact hstored.logs.of_eq rfl rfl
      | error error => exact (sheds_giveUp ..).logs
    · exact (sheds_emit pool rfl).logs
  · exact (sheds_emit pool rfl).logs

end Logs

end Pool

end PageCache
