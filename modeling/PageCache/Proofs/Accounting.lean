import PageCache.Proofs.Moves
import PageCache.Proofs.Totals

namespace PageCache

theorem FileCache.victims_sublist (cached : FileCache) (limit : Nat) :
    (cached.victims limit).Sublist cached.pages.keys :=
  (List.take_sublist _ _).trans List.filter_sublist

theorem FileCache.unwaited_sublist (cached : FileCache) :
    cached.unwaited.Sublist cached.pages.keys := List.filter_sublist

namespace Pool

variable {τ : Type}

-- The number of pages that all cached files hold.
def pagesHeld (pool : Pool τ) : Nat := pool.files.total (·.pages.size)

-- The pages are counted, the gauge shows the count, and no page was ever taken off it that
-- was not on it.
structure Accounted (pool : Pool τ) : Prop where
  used : pool.pagesUsed = pool.pagesHeld
  gauge : pool.counters.pages = pool.pagesUsed
  sound : .breached .pagesUnderflow ∉ pool.journal

section Accounted

variable {pool : Pool τ} {file : FileId} {cached : FileCache}

theorem Ordered.pagesHeld_modifyFile (h : pool.Ordered)
    (hf : pool.files.find? file = some cached) (change : FileCache → FileCache) :
    (pool.modifyFile file change).pagesHeld + cached.pages.size =
      pool.pagesHeld + (change cached).pages.size :=
  h.files.total_modify _ hf change

theorem Accounted.aside {next : Pool τ} (h : pool.Accounted) (ha : pool.Aside next) :
    next.Accounted where
  used := by
    rw [ha.used, h.used, pagesHeld, pagesHeld, ha.files]
  gauge := by
    rw [ha.gauge, ha.used, h.gauge]
  sound := by
    obtain ⟨events, he, haside⟩ := ha.journal
    rw [he, List.mem_append]
    rintro (hm | hm)
    · exact absurd (haside _ hm) (by decide)
    · exact h.sound hm

theorem Accounted.emit (h : pool.Accounted) {event : Event}
    (he : event ≠ .breached .pagesUnderflow) : (pool.emit event).Accounted where
  used := h.used
  gauge := (Counters.pages_count _ _).trans h.gauge
  sound hm := (List.mem_cons.mp hm).elim (fun hb => he hb.symm) h.sound

-- A file may change in anything but the number of its pages.
theorem Accounted.modifyFile (h : pool.Accounted) (ho : pool.Ordered)
    {change : FileCache → FileCache}
    (hc : ∀ cached, pool.files.find? file = some cached →
      (change cached).pages.size = cached.pages.size) :
    (pool.modifyFile file change).Accounted where
  used := by
    cases hf : pool.files.find? file with
    | none =>
        rw [pagesHeld, Pool.modifyFile, LruMap.modify_eq_self hf]
        exact h.used
    | some cached =>
        have hheld := ho.pagesHeld_modifyFile hf change
        rw [hc cached hf] at hheld
        exact h.used.trans (Nat.add_right_cancel hheld).symm
  gauge := h.gauge
  sound := h.sound

-- Pages are taken off the count after they have gone.
theorem accounted_shrink {bare : Pool τ} {pages : Nat}
    (hu : bare.pagesUsed = bare.pagesHeld + pages)
    (hs : .breached .pagesUnderflow ∉ bare.journal) : (bare.shrink pages).Accounted := by
  have hle : pages ≤ bare.pagesUsed := hu ▸ Nat.le_add_left _ _
  simp only [shrink, decide_eq_true hle, require, if_true]
  exact ⟨Nat.sub_eq_of_eq_add hu, rfl, hs⟩

theorem Ordered.pagesHeld_drop (h : pool.Ordered) (hf : pool.files.find? file = some cached)
    {pages : List Nat} (hn : pages.Nodup) (hk : pages ⊆ cached.pages.keys) :
    (pool.modifyFile file (·.drop pages)).pagesHeld + pages.length = pool.pagesHeld := by
  have hheld := h.pagesHeld_modifyFile hf (·.drop pages)
  have hsize := (h.pages file cached hf).size_eraseAll hn hk
  simp only [FileCache.drop] at hheld ⊢
  omega

theorem Accounted.dropPages (h : pool.Accounted) (ho : pool.Ordered)
    (hf : pool.files.find? file = some cached) {pages : List Nat}
    (hn : pages.Nodup) (hk : pages ⊆ cached.pages.keys) {event : Event}
    (he : event ≠ .breached .pagesUnderflow) : (pool.dropPages file pages event).Accounted := by
  refine accounted_shrink ?_ ?_
  · exact h.used.trans (ho.pagesHeld_drop hf hn hk).symm
  · exact fun hm => (List.mem_cons.mp hm).elim (fun hb => he hb.symm) h.sound

theorem Accounted.removeFile (h : pool.Accounted) (ho : pool.Ordered)
    (hf : pool.files.find? file = some cached) : (pool.removeFile file).Accounted := by
  have hheld := ho.files.total_erase (·.pages.size) hf
  simp only [Pool.removeFile, hf]
  have hshrunk :
      ({ pool with files := pool.files.erase file }.shrink cached.pages.size).Accounted :=
    accounted_shrink (h.used.trans hheld.symm) h.sound
  refine ⟨hshrunk.used, (Counters.pages_count _ _).trans hshrunk.gauge, fun hm => ?_⟩
  rcases List.mem_cons.mp hm with hb | hm
  · cases hb
  · exact hshrunk.sound hm

theorem Accounted.createPage (h : pool.Accounted) (ho : pool.Ordered)
    (hf : pool.files.find? file = some cached) {page : Nat}
    (hp : cached.pages.find? page = none) : (pool.createPage file page).Accounted := by
  have hheld := ho.pagesHeld_modifyFile hf fun cached =>
    { cached with pages := cached.pages.insert page (.fetching pool.fetches.size []) }
  have hsize := (ho.pages file cached hf).total_insert (fun _ => 1) page
    (.fetching pool.fetches.size [])
  simp only [LruMap.total_one, hp, Option.map_none, Option.getD_none] at hsize
  dsimp only at hheld
  have hused := h.used
  refine ⟨?_, Counters.pages_count _ _, fun hm => ?_⟩
  · change pool.pagesUsed + 1 = (pool.modifyFile file _).pagesHeld
    omega
  · exact (List.mem_cons.mp hm).elim (fun hb => nomatch hb) h.sound

-- A file that is cached for the first time holds no page.
theorem Accounted.enter (h : pool.Accounted) (ho : pool.Ordered) (file : FileId) :
    (pool.enter file).Accounted := by
  have hcount : ∀ pool : Pool τ, pool.Accounted → pool.Ordered →
      ({ pool with files := (pool.files.touch file).modify file fun cached =>
        { cached with readers := cached.readers + 1 } } : Pool τ).Accounted := by
    intro pool h ho
    have htouched : ({ pool with files := pool.files.touch file } : Pool τ).Accounted :=
      ⟨h.used.trans (ho.files.total_touch _ file).symm, h.gauge, h.sound⟩
    refine htouched.modifyFile ⟨ho.files.touch file, fun other cached hf => ?_⟩ fun _ _ => rfl
    exact ho.pages other cached ((LruMap.find?_touch ..).symm.trans hf)
  unfold Pool.enter
  simp only
  split
  · exact hcount pool h ho
  · rename_i hc
    have hf : pool.files.find? file = none := by
      simpa [LruMap.contains_eq_isSome] using hc
    have hheld := ho.files.total_insert (·.pages.size) file { serial := pool.serials }
    rw [hf] at hheld
    refine hcount _ ⟨h.used.trans hheld.symm, ?_, ?_⟩ ⟨ho.files.insert file _, ?_⟩
    · exact (Counters.pages_count _ _).trans h.gauge
    · exact fun hm => (List.mem_cons.mp hm).elim (fun hb => nomatch hb) h.sound
    · intro other cached hfound
      simp only [Pool.emit, LruMap.find?_insert] at hfound
      split at hfound
      · cases hfound
        exact LruMap.Ordered.empty
      · exact ho.pages other cached hfound

-- Pages that no read waits for can go at any time.
theorem Accounted.dropUnwaited (h : pool.Accounted) (ho : pool.Ordered)
    (hf : pool.files.find? file = some cached) {pages : List Nat}
    (hp : pages.Sublist cached.unwaited) {event : Event}
    (he : event ≠ .breached .pagesUnderflow) : (pool.dropPages file pages event).Accounted := by
  have hkeys := hp.trans cached.unwaited_sublist
  exact h.dropPages ho hf ((ho.pages file cached hf).nodup_keys.sublist hkeys) hkeys.subset he

theorem Accounted.dropStale (h : pool.Accounted) (ho : pool.Ordered) (file : FileId)
    (keep : Nat) : (pool.dropStale file keep).Accounted := by
  unfold Pool.dropStale
  split
  · exact h
  · rename_i cached hf
    simp only
    split
    · exact h
    · exact h.dropUnwaited ho hf List.filter_sublist (by simp)

-- The bytes of a fetch take the place of the page that waited for it.
theorem Accounted.insert (h : pool.Accounted) (ho : pool.Ordered) {page : Nat} {found : Page}
    (hp : pool.pageAt? file page = some found) (value : Page) (attributes : Option Attributes) :
    (pool.modifyFile file fun cached =>
      { cached with
        pages := cached.pages.insert page value, attributes := attributes }).Accounted := by
  refine h.modifyFile ho fun cached hf => ?_
  have hfound : cached.pages.find? page = some found := by
    simpa [pageAt?, hf] using hp
  have hsize := (ho.pages file cached hf).total_insert (fun _ => 1) page value
  simpa [hfound, LruMap.total_one] using hsize

theorem Accounted.load (h : pool.Accounted) (ho : pool.Ordered) {wait : Wait}
    {waiters : List ReadId} {data : Bytes} {attributes : Attributes}
    (hp : pool.pageAt? file wait.page = some (.fetching wait.fetch waiters)) :
    (pool.load file wait waiters data attributes).Accounted := by
  let stored := pool.modifyFile file fun cached =>
    { cached with
      pages := cached.pages.insert wait.page (.loaded wait.fetch data)
      attributes := some attributes }
  have hordered : stored.Ordered := ho.modifyFile file fun _ _ hc => hc.insert wait.page _
  have hstored : stored.Accounted := h.insert ho hp _ _
  have hfresh : (if (pool.files.find? file).any (·.isStale attributes)
      then stored.dropStale file wait.page else stored).Accounted := by
    split
    · exact hstored.dropStale hordered file wait.page
    · exact hstored
  exact hfresh.emit (by simp)

theorem Accounted.invalidate (h : pool.Accounted) (ho : pool.Ordered) (file : FileId) :
    (pool.invalidate file).1.Accounted := by
  unfold Pool.invalidate
  split
  · exact h
  · rename_i cached hf
    have hforgotten : (pool.modifyFile file fun cached =>
        { cached with attributes := none }).Accounted := h.modifyFile ho fun _ _ => rfl
    have hfound : (pool.modifyFile file fun cached =>
        { cached with attributes := none }).files.find? file =
          some { cached with attributes := none } := by
      rw [find?_modifyFile, if_pos rfl, hf, Option.map_some]
    exact hforgotten.dropUnwaited (ho.modifyFile file fun _ _ hc => hc) hfound (.refl _) (by simp)

theorem Accounted.revalidate (h : pool.Accounted) (ho : pool.Ordered) (file : FileId)
    (attributes : Attributes) : (pool.revalidate file attributes).1.Accounted := by
  unfold Pool.revalidate
  split
  · exact h
  · rename_i cached hf
    have hrecorded : (pool.modifyFile file fun cached =>
        { cached with attributes := some attributes }).Accounted := h.modifyFile ho fun _ _ => rfl
    have hfound : (pool.modifyFile file fun cached =>
        { cached with attributes := some attributes }).files.find? file =
          some { cached with attributes := some attributes } := by
      rw [find?_modifyFile, if_pos rfl, hf, Option.map_some]
    simp only
    split
    · exact hrecorded.dropUnwaited (ho.modifyFile file fun _ _ hc => hc) hfound (.refl _) (by simp)
    · exact hrecorded

end Accounted

theorem Move.accounted {op : Op} {pool next : Pool τ} (h : Move op pool next) (ho : pool.Ordered)
    (ha : pool.Accounted) : next.Accounted := by
  cases h with
  | aside h => exact ha.aside h
  | enter => exact ha.enter ho _
  | create _ hf hp => exact ha.createPage ho hf hp
  | wait file page id => exact ha.modifyFile ho fun _ _ => LruMap.size_modify ..
  | use file page =>
      refine ha.modifyFile ho fun cached hf => ?_
      simpa only [LruMap.total_one] using
        (ho.pages file cached hf).total_touch (fun _ => 1) page
  | load hp => exact ha.load ho hp
  | fail hp =>
      obtain ⟨cached, hf, hfound⟩ := Option.bind_eq_some_iff.mp hp
      have hkey := (ho.pages _ cached hf).mem_keys.mpr ⟨_, hfound⟩
      exact ha.dropPages ho hf (List.nodup_singleton _) (by simpa using hkey) (by simp)
  | @evict file cached hf limit =>
      have hkeys := cached.victims_sublist limit
      exact ha.dropPages ho hf ((ho.pages _ _ hf).nodup_keys.sublist hkeys) hkeys.subset (by simp)
  | remove hf => exact ha.removeFile ho hf
  | part file => exact ha.modifyFile ho fun _ _ => rfl
  | mark file => exact ha.modifyFile ho fun _ _ => rfl
  | invalidate => exact ha.invalidate ho _
  | revalidate => exact ha.revalidate ho _ _

end Pool

namespace Mount

variable {σ τ : Type}

theorem accounted_run (backend : Backend σ τ) (limits : Limits) (storage : σ)
    (acts : List (Act σ)) : (run backend (create limits storage) acts).pool.Accounted := by
  have hfresh : ({ limits := limits } : Pool τ).Accounted := ⟨rfl, rfl, List.not_mem_nil⟩
  exact run_create_preserves backend (fun _ _ _ hm => hm.accounted) limits storage acts hfresh

-- The count of pages is exact at all times. It is the number of pages that the cached files
-- hold between them, the gauge shows it, and no page is taken off it twice.
theorem pages_accounted (backend : Backend σ τ) (limits : Limits) (storage : σ)
    (acts : List (Act σ)) :
    let pool := (run backend (create limits storage) acts).pool
    pool.pagesUsed = pool.pagesHeld ∧ pool.counters.pages = pool.pagesUsed ∧
      .breached .pagesUnderflow ∉ pool.journal := by
  intro pool
  have haccounted := accounted_run backend limits storage acts
  exact ⟨haccounted.used, haccounted.gauge, haccounted.sound⟩

end Mount

end PageCache
