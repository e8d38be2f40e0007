import PageCache.Proofs.Renewal

namespace PageCache

namespace LruMap

variable {α : Type} {map : LruMap α} {key : Nat} {slot : Slot α}

theorem next_erase (map : LruMap α) (key : Nat) : (map.erase key).next = map.next := by
  unfold erase
  split <;> rfl

theorem next_eraseAll (map : LruMap α) (keys : List Nat) :
    (map.eraseAll keys).next = map.next := by
  unfold eraseAll
  induction keys generalizing map with
  | nil => rfl
  | cons key rest ih => rw [List.foldl_cons, ih, next_erase]

theorem mem_slots_of_eraseAll {keys : List Nat} (h : slot ∈ (map.eraseAll keys).slots) :
    slot ∈ map.slots := by
  unfold eraseAll at h
  induction keys generalizing map with
  | nil => exact h
  | cons key rest ih =>
      have hm := ih h
      rw [slots_erase] at hm
      exact List.mem_of_mem_filter hm

theorem mem_slots_of_insert {value : α} (h : slot ∈ (map.insert key value).slots) :
    slot = ⟨key, map.next, value⟩ ∨ slot ∈ map.slots := by
  simp only [insert, List.mem_cons, next_erase, slots_erase] at h
  exact h.imp_right List.mem_of_mem_filter

theorem next_insert (map : LruMap α) (key : Nat) (value : α) :
    (map.insert key value).next = map.next + 1 := by
  simp only [insert, next_erase]

end LruMap

namespace FileCache

variable {cached middle left : FileCache} {count : Nat}

-- A page of the file is being fetched. The stamp is the one that the page got when it was
-- created, for only loaded pages are used again.
def Faults (cached : FileCache) (page stamp : Nat) (fetch : FetchId) : Prop :=
  ∃ waiters, ⟨page, stamp, .fetching fetch waiters⟩ ∈ cached.pages.slots

-- What a file is fetching, it has been fetching all the while under the same stamp, or
-- both the stamp and the fetch have come up since. `count` fetches were there before.
structure Ages (cached left : FileCache) (count : Nat) : Prop where
  serial : left.serial = cached.serial
  next : cached.pages.next ≤ left.pages.next
  faults : ∀ page stamp fetch, left.Faults page stamp fetch →
    cached.Faults page stamp fetch ∨ cached.pages.next ≤ stamp ∧ count ≤ fetch

theorem Ages.trans {more : Nat} (h : cached.Ages middle count) (hn : middle.Ages left more)
    (hle : count ≤ more) : cached.Ages left count where
  serial := hn.serial.trans h.serial
  next := h.next.trans hn.next
  faults page stamp fetch hf := by
    rcases hn.faults page stamp fetch hf with hold | ⟨hs, hm⟩
    · exact h.faults page stamp fetch hold
    · exact .inr ⟨h.next.trans hs, hle.trans hm⟩

theorem Ages.of_slots (hs : left.serial = cached.serial)
    (hn : cached.pages.next ≤ left.pages.next)
    (hsub : ∀ page stamp fetch, left.Faults page stamp fetch → cached.Faults page stamp fetch) :
    cached.Ages left count :=
  ⟨hs, hn, fun page stamp fetch hf => .inl (hsub page stamp fetch hf)⟩

theorem Ages.refl (cached : FileCache) : cached.Ages cached count :=
  .of_slots rfl (Nat.le_refl _) fun _ _ _ hf => hf

theorem Ages.drop (h : cached.Ages left count) (pages : List Nat) :
    cached.Ages (left.drop pages) count where
  serial := h.serial
  next := by
    rw [FileCache.drop, LruMap.next_eraseAll]
    exact h.next
  faults page stamp fetch hf := by
    obtain ⟨waiters, hm⟩ := hf
    exact h.faults page stamp fetch ⟨waiters, LruMap.mem_slots_of_eraseAll hm⟩

-- A page that is loaded, or used when it was loaded already, is not being fetched.
theorem faults_of_insert_loaded {page stamp key : Nat} {fetch loader : FetchId} {data : Bytes}
    (h : Faults { cached with pages := cached.pages.insert key (.loaded loader data) } page stamp
      fetch) : cached.Faults page stamp fetch := by
  obtain ⟨waiters, hm⟩ := h
  rcases LruMap.mem_slots_of_insert hm with he | hm
  · cases he
  · exact ⟨waiters, hm⟩

theorem ages_insert_loaded (cached : FileCache) (page : Nat) (fetch : FetchId) (data : Bytes)
    (attributes : Option Attributes) :
    cached.Ages { cached with
      pages := cached.pages.insert page (.loaded fetch data), attributes := attributes } count := by
  refine .of_slots rfl ?_ fun _ _ _ hf => faults_of_insert_loaded hf
  rw [LruMap.next_insert]
  exact Nat.le_succ _

theorem ages_touch {page : Nat} {fetch : FetchId} {data : Bytes}
    (hp : cached.pages.find? page = some (.loaded fetch data)) :
    cached.Ages { cached with pages := cached.pages.touch page } count := by
  simp only [LruMap.touch, hp]
  exact ages_insert_loaded cached page fetch data cached.attributes

theorem ages_load (cached : FileCache) (page : Nat) (fetch : FetchId) (data : Bytes)
    (attributes : Attributes) : cached.Ages (cached.load page fetch data attributes) count := by
  have hstored : cached.Ages { cached with
      pages := cached.pages.insert page (.loaded fetch data)
      attributes := some attributes } count := ages_insert_loaded ..
  unfold load
  simp only
  split
  · exact hstored.drop _
  · exact hstored

theorem ages_insert_fetching (cached : FileCache) (page : Nat) :
    cached.Ages { cached with pages := cached.pages.insert page (.fetching count []) } count where
  serial := rfl
  next := by
    rw [LruMap.next_insert]
    exact Nat.le_succ _
  faults name stamp fetch hf := by
    obtain ⟨waiters, hm⟩ := hf
    rcases LruMap.mem_slots_of_insert hm with he | hm
    · cases he
      exact .inr ⟨Nat.le_refl _, Nat.le_refl _⟩
    · exact .inl ⟨waiters, hm⟩

theorem ages_wait (cached : FileCache) (page : Nat) (read : ReadId) :
    cached.Ages { cached with pages := cached.pages.modify page (Page.wait read) } count := by
  refine .of_slots rfl (Nat.le_refl _) fun name stamp fetch hf => ?_
  obtain ⟨waiters, hm⟩ := hf
  obtain ⟨⟨key, time, value⟩, hs, he⟩ := List.mem_map.mp hm
  by_cases hk : key = page
  · rw [if_pos hk] at he
    cases value with
    | loaded loader data => cases he
    | fetching found readers =>
        cases he
        exact ⟨readers, hs⟩
  · rw [if_neg hk] at he
    cases he
    exact ⟨waiters, hs⟩

theorem ages_refresh (cached : FileCache) (attributes : Attributes) :
    cached.Ages (cached.refresh attributes) count := by
  have hrecorded : cached.Ages { cached with attributes := some attributes } count :=
    .of_slots rfl (Nat.le_refl _) fun _ _ _ hf => hf
  unfold refresh
  simp only
  split
  · exact hrecorded.drop _
  · exact hrecorded

theorem ages_forget (cached : FileCache) : cached.Ages cached.forget count := by
  have hrecorded : cached.Ages { cached with attributes := none } count :=
    .of_slots rfl (Nat.le_refl _) fun _ _ _ hf => hf
  exact hrecorded.drop _

end FileCache

namespace Pool

variable {τ : Type} {pool middle next : Pool τ} {file : FileId}

-- Files that are cached now have been cached all the while and have aged, or they were
-- added since and have serial numbers of their own.
structure Ages (pool next : Pool τ) : Prop where
  serials : pool.serials ≤ next.serials
  size : pool.fetches.size ≤ next.fetches.size
  file : ∀ file left, next.files.find? file = some left →
    (∃ cached, pool.files.find? file = some cached ∧ cached.Ages left pool.fetches.size) ∨
      pool.serials ≤ left.serial ∧ left.serial < next.serials

theorem Ages.refl (pool : Pool τ) : pool.Ages pool where
  serials := Nat.le_refl _
  size := Nat.le_refl _
  file _ left hf := .inl ⟨left, hf, .refl left⟩

theorem Ages.trans (h : pool.Ages middle) (hn : middle.Ages next) : pool.Ages next where
  serials := h.serials.trans hn.serials
  size := h.size.trans hn.size
  file file left hf := by
    rcases hn.file file left hf with ⟨halfway, hm, hages⟩ | ⟨hge, hlt⟩
    · rcases h.file file halfway hm with ⟨cached, hc, hfirst⟩ | ⟨hge, hlt⟩
      · exact .inl ⟨cached, hc, hfirst.trans hages h.size⟩
      · rw [← hages.serial] at hge hlt
        exact .inr ⟨hge, hlt.trans_le hn.serials⟩
    · exact .inr ⟨h.serials.trans hge, hlt⟩

theorem Updates.ages {change : FileCache → FileCache} (h : pool.Updates next file change)
    (hn : next.serials = pool.serials) (hx : pool.fetches.size ≤ next.fetches.size)
    (hc : ∀ cached, pool.files.find? file = some cached →
      cached.Ages (change cached) pool.fetches.size) : pool.Ages next where
  serials := Nat.le_of_eq hn.symm
  size := hx
  file other left hf := by
    rw [h.find? other] at hf
    by_cases he : other = file
    · subst he
      rw [if_pos rfl] at hf
      obtain ⟨cached, hcached, rfl⟩ := Option.map_eq_some_iff.mp hf
      exact .inl ⟨cached, hcached, hc cached hcached⟩
    · rw [if_neg he] at hf
      exact .inl ⟨left, hf, .refl left⟩

theorem serials_shrink (pool : Pool τ) (pages : Nat) :
    (pool.shrink pages).serials = pool.serials := serials_require ..

theorem serials_dropPages (pool : Pool τ) (file : FileId) (pages : List Nat) (event : Event) :
    (pool.dropPages file pages event).serials = pool.serials := serials_shrink ..

theorem serials_load (pool : Pool τ) (file : FileId) (wait : Wait) (waiters : List ReadId)
    (data : Bytes) (attributes : Attributes) :
    (pool.load file wait waiters data attributes).serials = pool.serials := by
  have hstale : ∀ (pool : Pool τ) (keep : Nat),
      (pool.dropStale file keep).serials = pool.serials := by
    intro pool keep
    unfold dropStale
    split
    · rfl
    · simp only
      split
      · rfl
      · exact serials_dropPages ..
  unfold load
  simp only
  split
  · exact hstale _ _
  · rfl

theorem serials_invalidate (pool : Pool τ) (file : FileId) :
    (pool.invalidate file).1.serials = pool.serials := by
  unfold invalidate
  split
  · rfl
  · exact serials_dropPages ..

theorem serials_revalidate (pool : Pool τ) (file : FileId) (attributes : Attributes) :
    (pool.revalidate file attributes).1.serials = pool.serials := by
  unfold revalidate
  split
  · rfl
  · simp only
    split
    · exact serials_dropPages ..
    · rfl

theorem ages_enter (pool : Pool τ) (file : FileId) : pool.Ages (pool.enter file) where
  serials := by
    unfold enter
    simp only
    split
    · exact Nat.le_refl _
    · exact Nat.le_succ _
  size := Nat.le_of_eq (congrArg Array.size (enter_frame pool file).2.1).symm
  file other left hf := by
    rw [find?_enter] at hf
    by_cases he : other = file
    · subst he
      rw [if_pos rfl] at hf
      cases hf
      cases hfile : pool.files.find? other with
      | some cached =>
          have hres : pool.resident other = cached := by rw [resident, hfile, Option.getD_some]
          rw [hres]
          exact .inl ⟨cached, rfl, .of_slots rfl (Nat.le_refl _) fun _ _ _ hf => hf⟩
      | none =>
          have hres : pool.resident other = { serial := pool.serials } := by
            rw [resident, hfile, Option.getD_none]
          have hserials : (pool.enter other).serials = pool.serials + 1 := by
            simp [enter, LruMap.contains_eq_isSome, hfile, emit]
          rw [hres, hserials]
          exact .inr ⟨Nat.le_refl _, Nat.lt_succ_self _⟩
    · rw [if_neg he] at hf
      exact .inl ⟨left, hf, .refl left⟩

theorem ages_removeFile {cached : FileCache} (hf : pool.files.find? file = some cached) :
    pool.Ages (pool.removeFile file) where
  serials := by
    have hserials : (pool.removeFile file).serials = pool.serials := by
      simp only [removeFile, hf, emit]
      exact serials_shrink ..
    exact Nat.le_of_eq hserials.symm
  size := by
    have hrenews : pool.Renews (pool.removeFile file) fun _ _ => False := renews_removeFile hf
    exact hrenews.size
  file other left hleft := by
    rw [files_removeFile hf] at hleft
    exact .inl ⟨left, (LruMap.find?_of_erase hleft).2, .refl left⟩

theorem Move.ages {op : Op} (h : Move op pool next) : pool.Ages next := by
  have hsize := h.renews.size
  cases h with
  | aside h =>
      refine ⟨Nat.le_of_eq h.serials.symm, hsize, fun file left hf => ?_⟩
      exact .inl ⟨left, h.files ▸ hf, .refl left⟩
  | enter => exact ages_enter pool _
  | create =>
      exact Updates.ages ⟨fun other => find?_modifyFile ..⟩ rfl hsize
        fun cached _ => FileCache.ages_insert_fetching cached _
  | wait file page id =>
      exact (updates_modifyFile ..).ages rfl hsize fun cached _ => cached.ages_wait page id
  | use file page hp =>
      refine (updates_modifyFile ..).ages rfl hsize fun cached hf => ?_
      rw [pageAt?, hf, Option.bind_some] at hp
      exact FileCache.ages_touch hp
  | load hp =>
      obtain ⟨cached, hf, _⟩ := Option.bind_eq_some_iff.mp hp
      exact (updates_load hf ..).ages (serials_load ..) hsize fun cached _ => cached.ages_load ..
  | fail =>
      exact (updates_dropPages ..).ages (serials_dropPages ..) hsize
        fun cached _ => (FileCache.Ages.refl cached).drop _
  | evict =>
      exact (updates_dropPages ..).ages (serials_dropPages ..) hsize
        fun cached _ => (FileCache.Ages.refl cached).drop _
  | remove hf => exact ages_removeFile hf
  | part file =>
      exact (updates_modifyFile ..).ages rfl hsize
        fun _ _ => .of_slots rfl (Nat.le_refl _) fun _ _ _ hf => hf
  | mark file =>
      exact (updates_modifyFile ..).ages rfl hsize
        fun _ _ => .of_slots rfl (Nat.le_refl _) fun _ _ _ hf => hf
  | @invalidate file =>
      exact (updates_invalidate ..).ages (serials_invalidate ..) hsize
        fun cached _ => cached.ages_forget
  | @revalidate file attributes =>
      exact (updates_revalidate ..).ages (serials_revalidate ..) hsize
        fun cached _ => cached.ages_refresh attributes

theorem Moves.ages {op : Op} (h : Moves op pool next) : pool.Ages next := by
  induction h with
  | refl => exact .refl pool
  | tail _ hlast ih => exact ih.trans hlast.ages

-- The page waits for this fetch under this stamp, in the file that the lease is for.
def Faulting (pool : Pool τ) (lease : Lease) (page stamp : Nat) (fetch : FetchId) : Prop :=
  ∃ cached, pool.leased? lease = some cached ∧ cached.Faults page stamp fetch

section Faulting

variable {lease : Lease} {page name stamp other : Nat} {fetch found : FetchId}

theorem leased?_eq_some_iff {cached : FileCache} : pool.leased? lease = some cached ↔
    pool.files.find? lease.file = some cached ∧ cached.serial = lease.serial := by
  simp [leased?, Option.filter_eq_some_iff]

theorem faulting_iff (ho : pool.Ordered) (hl : pool.Holds lease) :
    (∃ stamp, pool.Faulting lease page stamp fetch) ↔
      ∃ waiters, pool.pageAt? lease.file page = some (.fetching fetch waiters) := by
  obtain ⟨cached, hf, hs⟩ := hl
  rw [pageAt?, hf, Option.bind_some]
  constructor
  · rintro ⟨stamp, cached', hc, waiters, hm⟩
    cases hf.symm.trans (leased?_eq_some_iff.mp hc).1
    exact ⟨waiters, (LruMap.find?_eq_some_iff (ho.pages _ cached hf)).mpr ⟨_, hm, rfl, rfl⟩⟩
  · rintro ⟨waiters, hp⟩
    obtain ⟨⟨key, stamp, value⟩, hm, rfl, rfl⟩ :=
      (LruMap.find?_eq_some_iff (ho.pages _ cached hf)).mp hp
    exact ⟨stamp, cached, leased?_eq_some_iff.mpr ⟨hf, hs⟩, waiters, hm⟩

-- Within one file the stamps tell faults apart as well as the fetches do, also when one of
-- them was seen some time ago: the file has not been replaced since, as the lease is good.
theorem Ages.stamp_eq_iff (h : pool.Ages next) (ho : pool.Ordered) (hb : pool.Backed)
    (hs : lease.serial < pool.serials) (hp : pool.Faulting lease page stamp fetch)
    (hn : next.Faulting lease name other found) : other = stamp ↔ found = fetch := by
  obtain ⟨cached, hc, hp⟩ := hp
  obtain ⟨left, hl, hn⟩ := hn
  obtain ⟨hfile, hserial⟩ := leased?_eq_some_iff.mp hc
  obtain ⟨hleft, hsame⟩ := leased?_eq_some_iff.mp hl
  have hordered := ho.pages _ cached hfile
  have hfind : ∀ {page stamp fetch}, cached.Faults page stamp fetch → ∃ waiters,
      pool.pageAt? lease.file page = some (.fetching fetch waiters) := fun hf =>
    (faulting_iff ho ⟨cached, hfile, hserial⟩).mp ⟨_, cached, hc, hf⟩
  rcases h.file _ left hleft with ⟨old, hold, hages⟩ | ⟨hge, _⟩
  · cases hfile.symm.trans hold
    rcases hages.faults name other found hn with hn | ⟨hstamp, hfetch⟩
    · -- both have been there before
      obtain ⟨waiters, hm⟩ := hp
      obtain ⟨readers, hr⟩ := hn
      constructor
      · rintro rfl
        cases hordered.slot_eq_of_stamp hr hm rfl
        rfl
      · rintro rfl
        obtain ⟨_, hpage⟩ := hfind ⟨waiters, hm⟩
        obtain ⟨_, hname⟩ := hfind ⟨readers, hr⟩
        have hcall := (hb.fetching _ _ _ _ hpage).1.symm.trans (hb.fetching _ _ _ _ hname).1
        simp only [Option.some.injEq, Call.mk.injEq, and_true, true_and] at hcall
        subst hcall
        cases hordered.slot_eq_of_key hr hm rfl
        rfl
    · -- one is new, and so are its stamp and its fetch
      obtain ⟨_, hpage⟩ := hfind hp
      obtain ⟨waiters, hm⟩ := hp
      have hentry : (stamp, page) ∈ cached.pages.order :=
        hordered.order.mem_iff.mpr (List.mem_map.mpr ⟨_, hm, rfl⟩)
      have hlt : stamp < cached.pages.next := hordered.bounded _ hentry
      have hstampne : other ≠ stamp := by omega
      exact iff_of_false hstampne (Nat.ne_of_gt ((hb.fetch_lt hpage).trans_le hfetch))
  · omega

end Faulting

end Pool

namespace Mount

variable {σ τ : Type}

theorem ages_act (backend : Backend σ τ) (mount : Mount σ τ) (act : Act σ) :
    mount.pool.Ages (mount.act backend act).1.pool := by
  cases act with
  | change become => exact .refl mount.pool
  | ask op => exact (moves_step backend mount op).ages

theorem ages_run (backend : Backend σ τ) (mount : Mount σ τ) (acts : List (Act σ)) :
    mount.pool.Ages (mount.run backend acts).pool := by
  induction acts generalizing mount with
  | nil => exact .refl mount.pool
  | cons act rest ih => exact (ages_act backend mount act).trans (ih _)

-- The serial number of a file is one of those that were handed out.
theorem serial_lt_of_ages {limits : Limits} {storage : σ} {pool : Pool τ}
    (h : (create limits storage : Mount σ τ).pool.Ages pool) {file : FileId}
    {cached : FileCache} (hf : pool.files.find? file = some cached) :
    cached.serial < pool.serials := by
  rcases h.file file cached hf with ⟨_, hnone, _⟩ | ⟨_, hlt⟩
  · cases hnone
  · exact hlt

end Mount

end PageCache
