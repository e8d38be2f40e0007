import PageCache.Proofs.MirroredControl

namespace PageCache

namespace Pool

variable {τ : Type} {pool next mirror : Pool τ} {file other : FileId} {mine : ReadId → Prop}
  {numbers : Numbering} {id : ReadId} {lease : Lease}

-- Nothing happens to the file, to the fetches of its pages and to the reads in question.
structure Apart (file : FileId) (mine : ReadId → Prop) (pool next : Pool τ) : Prop where
  limits : next.limits = pool.limits
  cached : next.files.find? file = pool.files.find? file
  fetch : ∀ (id : FetchId) (fetch : Fetch τ), next.fetches[id]? = some fetch →
    fetch.call.file = file → pool.fetches[id]? = some fetch
  gathering : ∀ id, mine id → next.gatherings[id]? = pool.gatherings[id]?
  live : ∀ id, mine id → next.live? id = pool.live? id

theorem Apart.refl (file : FileId) (mine : ReadId → Prop) (pool : Pool τ) :
    Apart file mine pool pool :=
  ⟨rfl, rfl, fun _ _ hf _ => hf, fun _ _ => rfl, fun _ _ => rfl⟩

theorem Apart.trans {middle : Pool τ} (h : Apart file mine pool middle)
    (hn : Apart file mine middle next) : Apart file mine pool next where
  limits := hn.limits.trans h.limits
  cached := hn.cached.trans h.cached
  fetch id fetch hf hown := h.fetch id fetch (hn.fetch id fetch hf hown) hown
  gathering id hid := (hn.gathering id hid).trans (h.gathering id hid)
  live id hid := (hn.live id hid).trans (h.live id hid)

-- So it is mirrored as before.
theorem Mirrors.apart (h : Mirrors file mine numbers pool mirror) (ha : Apart file mine pool next) :
    Mirrors file mine numbers next mirror where
  limits := h.limits.trans ha.limits.symm
  cached := by rw [ha.cached]; exact h.cached
  alone := h.alone
  fetch id fetch hf hown := h.fetch id fetch (ha.fetch id fetch hf hown) hown
  fetches id other hid ho := by
    have howns : ∀ name, next.Owns file name → pool.Owns file name := by
      intro name hname
      obtain ⟨fetch, hf, hown⟩ := owns_iff.mp hname
      exact owns_iff.mpr ⟨fetch, ha.fetch name fetch hf hown, hown⟩
    exact h.fetches id other (howns id hid) (howns other ho)
  gathering id hid := (h.gathering id hid).trans (ha.gathering id hid).symm
  reads := h.reads
  waits id hid := by rw [ha.live id hid]; exact h.waits id hid

theorem apart_of_rests (hr : pool.Rests next)
    (hf : next.files.find? file = pool.files.find? file) : Apart file mine pool next where
  limits := hr.limits
  cached := hf
  fetch id fetch hf _ := hr.fetches ▸ hf
  gathering id _ := by rw [hr.gatherings]
  live id _ := live?_of_live hr.live id

theorem apart_of_updates {change : FileCache → FileCache} (hr : pool.Rests next)
    (hu : pool.Updates next other change) (hne : file ≠ other) : Apart file mine pool next :=
  apart_of_rests hr (by rw [hu.find? file, if_neg hne])

theorem apart_modifyFile (pool : Pool τ) (hne : file ≠ other) (change : FileCache → FileCache) :
    Apart file mine pool (pool.modifyFile other change) :=
  apart_of_updates (rests_modifyFile ..) (updates_modifyFile ..) hne

theorem apart_emit (pool : Pool τ) (event : Event) : Apart file mine pool (pool.emit event) :=
  apart_of_rests (rests_emit ..) rfl

theorem apart_require (pool : Pool τ) (holds : Bool) (breach : Breach) :
    Apart file mine pool (pool.require holds breach) :=
  apart_of_rests (rests_require ..) (by rw [files_require])

theorem apart_dropPages (pool : Pool τ) (hne : file ≠ other) (pages : List Nat) (event : Event) :
    Apart file mine pool (pool.dropPages other pages event) :=
  apart_of_updates (rests_dropPages ..) (updates_dropPages ..) hne

theorem apart_removeFile (pool : Pool τ) (hne : file ≠ other) :
    Apart file mine pool (pool.removeFile other) := by
  refine apart_of_rests (rests_removeFile ..) ?_
  cases hf : pool.files.find? other with
  | none => simp only [removeFile, hf]
  | some cached => rw [files_removeFile hf, LruMap.find?_erase_of_ne _ hne]

theorem apart_of_delivers {ids : List ReadId} {change : Gathering → Gathering}
    (hd : pool.Delivers next ids change) (hids : ∀ id ∈ ids, ¬ mine id) :
    Apart file mine pool next where
  limits := hd.limits
  cached := by rw [hd.files]
  fetch id fetch hf _ := hd.fetches ▸ hf
  gathering id hid := by rw [hd.gatherings, if_neg fun hm => hids id hm hid]
  live id _ := live?_of_live hd.live id

theorem apart_addPage (pool : Pool τ) (hid : ¬ mine id) (page : Nat) (data : Bytes) :
    Apart file mine pool (pool.addPage id page data) :=
  apart_of_delivers (delivers_addPage ..) fun _ hm => List.mem_singleton.mp hm ▸ hid

theorem apart_arrive (pool : Pool τ) (hid : ¬ mine id) :
    Apart file mine pool (pool.arrive id) :=
  apart_of_delivers (delivers_arrive ..) fun _ hm => List.mem_singleton.mp hm ▸ hid

theorem apart_modifyLive (pool : Pool τ) (hid : ¬ mine id) {change : LiveRead → LiveRead}
    (hi : ∀ read, (change read).id = read.id) :
    Apart file mine pool (pool.modifyLive id change) := by
  refine ⟨rfl, rfl, fun _ _ hf _ => hf, fun _ _ => rfl, fun name hname => ?_⟩
  have hne : name ≠ id := fun he => hid (he ▸ hname)
  exact live?_modifyLive_of_ne pool hne hi

section Reading

theorem apart_register (hn : ¬ mine pool.gatherings.size) (lease : Lease) (offset stop : Nat) :
    Apart file mine pool (pool.register lease offset stop) := by
  refine ⟨rfl, rfl, fun _ _ hf _ => hf, fun id hid => ?_, fun id hid => ?_⟩
  · have hne : id ≠ pool.gatherings.size := fun he => hn (he ▸ hid)
    simp only [register, Array.getElem?_push, if_neg hne]
  · have hne : pool.gatherings.size ≠ id := fun he => hn (he ▸ hid)
    rw [live?_register, if_neg hne, Option.or_none]

theorem apart_push (pool : Pool τ) {call : Call} (hc : call.file ≠ file) :
    Apart file mine pool { pool with fetches := pool.fetches.push ⟨call, .idle⟩ } where
  limits := rfl
  cached := rfl
  fetch id fetch hf hown := by
    simp only [Array.getElem?_push] at hf
    split at hf
    · cases hf
      exact absurd hown hc
    · exact hf
  gathering _ _ := rfl
  live _ _ := rfl

theorem apart_createPage (pool : Pool τ) (hne : file ≠ other) (page : Nat) :
    Apart file mine pool (pool.createPage other page) := by
  let pushed := { pool with
    fetches := pool.fetches.push ⟨⟨other, page, pool.limits.pageSize⟩, .idle⟩ }
  have hpushed : Apart file mine pool pushed := apart_push pool (Ne.symm hne)
  have hinserted := hpushed.trans (apart_modifyFile pushed hne fun cached =>
    { cached with pages := cached.pages.insert page (.fetching pool.fetches.size []) })
  exact hinserted.trans (apart_of_rests ⟨rfl, rfl, rfl, rfl⟩ rfl)

theorem apart_join (pool : Pool τ) (hid : ¬ mine id) (hne : file ≠ lease.file) (wait : Wait) :
    Apart file mine pool (pool.join id lease wait) := by
  have hchecked : Apart file mine pool
      (pool.require ((pool.page? lease wait.page).any (!·.isLoaded)) .waitForLoaded) :=
    apart_require ..
  have hwaiting := hchecked.trans (apart_modifyFile _ hne fun cached =>
    { cached with pages := cached.pages.modify wait.page (Page.wait id) })
  have hawaiting := hwaiting.trans (apart_of_delivers
    (delivers_modifyGathering _ id Gathering.await) fun _ hm => List.mem_singleton.mp hm ▸ hid)
  exact hawaiting.trans (apart_modifyLive _ hid fun _ => rfl)

theorem apart_lookup (pool : Pool τ) (hid : ¬ mine id) (hne : file ≠ lease.file) (page : Nat) :
    Apart file mine pool (lookup id lease pool page) := by
  unfold lookup
  split
  · exact ((apart_modifyFile pool hne _).trans (apart_emit ..)).trans (apart_addPage _ hid page _)
  · exact (apart_join pool hid hne _).trans (apart_emit ..)
  · exact (apart_createPage pool hne page).trans (apart_join _ hid hne _)

theorem apart_lookups (pool : Pool τ) (hid : ¬ mine id) (hne : file ≠ lease.file)
    (pages : List Nat) : Apart file mine pool (pages.foldl (lookup id lease) pool) := by
  induction pages generalizing pool with
  | nil => exact .refl ..
  | cons page rest ih => exact (apart_lookup pool hid hne page).trans (ih _)

theorem apart_lookupSpan (hn : ¬ mine pool.gatherings.size) (hne : file ≠ other)
    (offset stop : Nat) : Apart file mine pool (pool.lookupSpan other offset stop) := by
  have hrests := rests_enter pool other
  have hentered : Apart file mine pool (pool.enter other) :=
    apart_of_rests hrests (by rw [find?_enter, if_neg hne])
  have hnew : ¬ mine (pool.enter other).gatherings.size := by rwa [hrests.gatherings]
  rw [lookupSpan_eq]
  exact ((hentered.trans (apart_register hnew _ offset stop)).trans
    (apart_lookups _ hn hne _)).trans (apart_require ..)

theorem apart_startRead (hn : ¬ mine pool.gatherings.size) (hne : file ≠ other)
    {offset stop : Nat}
    (hb : pool.fetches.size < (pool.lookupSpan other offset stop).fetches.size →
      (pool.lookupSpan other offset stop).pagesUsed ≤
        (pool.lookupSpan other offset stop).limits.pageBudget) :
    Apart file mine pool (pool.startRead other offset stop) := by
  rw [startRead_of_le hb]
  exact (apart_lookupSpan hn hne offset stop).trans (apart_arrive _ hn)

end Reading

section Outcomes

theorem pageAt?_of_page? {page : Nat} {found : Page} (h : pool.page? lease page = some found) :
    pool.pageAt? lease.file page = some found := by
  obtain ⟨cached, hl, hp⟩ := Option.bind_eq_some_iff.mp h
  exact Option.bind_eq_some_iff.mpr ⟨cached, (Option.filter_eq_some_iff.mp hl).1, hp⟩

theorem apart_store (hne : file ≠ other) {cached : FileCache}
    (hf : pool.files.find? other = some cached) (wait : Wait) {waiters : List ReadId}
    (hn : waiters.Nodup) (hids : ∀ id ∈ waiters, ¬ mine id) (data : Bytes)
    (attributes : Attributes) :
    Apart file mine pool (pool.store other wait waiters data attributes) := by
  have hloaded : Apart file mine pool (pool.load other wait waiters data attributes) :=
    apart_of_updates (rests_load ..) (updates_load hf ..) hne
  have hdelivers : ∀ (pool : Pool τ) (id : ReadId), Delivers pool
      ((pool.addPage id wait.page data).arrive id) [id]
      (Gathering.arrive ∘ (·.add wait.page data)) := fun pool id =>
    (delivers_addPage pool id wait.page data).comp (delivers_arrive _ id)
  rw [store_eq]
  exact hloaded.trans (apart_of_delivers (delivers_foldl hdelivers hn _) hids)

theorem apart_giveUp (pool : Pool τ) (hne : file ≠ other) (wait : Wait) {waiters : List ReadId}
    (hn : waiters.Nodup) (hids : ∀ id ∈ waiters, ¬ mine id) (error : Error) :
    Apart file mine pool (pool.giveUp other wait waiters error) := by
  have hdelivers : ∀ (pool : Pool τ) (id : ReadId), Delivers pool
      ((pool.spoil id error).arrive id) [id] (Gathering.arrive ∘ (·.spoil error)) := fun pool id =>
    (delivers_modifyGathering pool id (·.spoil error)).comp (delivers_arrive _ id)
  exact (apart_dropPages pool hne _ _).trans
    (apart_of_delivers (delivers_foldl hdelivers hn _) hids)

-- The page of another file is waited for by other reads.
theorem apart_resolve (hb : pool.Belongs lease.file fun id => ¬ mine id) (hne : file ≠ lease.file)
    (wait : Wait) (outcome : Outcome) : Apart file mine pool (pool.resolve lease wait outcome) := by
  unfold resolve
  split
  · rename_i fetch waiters hfound
    have hp := pageAt?_of_page? hfound
    obtain ⟨_, hn, hids⟩ := hb wait.page fetch waiters hp
    obtain ⟨cached, hf, _⟩ := Option.bind_eq_some_iff.mp hp
    split
    · cases outcome with
      | ok answer => exact apart_store hne hf wait hn hids answer.1 answer.2
      | error error => exact apart_giveUp pool hne wait hn hids error
    · exact apart_emit ..
  · exact apart_emit ..

theorem apart_withPhase {fetch : FetchId} (hf : ¬ pool.Owns file fetch) (phase : Phase τ) :
    Apart file mine pool (pool.withPhase fetch phase) where
  limits := rfl
  cached := rfl
  fetch name found hfound hown := by
    simp only [withPhase, Array.getElem?_modify] at hfound
    split at hfound
    · rename_i he
      obtain ⟨before, hbefore, rfl⟩ := Option.map_eq_some_iff.mp hfound
      exact absurd (owns_iff.mpr ⟨before, he ▸ hbefore, hown⟩) hf
    · exact hfound
  gathering _ _ := rfl
  live _ _ := rfl

theorem apart_leave (pool : Pool τ) (hne : file ≠ lease.file) :
    Apart file mine pool (pool.leave lease) := by
  unfold leave
  split
  · exact .refl ..
  · rename_i cached _
    have hchecked : Apart file mine pool
        (pool.require (decide (0 < cached.readers)) .readersUnderflow) := apart_require ..
    have hparted := hchecked.trans (apart_modifyFile _ hne
      fun cached => { cached with readers := cached.readers - 1 })
    simp only
    split
    · exact hparted.trans (apart_removeFile _ hne)
    · exact hparted

theorem apart_endRead (hid : ¬ mine id) (hl : pool.Leased)
    (hfile : ∀ read ∈ pool.live, read.id = id → file ≠ read.lease.file) :
    Apart file mine pool (pool.endRead id) := by
  unfold endRead
  cases hr : pool.live? id with
  | none => exact .refl ..
  | some read =>
      obtain ⟨hread, hreadId⟩ := hl.live?_eq_some_iff.mp hr
      have hgone : Apart file mine pool { pool with live := pool.live.filter (·.id != id) } := by
        refine ⟨rfl, rfl, fun _ _ hf _ => hf, fun _ _ => rfl, fun name hname => ?_⟩
        have hne : name ≠ id := fun he => hid (he ▸ hname)
        exact live?_filter_of_ne pool hne
      exact hgone.trans (apart_leave _ (hfile read hread hreadId))

end Outcomes

theorem apart_invalidate (pool : Pool τ) (hne : file ≠ other) :
    Apart file mine pool (pool.invalidate other).1 :=
  apart_of_updates (trims_invalidate ..).rests (updates_invalidate ..) hne

theorem apart_revalidate (pool : Pool τ) (hne : file ≠ other) (attributes : Attributes) :
    Apart file mine pool (pool.revalidate other attributes).1 :=
  apart_of_updates (trims_revalidate ..).rests (updates_revalidate ..) hne

theorem apart_release (pool : Pool τ) (hne : file ≠ other) :
    Apart file mine pool (pool.release other).1 := by
  unfold release
  split
  · exact .refl ..
  · split
    · exact apart_removeFile pool hne
    · exact apart_modifyFile pool hne _

end Pool

end PageCache
