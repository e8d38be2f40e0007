import PageCache.Proofs.ReadOutcome
import PageCache.Proofs.Sightings

namespace PageCache

theorem FileCache.find?_load_self (cached : FileCache) (page : Nat) (fetch : FetchId)
    (data : Bytes) (attributes : Attributes) :
    (cached.load page fetch data attributes).pages.find? page = some (.loaded fetch data) := by
  have hstored : (cached.pages.insert page (.loaded fetch data)).find? page =
      some (.loaded fetch data) := LruMap.find?_insert_self ..
  unfold load
  simp only
  split
  · exact find?_drop_eq_some_iff.mpr ⟨by simp, hstored⟩
  · exact hstored

namespace Pool

variable {τ : Type} {pool : Pool τ}

-- A page that waits for a fetch waits no longer: it holds the bytes of the fetch, or it is
-- gone. Each of the reads that it lists gets the outcome once, and no other read gets any
-- of it. Of the other pages none comes in and none changes, and those that reads wait for
-- while some read of the file is in progress stay.
structure Resolves (pool next : Pool τ) (file : FileId) (wait : Wait) (outcome : Outcome)
    (waiters : List ReadId) : Prop where
  waiting : pool.pageAt? file wait.page = some (.fetching wait.fetch waiters)
  nodup : waiters.Nodup
  resolved : next.pageAt? file wait.page =
    outcome.toOption.map fun answer => .loaded wait.fetch answer.1
  gatherings : ∀ id, next.gatherings[id]? =
    if id ∈ waiters then pool.gatherings[id]?.map (·.settle wait.page outcome)
    else pool.gatherings[id]?
  others : ∀ other name found, ¬ (other = file ∧ name = wait.page) →
    next.pageAt? other name = some found → pool.pageAt? other name = some found
  kept : ∀ other name found, ¬ (other = file ∧ name = wait.page) → pool.Busy other →
    found.isWaited = true → pool.pageAt? other name = some found →
    next.pageAt? other name = some found

theorem pageAt?_load {file : FileId} {wait : Wait} {waiters : List ReadId}
    (hp : pool.pageAt? file wait.page = some (.fetching wait.fetch waiters)) (data : Bytes)
    (attributes : Attributes) :
    (pool.load file wait waiters data attributes).pageAt? file wait.page =
      some (.loaded wait.fetch data) := by
  obtain ⟨cached, hf, _⟩ := Option.bind_eq_some_iff.mp hp
  have hfound := (updates_load hf wait waiters data attributes).find? file
  rw [if_pos rfl, hf, Option.map_some] at hfound
  rw [pageAt?, hfound, Option.bind_some, FileCache.find?_load_self]

-- The page is loaded or gone, also when stale pages are dropped with it.
theorem pageAt?_resolve {lease : Lease} {wait : Wait} {waiters : List ReadId}
    (hl : pool.Holds lease)
    (hp : pool.pageAt? lease.file wait.page = some (.fetching wait.fetch waiters))
    (outcome : Outcome) :
    (pool.resolve lease wait outcome).pageAt? lease.file wait.page =
      outcome.toOption.map fun answer => .loaded wait.fetch answer.1 := by
  have hpage := (page?_eq_pageAt? wait.page hl).trans hp
  simp only [resolve, hpage, if_true]
  cases outcome with
  | ok answer =>
      have htold := (aside_foldl (fun pool id => (aside_addPage pool id wait.page answer.1).trans
        (aside_arrive _ id)) waiters
        (pool.load lease.file wait waiters answer.1 answer.2)).files
      change (pool.store lease.file wait waiters answer.1 answer.2).pageAt? _ _ = _
      rw [store_eq, pageAt?, htold]
      exact pageAt?_load hp answer.1 answer.2
  | error error =>
      have htold := (aside_foldl (fun pool id => (aside_spoil pool id error).trans
        (aside_arrive _ id)) waiters (pool.dropPages lease.file [wait.page]
          (.fetchFailed lease.file wait.page wait.fetch error waiters.length))).files
      obtain ⟨cached, hf, _⟩ := Option.bind_eq_some_iff.mp hp
      have hfound := (updates_dropPages pool lease.file [wait.page]
        (.fetchFailed lease.file wait.page wait.fetch error waiters.length)).find? lease.file
      rw [if_pos rfl, hf, Option.map_some] at hfound
      simp only [giveUp]
      rw [pageAt?, htold, hfound, Option.bind_some, FileCache.drop, LruMap.find?_eraseAll,
        if_pos (List.mem_singleton_self _)]
      rfl

end Pool

namespace Mount

variable {σ τ : Type} {mount : Mount σ τ} {plans : ReadId → Plan}

-- The read that sees an outcome first resolves the page.
theorem exists_resolves_pollWait (backend : Backend σ τ) (hs : mount.pool.Sound plans)
    {read : LiveRead} (hr : read ∈ mount.pool.live) {wait : Wait} (hw : wait ∈ read.waits)
    (ho : mount.pool.outcome? wait.fetch = none) {outcome : Outcome}
    (hd : (mount.drive backend wait.fetch).2 = some outcome) :
    ∃ waiters, mount.pool.Resolves (pollWait backend read.id read.lease mount wait).pool
      read.lease.file wait outcome waiters := by
  have ht := hs.tracked read.id (hs.leased.known read hr)
  have hcall := ht.calls wait.page wait.fetch ((ht.reading read hr rfl).planned wait hw)
  rcases drive_cases backend mount hcall with ⟨found, hf, _⟩ | ⟨_, base, storage, hb, h⟩
  · cases ho.symm.trans hf
  · rcases h with ⟨rest, hdrive⟩ | ⟨answer, hdrive⟩
    · rw [hdrive] at hd
      cases hd
    · rw [hdrive] at hd
      cases hd
      have hbase := hb.sound hs
      have hrbase : read ∈ base.live := hb.live ▸ hr
      have hobase : base.outcome? wait.fetch = none := by rw [hb.outcome?_eq, ho]
      generalize Call.outcome _ answer = outcome at hdrive ⊢
      obtain ⟨waiters, settled, hp, hset, htrim⟩ :=
        Pool.exists_settles_resolve hbase hrbase hw hobase outcome
      have hdone : (base.withPhase wait.fetch (.complete outcome)).Holds read.lease :=
        hbase.leased.current read hrbase
      simp only [pollWait, hdrive]
      refine ⟨waiters, hb.pageAt? hp, ?_, ?_, fun id => ?_,
        fun other name found hn hfound => ?_, fun other name found hn hbusy hwaited hfound => ?_⟩
      · exact (hbase.waiters _ _ _ _ hp).1.imp Nat.ne_of_lt
      · exact Pool.pageAt?_resolve hdone hp outcome
      · rw [← hb.gatherings, ← hset.gatherings, ← htrim.gatherings]
        rfl
      · exact hb.pageAt? (hset.untouched other name hn ▸ htrim.pageAt? hfound)
      · have hstill := hb.pageAt?_kept hbusy hwaited hfound
        rw [← hset.untouched other name hn] at hstill
        have hbusy : settled.Busy other := by simpa only [Pool.Busy, hset.live, hb.live] using hbusy
        exact htrim.pageAt?_kept hbusy hwaited hstill

-- Nothing of what storage, pages and reads are made of changes. What a file holds comes
-- with the pages, their waiters, the order of their use and its attributes.
structure Undisturbed (mount next : Mount σ τ) : Prop where
  storage : next.storage = mount.storage
  files : next.pool.files = mount.pool.files
  used : next.pool.pagesUsed = mount.pool.pagesUsed
  counters : next.pool.counters = mount.pool.counters
  fetches : next.pool.fetches = mount.pool.fetches
  gatherings : next.pool.gatherings = mount.pool.gatherings

-- Those that see it later on find nothing to do.
theorem undisturbed_pollWait (backend : Backend σ τ) (hs : mount.pool.Sound plans)
    {read : LiveRead} (hr : read ∈ mount.pool.live) {wait : Wait} (hw : wait ∈ read.waits)
    {outcome : Outcome} (ho : mount.pool.outcome? wait.fetch = some outcome) :
    (mount.drive backend wait.fetch).2 = some outcome ∧
      mount.Undisturbed (pollWait backend read.id read.lease mount wait) := by
  have ht := hs.tracked read.id (hs.leased.known read hr)
  have hcall := ht.calls wait.page wait.fetch ((ht.reading read hr rfl).planned wait hw)
  have hdrive := (outcome?_drive backend hcall).2 outcome ho
  refine ⟨congrArg Prod.snd hdrive, ?_⟩
  simp only [pollWait, hdrive, Pool.resolve_late hs hr wait ho]
  exact ⟨rfl, rfl, rfl, rfl, rfl, rfl⟩

end Mount

namespace Sighting

variable {σ τ : Type} {backend : Backend σ τ} {pool : Pool τ} {plans : ReadId → Plan}
  {earlier : List (Sighting σ τ)} {sighting : Sighting σ τ}

-- What the read makes of it.
def next (backend : Backend σ τ) (sighting : Sighting σ τ) : Mount σ τ :=
  Mount.pollWait backend sighting.id sighting.lease sighting.mount sighting.wait

-- No read has seen the outcome of this fetch before.
def IsFirst (sighting : Sighting σ τ) (earlier : List (Sighting σ τ)) : Prop :=
  ∀ seen ∈ earlier, seen.wait.fetch ≠ sighting.wait.fetch

theorem Fits.isFirst_iff (h : sighting.Fits backend pool plans earlier) :
    sighting.IsFirst earlier ↔ sighting.mount.pool.outcome? sighting.wait.fetch = none :=
  (h.records.unseen_iff sighting.wait.fetch).symm

theorem Fits.holds (h : sighting.Fits backend pool plans earlier) :
    sighting.mount.pool.Holds sighting.lease := by
  obtain ⟨after, hsteps, read, hr, _, hlease, _⟩ := h.reads
  exact hlease ▸ hsteps.steady.sound.leased.current read hr

-- What a read waits for is of its plan, and it has had its lease from the start.
theorem Fits.planned (h : sighting.Fits backend pool plans earlier)
    (hlt : sighting.id < pool.gatherings.size) :
    ⟨sighting.wait.page, .fetch sighting.wait.fetch⟩ ∈ (plans sighting.id).parts ∧
    ∃ read ∈ pool.live, read.id = sighting.id ∧ read.lease = sighting.lease := by
  obtain ⟨after, hsteps, read, hr, hid, hlease, hwait⟩ := h.reads
  have hsound := hsteps.steady.sound
  have ht := hsound.tracked read.id (hsound.leased.known read hr)
  rw [← hid] at hlt
  rw [← hid, ← hlease, ← hsteps.same read.id hlt]
  refine ⟨(ht.reading read hr rfl).planned sighting.wait hwait, ?_⟩
  have hheld : (read.id, read.lease) ∈ pool.leases :=
    (hsteps.origin _ (List.mem_map.mpr ⟨read, hr, rfl⟩)).resolve_right (Nat.not_le_of_lt hlt)
  obtain ⟨first, hfirst, he⟩ := List.mem_map.mp hheld
  rw [Prod.mk.injEq] at he
  exact ⟨first, hfirst, he⟩

theorem Fits.exists_resolves (h : sighting.Fits backend pool plans earlier)
    (hf : sighting.IsFirst earlier) :
    ∃ waiters, sighting.mount.pool.Resolves (sighting.next backend).pool sighting.lease.file
      sighting.wait sighting.outcome waiters := by
  obtain ⟨after, hsteps, read, hr, hid, hlease, hwait⟩ := h.reads
  have hpoll := Mount.exists_resolves_pollWait backend hsteps.steady.sound hr hwait
    (h.isFirst_iff.mp hf) h.outcome
  rwa [hid, hlease] at hpoll

theorem Fits.undisturbed (h : sighting.Fits backend pool plans earlier) {seen : Sighting σ τ}
    (hm : seen ∈ earlier) (hf : seen.wait.fetch = sighting.wait.fetch) :
    seen.outcome = sighting.outcome ∧ sighting.mount.Undisturbed (sighting.next backend) := by
  obtain ⟨after, hsteps, read, hr, hid, hlease, hwait⟩ := h.reads
  have hknown : sighting.mount.pool.outcome? sighting.wait.fetch = some seen.outcome :=
    (h.records _ _).mpr ⟨seen, hm, hf, rfl⟩
  obtain ⟨hdrive, hpoll⟩ :=
    Mount.undisturbed_pollWait backend hsteps.steady.sound hr hwait hknown
  rw [hid, hlease] at hpoll
  exact ⟨Option.some.inj (hdrive.symm.trans h.outcome), hpoll⟩

-- The stamp of a page that the read has waited for tells the fetch for as long as the lease
-- is good. So the page waits under it until the outcome is seen, and no other does later on.
theorem Fits.faulting_iff_isFirst (h : sighting.Fits backend pool plans earlier)
    {registered : Pool τ} {others : ReadId → Plan} (hs : registered.Sound others)
    (hages : registered.Ages sighting.mount.pool)
    (hserial : sighting.lease.serial < registered.serials) {stamp : Nat}
    (hstamp : registered.Faulting sighting.lease sighting.wait.page stamp sighting.wait.fetch) :
    (∃ found, sighting.mount.pool.Faulting sighting.lease sighting.wait.page stamp found) ↔
      sighting.IsFirst earlier := by
  obtain ⟨after, hsteps, _⟩ := h.reads
  have hsound := hsteps.steady.sound
  have htells : ∀ {other found},
      sighting.mount.pool.Faulting sighting.lease sighting.wait.page other found →
        (other = stamp ↔ found = sighting.wait.fetch) := fun hf =>
    hages.stamp_eq_iff hs.ordered hs.backed hserial hstamp hf
  constructor
  · rintro ⟨found, hfound⟩
    obtain rfl := (htells hfound).mp rfl
    obtain ⟨waiters, hp⟩ := (Pool.faulting_iff hsound.ordered h.holds).mp ⟨stamp, hfound⟩
    exact h.isFirst_iff.mpr (hsound.backed.fetching _ _ _ _ hp).2
  · intro hfirst
    obtain ⟨waiters, hresolves⟩ := h.exists_resolves hfirst
    obtain ⟨other, hother⟩ :=
      (Pool.faulting_iff hsound.ordered h.holds).mpr ⟨waiters, hresolves.waiting⟩
    obtain rfl := (htells hother).mpr rfl
    exact ⟨_, hother⟩

end Sighting

namespace Mount

variable {σ τ : Type} {mount : Mount σ τ} {plans : ReadId → Plan}

-- All that a read sees it has waited for since it looked the page up.
theorem exists_stamp (hs : mount.pool.Steady plans) (file : FileId) (offset stop : Nat)
    {backend : Backend σ τ} {before : List (Sighting σ τ)} {sighting : Sighting σ τ}
    (h : sighting.Fits backend (mount.pool.startRead file offset stop)
      (Function.update plans mount.pool.gatherings.size (mount.pool.plan file offset stop)) before)
    (hid : sighting.id = mount.pool.gatherings.size) :
    ∃ stamp, (mount.pool.startRead file offset stop).Faulting sighting.lease sighting.wait.page
      stamp sighting.wait.fetch := by
  have hstarted := Pool.sound_startRead hs.sound file offset stop
  obtain ⟨_, _, houtcome, _, hsize, _⟩ := Pool.startRead_frame hs.sound file offset stop
  have hlt : sighting.id < (mount.pool.startRead file offset stop).gatherings.size := by
    rw [hsize, hid]
    exact Nat.lt_succ_self _
  obtain ⟨hpart, read, hr, hread, hlease⟩ := h.planned hlt
  have hreads := (hstarted.tracked read.id (hstarted.leased.known read hr)).reading read hr rfl
  have hholds : (mount.pool.startRead file offset stop).Holds sighting.lease :=
    hlease ▸ hstarted.leased.current read hr
  rw [hid, Function.update_self] at hpart
  rw [hread, hid, Function.update_self] at hreads
  have hunknown : (mount.pool.startRead file offset stop).outcome? sighting.wait.fetch = none := by
    rw [houtcome]
    exact hs.sound.backed.outcome?_of_fetch (Nat.le_refl _) hpart
  have hpage := (hreads.unseen _ _ hpart hunknown).2
  rw [← hreads.file, hlease] at hpage
  exact (Pool.faulting_iff hstarted.ordered hholds).mpr hpage

theorem serial_lt_of_faulting (backend : Backend σ τ) (limits : Limits) (storage : σ)
    (acts : List (Act σ)) (file : FileId) (offset length : Nat) {lease : Lease}
    {page stamp : Nat} {fetch : FetchId}
    (h : ((run backend (create limits storage) acts).pool.startRead file offset
      (offset + length)).Faulting lease page stamp fetch) :
    lease.serial < ((run backend (create limits storage) acts).pool.startRead file offset
      (offset + length)).serials := by
  have hages := (ages_run backend (create limits storage) acts).trans
    (Pool.moves_startRead _ file offset length .all).ages
  obtain ⟨cached, hc, _⟩ := h
  obtain ⟨hf, hs⟩ := Pool.leased?_eq_some_iff.mp hc
  exact hs ▸ serial_lt_of_ages hages hf

-- Of the reads that see the outcome of a fetch the first resolves its page, which still waits
-- for it, and the others change nothing, whatever has become of the page. All that a read has
-- to go by is the stamp that the page had when it was looked up. It finds the page waiting
-- under this stamp if it is the first, and only then.
theorem resolved_once (backend : Backend σ τ) (limits : Limits) (storage : σ)
    (acts : List (Act σ)) {earlier later : List (Sighting σ τ)} {sighting : Sighting σ τ}
    (h : sightings backend (create limits storage) acts = earlier ++ sighting :: later) :
    let mount := sighting.mount
    let next := sighting.next backend
    mount.pool.Holds sighting.lease ∧
    (sighting.IsFirst earlier → ∃ waiters, mount.pool.Resolves next.pool sighting.lease.file
      sighting.wait sighting.outcome waiters) ∧
    (∀ seen ∈ earlier, seen.wait.fetch = sighting.wait.fetch →
      seen.outcome = sighting.outcome ∧ mount.Undisturbed next) ∧
    ∀ first rest file offset length turns,
      let before := run backend (create limits storage) first
      acts = first ++ .ask (.read file offset length turns) :: rest → 0 < length →
      offset + length < wordLimit → before.pool.gatherings.size = sighting.id →
      ∃ stamp, (before.pool.startRead file offset (offset + length)).Faulting sighting.lease
          sighting.wait.page stamp sighting.wait.fetch ∧
        ((∃ found, mount.pool.Faulting sighting.lease sighting.wait.page stamp found) ↔
          sighting.IsFirst earlier) := by
  intro mount next
  obtain ⟨plans, hcreate, hchronicle, _⟩ := exists_chronicle backend limits storage acts
  rw [h] at hchronicle
  have hfits := hchronicle.fits
  refine ⟨hfits.holds, hfits.exists_resolves, fun seen hm hf => hfits.undisturbed hm hf, ?_⟩
  intro first rest file offset length turns before hacts hl hw hid
  obtain ⟨middle, hmiddle, _⟩ := exists_steady backend limits storage first
  obtain ⟨_, _, _, hrecords⟩ := exists_chronicle backend limits storage first
  -- the read has not seen anything before it started
  have hm : sighting ∈
      before.sightings backend (.ask (.read file offset length turns) :: rest) := by
    have hm : sighting ∈ sightings backend (create limits storage) acts := by
      rw [h]
      exact List.mem_append_right _ List.mem_cons_self
    rw [hacts, sightings_append] at hm
    refine (List.mem_append.mp hm).resolve_left fun hm => ?_
    exact Nat.ne_of_lt (id_lt_of_sightings hcreate hm) hid.symm
  obtain ⟨others, hstarted⟩ := exists_fits_of_read hmiddle hrecords hl hw hm
  obtain ⟨stamp, hstamp⟩ := exists_stamp hmiddle file offset (offset + length) hstarted hid.symm
  have hregistered := Pool.sound_startRead hmiddle.sound file offset (offset + length)
  have hserial := serial_lt_of_faulting backend limits storage first file offset length hstamp
  exact ⟨stamp, hstamp, hfits.faulting_iff_isFirst hregistered hstarted.ages hserial hstamp⟩

-- Two reads wait for a page. When the first of them has got it, the page is dropped, and a
-- third read has it fetched anew before the second read comes to see the old outcome.
def untilOutdated : List (Act (Gates × Memory)) :=
  [.ask (.read 0 4 4 .all), .ask (.read 0 4 4 .all),
    .change fun storage => (storage.1.release 0, storage.2), .ask (.poll 0 .all),
    .change fun storage => (storage.1, storage.2.hold 0 4 1), .ask (.invalidate 0),
    .ask (.read 0 4 4 .all), .ask (.poll 1 .all)]

theorem outdated_gated_fault : ∃ first late : Sighting (Gates × Memory) (Option GateId),
    sightings Memory.backend gatedMount untilOutdated = [first] ++ late :: [] ∧
    first.wait = ⟨4, 0⟩ ∧ late.wait = ⟨4, 0⟩ ∧
    late.mount.pool.pageAt? 0 4 = some (.fetching 1 [2]) ∧ first.outcome = late.outcome ∧
    late.mount.Undisturbed (late.next Memory.backend) := by
  obtain ⟨first, late, hs, hfirst, hlate, hpage⟩ :
      ∃ first late, sightings Memory.backend gatedMount untilOutdated = [first] ++ late :: [] ∧
        first.wait = ⟨4, 0⟩ ∧ late.wait = ⟨4, 0⟩ ∧
        late.mount.pool.pageAt? 0 4 = some (.fetching 1 [2]) := ⟨_, _, rfl, rfl, rfl, rfl⟩
  obtain ⟨_, _, hlater, _⟩ := resolved_once Memory.backend fourByteLimits gatedStorage
    untilOutdated hs
  have hsame : first.wait.fetch = late.wait.fetch := by rw [hfirst, hlate]
  obtain ⟨houtcome, hundisturbed⟩ := hlater first (List.mem_singleton_self _) hsame
  exact ⟨first, late, hs, hfirst, hlate, hpage, houtcome, hundisturbed⟩

end Mount

end PageCache
