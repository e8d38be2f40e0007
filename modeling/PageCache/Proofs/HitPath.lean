import PageCache.Proofs.Bookkeeping
import PageCache.Proofs.Extents
import PageCache.Proofs.Issuing
import PageCache.Proofs.ReadOutcome
import PageCache.Proofs.Release

namespace PageCache

-- The read of an extent.
def Extent.read {σ : Type} (extent : Extent) (turns : Turns) : Act σ :=
  .ask (.read extent.file extent.offset (extent.stop - extent.offset) turns)

namespace Pool

variable {τ : Type} {pool middle next : Pool τ} {file : FileId} {lease : Lease} {pages : List Nat}
  {page : Nat} {id : ReadId} {first second : Nat}

-- Whether these pages of a file are all loaded.
def HasLoaded (pool : Pool τ) (file : FileId) (pages : List Nat) : Prop :=
  ∀ page ∈ pages, ∃ fetch data, pool.pageAt? file page = some (.loaded fetch data)

-- The pages with the bytes of those that are loaded.
def cachedPages (pool : Pool τ) (file : FileId) (pages : List Nat) : List (Nat × Bytes) :=
  pages.filterMap fun page => ((pool.pageAt? file page).bind Page.data?).map (page, ·)

-- What the cached bytes come to in `[offset, stop)`.
def cachedReply (pool : Pool τ) (file : FileId) (offset stop : Nat) : Reply :=
  ⟨assembled pool.limits.pageSize offset stop
    (pool.cachedPages file (pool.limits.span offset stop))⟩

theorem HasLoaded.congr (h : pool.HasLoaded file pages) (hp : next.pageAt? = pool.pageAt?) :
    next.HasLoaded file pages := by
  intro page hm
  rw [hp]
  exact h page hm

theorem cachedReply_congr (hl : next.limits = pool.limits) (hp : next.pageAt? = pool.pageAt?)
    (file : FileId) (offset stop : Nat) :
    next.cachedReply file offset stop = pool.cachedReply file offset stop := by
  simp only [cachedReply, cachedPages, hl, hp]

-- `count` uses are made of loaded pages. This changes the order of use and what read `id` has
-- gathered, and nothing else.
structure Uses (pool next : Pool τ) (id : ReadId) (count : Nat) : Prop where
  limits : next.limits = pool.limits
  fetches : next.fetches = pool.fetches
  live : next.live = pool.live
  serials : next.serials = pool.serials
  used : next.pagesUsed = pool.pagesUsed
  counters : next.counters = { pool.counters with hits := pool.counters.hits + count }
  size : next.gatherings.size = pool.gatherings.size
  gatherings : ∀ other ≠ id, next.gatherings[other]? = pool.gatherings[other]?
  pages : next.pageAt? = pool.pageAt?
  files : ∀ file, (next.files.find? file).map FileCache.outline =
    (pool.files.find? file).map FileCache.outline

theorem Uses.refl (pool : Pool τ) (id : ReadId) : pool.Uses pool id 0 :=
  ⟨rfl, rfl, rfl, rfl, rfl, rfl, rfl, fun _ _ => rfl, rfl, fun _ => rfl⟩

theorem Uses.trans (h : pool.Uses middle id first) (hn : middle.Uses next id second) :
    pool.Uses next id (first + second) where
  limits := hn.limits.trans h.limits
  fetches := hn.fetches.trans h.fetches
  live := hn.live.trans h.live
  serials := hn.serials.trans h.serials
  used := hn.used.trans h.used
  counters := by
    rw [hn.counters, h.counters]
    simp only [Nat.add_assoc]
  size := hn.size.trans h.size
  gatherings other ho := (hn.gatherings other ho).trans (h.gatherings other ho)
  pages := hn.pages.trans h.pages
  files file := (hn.files file).trans (h.files file)

theorem uses_require (pool : Pool τ) (holds : Bool) (breach : Breach) (id : ReadId) :
    pool.Uses (pool.require holds breach) id 0 := by
  cases holds with
  | true => exact .refl pool id
  | false => exact ⟨rfl, rfl, rfl, rfl, rfl, rfl, rfl, fun _ _ => rfl, rfl, fun _ => rfl⟩

-- A read gathers something.
theorem uses_of_delivers {change : Gathering → Gathering} (hd : pool.Delivers next [id] change)
    (hu : pool.Uncounted next) : pool.Uses next id 0 where
  limits := hd.limits
  fetches := hd.fetches
  live := hd.live
  serials := hu.serials
  used := hu.used
  counters := hu.counters
  size := hd.size
  gatherings other ho := by rw [hd.gatherings, if_neg (by simpa using ho)]
  pages := hd.alike.pageAt?
  files file := by rw [hd.files]

theorem uses_touch (pool : Pool τ) (file : FileId) (page : Nat) (fetch : FetchId) (id : ReadId) :
    pool.Uses ((pool.modifyFile file fun cached =>
      { cached with pages := cached.pages.touch page }).emit (.pageHit file page fetch)) id 1 where
  limits := rfl
  fetches := rfl
  live := rfl
  serials := rfl
  used := rfl
  counters := rfl
  size := rfl
  gatherings _ _ := rfl
  pages := pageAt?_use pool file page
  files other := by
    simp only [emit, find?_modifyFile]
    split
    · rw [Option.map_map]
      rfl
    · rfl

theorem uses_lookup (id : ReadId) (h : pool.Holds lease) {fetch : FetchId} {data : Bytes}
    (hp : pool.pageAt? lease.file page = some (.loaded fetch data)) :
    pool.Uses (lookup id lease pool page) id 1 := by
  have hpage : pool.page? lease page = some (.loaded fetch data) :=
    (page?_eq_pageAt? page h).trans hp
  simp only [lookup, hpage]
  exact (uses_touch pool lease.file page fetch id).trans
    (uses_of_delivers (delivers_addPage ..) (uncounted_addPage ..))

theorem uses_lookups (h : pool.Holds lease) (hp : pool.HasLoaded lease.file pages) :
    pool.Uses (pages.foldl (lookup id lease) pool) id pages.length := by
  induction pages generalizing pool with
  | nil => exact .refl pool id
  | cons page rest ih =>
      obtain ⟨fetch, data, hpage⟩ := hp page List.mem_cons_self
      have hfirst := uses_lookup id h hpage
      have hrest : (lookup id lease pool page).HasLoaded lease.file rest :=
        HasLoaded.congr (fun other hm => hp other (List.mem_cons_of_mem page hm)) hfirst.pages
      rw [List.foldl_cons, List.length_cons, Nat.add_comm]
      exact hfirst.trans (ih (h.lookup id page) hrest)

section Plan

-- The plan of a read of loaded pages has nothing to wait for.
theorem fetch?_partsFrom_of_loaded (h : pool.HasLoaded file pages) (next : FetchId) :
    ∀ part ∈ pool.partsFrom file next pages, part.fetch? = none := by
  induction pages generalizing next with
  | nil => exact fun _ hm => (List.not_mem_nil hm).elim
  | cons page rest ih =>
      obtain ⟨fetch, data, hpage⟩ := h page List.mem_cons_self
      rw [partsFrom, List.forall_mem_cons]
      refine ⟨?_, ih (fun other hm => h other (List.mem_cons_of_mem page hm)) _⟩
      simp [source, hpage, Part.fetch?]

theorem pages_partsFrom_of_loaded (h : pool.HasLoaded file pages) (next : FetchId)
    (outcomes : FetchId → Option Outcome) :
    ((pool.partsFrom file next pages).filterMap fun part =>
      (part.data? outcomes).map fun data => (part.page, data)) = pool.cachedPages file pages := by
  induction pages generalizing next with
  | nil => rfl
  | cons page rest ih =>
      obtain ⟨fetch, data, hpage⟩ := h page List.mem_cons_self
      rw [partsFrom, cachedPages, List.filterMap_cons, List.filterMap_cons,
        ih fun other hm => h other (List.mem_cons_of_mem page hm)]
      simp [source, hpage, Page.data?, cachedPages]

theorem map_fst_cachedPages (h : pool.HasLoaded file pages) :
    (pool.cachedPages file pages).map (·.1) = pages := by
  induction pages with
  | nil => rfl
  | cons page rest ih =>
      obtain ⟨fetch, data, hpage⟩ := h page List.mem_cons_self
      have hrest := ih fun other hm => h other (List.mem_cons_of_mem page hm)
      simpa [cachedPages, hpage, Page.data?] using hrest

theorem length_cachedPages_le (hs : pool.Backed) {found : Nat × Bytes}
    (hm : found ∈ pool.cachedPages file pages) : found.2.length ≤ pool.limits.pageSize := by
  obtain ⟨page, _, hfound⟩ := List.mem_filterMap.mp hm
  obtain ⟨data, hdata, rfl⟩ := Option.map_eq_some_iff.mp hfound
  obtain ⟨held, hheld, hbytes⟩ := Option.bind_eq_some_iff.mp hdata
  cases held with
  | fetching fetch waiters => cases hbytes
  | loaded fetch bytes =>
      cases hbytes
      obtain ⟨_, attributes, houtcome⟩ := hs.loaded file page fetch data hheld
      exact hs.sized fetch data attributes houtcome

theorem outcome_plan_of_loaded (hs : pool.Backed) {offset stop : Nat} (h : offset < stop)
    (hw : stop < wordLimit) (hp : pool.HasLoaded file (pool.limits.span offset stop))
    (outcomes : FetchId → Option Outcome) (failures : List (FetchId × Error)) :
    (pool.plan file offset stop).outcome outcomes failures =
      .ok (pool.cachedReply file offset stop) := by
  have hnone : (pool.plan file offset stop).fetches = [] :=
    List.filterMap_eq_nil_iff.mpr (fetch?_partsFrom_of_loaded hp _)
  have hpages : (pool.plan file offset stop).pages outcomes =
      pool.cachedPages file (pool.limits.span offset stop) := pages_partsFrom_of_loaded hp _ _
  have hfailure : (pool.plan file offset stop).failure? failures = none :=
    Plan.failure?_eq_none_iff.mpr fun _ _ => hnone ▸ List.not_mem_nil
  have hspan := contiguous_span pool.limits h hw (map_fst_cachedPages hp) fun _ hm =>
    length_cachedPages_le hs hm
  rw [Plan.outcome_eq, hfailure, Plan.segments_eq_overlaps, hpages, cachedReply, ← hspan]
  rfl

end Plan

-- `count` pages are used by reads that are over. This changes the order of use and the number of
-- hits, and nothing else.
structure Hits (pool next : Pool τ) (count : Nat) : Prop where
  limits : next.limits = pool.limits
  fetches : next.fetches = pool.fetches
  live : next.live = pool.live
  serials : next.serials = pool.serials
  used : next.pagesUsed = pool.pagesUsed
  counters : next.counters = { pool.counters with hits := pool.counters.hits + count }
  size : pool.gatherings.size ≤ next.gatherings.size
  gatherings : ∀ id < pool.gatherings.size, next.gatherings[id]? = pool.gatherings[id]?
  pages : next.pageAt? = pool.pageAt?
  files : ∀ file, (next.files.find? file).map FileCache.outline =
    (pool.files.find? file).map FileCache.outline

theorem Hits.refl (pool : Pool τ) : pool.Hits pool 0 :=
  ⟨rfl, rfl, rfl, rfl, rfl, rfl, Nat.le_refl _, fun _ _ => rfl, rfl, fun _ => rfl⟩

theorem Hits.trans (h : pool.Hits middle first) (hn : middle.Hits next second) :
    pool.Hits next (first + second) where
  limits := hn.limits.trans h.limits
  fetches := hn.fetches.trans h.fetches
  live := hn.live.trans h.live
  serials := hn.serials.trans h.serials
  used := hn.used.trans h.used
  counters := by
    rw [hn.counters, h.counters]
    simp only [Nat.add_assoc]
  size := h.size.trans hn.size
  gatherings id hid := (hn.gatherings id (hid.trans_le h.size)).trans (h.gatherings id hid)
  pages := hn.pages.trans h.pages
  files file := (hn.files file).trans (h.files file)

section Read

variable {plans : ReadId → Plan} {cached : FileCache} {offset stop : Nat}

theorem enter_of_cached (hf : pool.files.find? file = some cached) :
    pool.enter file =
      { pool with
        files := (pool.files.touch file).modify file fun cached =>
          { cached with readers := cached.readers + 1 } } := by
  simp only [enter, LruMap.contains_eq_isSome, hf, Option.isSome_some, if_true]

theorem uses_startRead (hs : pool.Sound plans)
    (hp : pool.HasLoaded file (pool.limits.span offset stop)) :
    (pool.registered file offset stop).Uses (pool.startRead file offset stop) pool.gatherings.size
      (pool.limits.span offset stop).length := by
  have hregistered := starting_registered hs file offset stop
  have halike := alike_registered pool file offset stop
  have hlooked : (pool.registered file offset stop).Uses (pool.lookupSpan file offset stop)
      pool.gatherings.size (pool.limits.span offset stop).length := by
    rw [lookupSpan_eq]
    exact (uses_lookups hregistered.cached (hp.congr halike.pageAt?)).trans (uses_require ..)
  have hsame : ¬ pool.fetches.size < (pool.lookupSpan file offset stop).fetches.size := by
    have hsame : (pool.registered file offset stop).fetches = pool.fetches :=
      (enter_frame pool file).2.1
    rw [hlooked.fetches, hsame]
    exact Nat.lt_irrefl _
  simp only [startRead, hsame, if_false]
  exact hlooked.trans (uses_of_delivers (delivers_arrive ..) (uncounted_arrive ..))

-- The read is the only one that has come.
theorem live_startRead_of_loaded (hs : pool.Sound plans)
    (hp : pool.HasLoaded file (pool.limits.span offset stop)) :
    (pool.startRead file offset stop).live.filter (·.id != pool.gatherings.size) = pool.live := by
  rw [(uses_startRead hs hp).live, live_registered, List.filter_append]
  have hold : pool.live.filter (·.id != pool.gatherings.size) = pool.live :=
    List.filter_eq_self.mpr fun read hr => by
      simpa using Nat.ne_of_lt (hs.leased.known read hr)
  rw [hold]
  simp

-- What the read has made of its file.
theorem exists_started (hs : pool.Sound plans) (hf : pool.files.find? file = some cached)
    (hp : pool.HasLoaded file (pool.limits.span offset stop)) :
    ∃ left, (pool.startRead file offset stop).files.find? file = some left ∧
      left.outline = { cached.outline with readers := cached.readers + 1 } := by
  have hresident : pool.resident file = cached := by rw [resident, hf, Option.getD_some]
  have hentered : (pool.registered file offset stop).files.find? file =
      some { cached with readers := cached.readers + 1 } := by
    have hfind := find?_enter pool file file
    rwa [if_pos rfl, hresident] at hfind
  have hfiles := (uses_startRead hs hp).files file
  rw [hentered, Option.map_some] at hfiles
  exact Option.map_eq_some_iff.mp hfiles

-- The file stays when the read leaves it, for a marked file has another reader.
theorem endRead_startRead (hs : pool.Sound plans) (hf : pool.files.find? file = some cached)
    (hm : cached.released = true → cached.readers ≠ 0)
    (hp : pool.HasLoaded file (pool.limits.span offset stop)) :
    (pool.startRead file offset stop).endRead pool.gatherings.size =
      modifyFile { pool.startRead file offset stop with live := pool.live } file fun cached =>
        { cached with readers := cached.readers - 1 } := by
  have hread := live?_startRead hs file offset stop
  have hresident : pool.resident file = cached := by rw [resident, hf, Option.getD_some]
  obtain ⟨left, hleft, houtline⟩ := exists_started hs hf hp
  have hserial : left.serial = cached.serial :=
    (congrArg FileCache.serial houtline : left.outline.serial = _)
  have hreaders : left.readers = cached.readers + 1 :=
    (congrArg FileCache.readers houtline : left.outline.readers = _)
  have hreleased : left.released = cached.released :=
    (congrArg FileCache.released houtline : left.outline.released = _)
  let rest : Pool τ := { pool.startRead file offset stop with live := pool.live }
  have hleased : rest.leased? ⟨file, cached.serial⟩ = some left := by
    simp [leased?, rest, hleft, hserial, Option.filter]
  have hstays : ¬ (left.readers ≤ 1 ∧ left.released = true) := by
    rintro ⟨hle, hmark⟩
    exact hm (hreleased ▸ hmark) (by omega)
  have hpositive : decide (0 < left.readers) = true := by simp [hreaders]
  simp only [endRead, hread, live_startRead_of_loaded hs hp, hresident]
  change rest.leave ⟨file, cached.serial⟩ = _
  simp only [leave, hleased, if_neg hstays, hpositive]
  rfl

-- So nothing has changed of any file but the pages and their order.
theorem outline_endRead (hs : pool.Sound plans) (hf : pool.files.find? file = some cached)
    (hm : cached.released = true → cached.readers ≠ 0)
    (hp : pool.HasLoaded file (pool.limits.span offset stop)) (other : FileId) :
    (((pool.startRead file offset stop).endRead pool.gatherings.size).files.find? other).map
        FileCache.outline =
      (pool.files.find? other).map FileCache.outline := by
  have huses := (uses_startRead hs hp).files other
  obtain ⟨left, hleft, houtline⟩ := exists_started hs hf hp
  rw [endRead_startRead hs hf hm hp]
  generalize pool.startRead file offset stop = started at huses hleft
  rw [find?_modifyFile]
  split
  · rename_i he
    have hback := congrArg (fun cached : FileCache =>
      { cached with readers := cached.readers - 1 }) houtline
    rw [he, hf]
    change ((started.files.find? file).map _).map _ = _
    rw [hleft]
    exact congrArg some hback
  · rename_i he
    have hsame : (pool.registered file offset stop).files.find? other = pool.files.find? other :=
      (find?_enter pool file other).trans (if_neg he)
    exact huses.trans (congrArg (Option.map FileCache.outline) hsame)

theorem hits_endRead (hs : pool.Sound plans) (hf : pool.files.find? file = some cached)
    (hm : cached.released = true → cached.readers ≠ 0)
    (hp : pool.HasLoaded file (pool.limits.span offset stop)) :
    pool.Hits ((pool.startRead file offset stop).endRead pool.gatherings.size)
      (pool.limits.span offset stop).length := by
  have huses := uses_startRead hs hp
  have halike := alike_registered pool file offset stop
  have hgathered := gatherings_registered pool file offset stop
  have hentered : (pool.registered file offset stop).counters = pool.counters ∧
      (pool.registered file offset stop).serials = pool.serials ∧
      (pool.registered file offset stop).pagesUsed = pool.pagesUsed := by
    simp only [registered, register, enter_of_cached hf, and_self]
  have hfiles := outline_endRead hs hf hm hp
  rw [endRead_startRead hs hf hm hp] at hfiles ⊢
  generalize pool.startRead file offset stop = started at huses hfiles
  have hcounters := huses.counters
  have hsize := huses.size
  rw [hentered.1] at hcounters
  rw [hgathered, Array.size_push] at hsize
  refine ⟨huses.limits.trans halike.limits, huses.fetches.trans (enter_frame pool file).2.1, rfl,
    huses.serials.trans hentered.2.1, huses.used.trans hentered.2.2, hcounters,
    (Nat.le_succ _).trans_eq hsize.symm, ?_, ?_, hfiles⟩
  · intro id hid
    refine (huses.gatherings id (Nat.ne_of_lt hid)).trans ?_
    rw [hgathered, Array.getElem?_push_lt hid, Array.getElem?_eq_getElem hid]
  · funext other page
    refine (pageAt?_modifyFile _ file other _ page).trans ?_
    rw [← halike.pageAt?, ← huses.pages]
    split <;> rfl

end Read

end Pool

namespace Mount

variable {σ τ : Type} {mount : Mount σ τ} {plans : ReadId → Plan}

-- A read that waits for nothing has nothing to poll, whatever turns it is given.
theorem takeTurns_of_done (backend : Backend σ τ) {id : ReadId} {read : LiveRead}
    (hl : mount.pool.live? id = some read) (hw : read.waits = []) (pages : List Nat) :
    pages.foldl (takeTurn backend id) mount = mount := by
  have hnone : ∀ page, takeTurn backend id mount page = mount := by
    intro page
    rw [takeTurn, Pool.awaited?, hl, Option.bind_some, hw, List.find?_nil, Option.map_none]
  induction pages with
  | nil => rfl
  | cons page rest ih => rw [List.foldl_cons, hnone, ih]

theorem read_of_loaded (backend : Backend σ τ) (hs : mount.pool.Steady plans) {file : FileId}
    {offset stop : Nat} (hl : offset < stop) (hw : stop < wordLimit)
    (hp : mount.pool.HasLoaded file (mount.pool.limits.span offset stop)) (turns : Turns) :
    mount.read backend file offset (stop - offset) turns =
      ({ mount with
          pool := (mount.pool.startRead file offset stop).endRead mount.pool.gatherings.size },
        .returned (.ok (mount.pool.cachedReply file offset stop))) := by
  have hread := Pool.live?_startRead hs.sound file offset stop
  have hwaits : (mount.pool.plan file offset stop).parts.filterMap Part.wait? = [] :=
    List.filterMap_eq_nil_iff.mpr fun part hm => by
      rw [Part.wait?, Pool.fetch?_partsFrom_of_loaded hp _ part hm, Option.map_none]
  rw [hwaits] at hread
  have hresult : (mount.pool.startRead file offset stop).result mount.pool.gatherings.size =
      .ok (mount.pool.cachedReply file offset stop) := by
    have hsize := (Pool.startRead_frame hs.sound file offset stop).2.2.2.2.1
    have hfetches : (mount.pool.plan file offset stop).fetches = [] :=
      List.filterMap_eq_nil_iff.mpr (Pool.fetch?_partsFrom_of_loaded hp _)
    rw [(Pool.steady_startRead hs file offset stop).result (hsize ▸ Nat.lt_succ_self _),
      Function.update_self]
    · exact Pool.outcome_plan_of_loaded hs.sound.backed hl hw hp _ _
    · rw [Function.update_self, hfetches]
      exact fun _ hm => (List.not_mem_nil hm).elim
  have hlength : stop - offset ≠ 0 := by omega
  have hstop : offset + (stop - offset) = stop := by omega
  let opened : Mount σ τ := { mount with pool := mount.pool.startRead file offset stop }
  have hdone : ∀ pages : List Nat,
      pages.foldl (takeTurn backend mount.pool.gatherings.size) opened = opened :=
    takeTurns_of_done backend hread rfl
  simp [read, hlength, hstop, hw, poll, hread, hdone, opened, hresult]

-- A read of the extent would find all its pages loaded.
def Finds (mount : Mount σ τ) (extent : Extent) : Prop :=
  extent.offset < extent.stop ∧ extent.stop < wordLimit ∧
    mount.pool.HasLoaded extent.file (extent.span mount.pool.limits)

theorem Finds.exists_cached {extent : Extent} (h : mount.Finds extent) :
    ∃ cached, mount.pool.files.find? extent.file = some cached := by
  obtain ⟨hl, _, hp⟩ := h
  have hfirst : mount.pool.limits.pageOf extent.offset ∈ extent.span mount.pool.limits := by
    refine (mount.pool.limits.mem_span_iff hl).mpr ⟨⟨_, rfl⟩, ?_, ?_⟩
    · exact (mount.pool.limits.pageOf_le extent.offset).trans_lt hl
    · exact mount.pool.limits.lt_pageOf_add_pageSize extent.offset
  obtain ⟨fetch, data, hpage⟩ := hp _ hfirst
  obtain ⟨cached, hf, _⟩ := Option.bind_eq_some_iff.mp hpage
  exact ⟨cached, hf⟩

theorem Finds.congr {next : Mount σ τ} {extent : Extent} {count : Nat} (h : mount.Finds extent)
    (hn : mount.pool.Hits next.pool count) : next.Finds extent := by
  refine ⟨h.1, h.2.1, ?_⟩
  rw [hn.limits]
  exact h.2.2.congr hn.pages

theorem act_of_finds (backend : Backend σ τ) (limits : Limits) (storage : σ)
    (acts : List (Act σ)) {extent : Extent}
    (h : (run backend (create limits storage) acts).Finds extent) (turns : Turns) :
    let mount := run backend (create limits storage) acts
    ∃ next, mount.act backend (extent.read turns) = ({ mount with pool := next },
        some (.returned (.ok (mount.pool.cachedReply extent.file extent.offset extent.stop)))) ∧
      mount.pool.Hits next (extent.span limits).length := by
  intro mount
  obtain ⟨plans, hs, hlimits⟩ := exists_steady backend limits storage acts
  obtain ⟨cached, hf⟩ := h.exists_cached
  obtain ⟨hl, hw, hp⟩ := h
  have hmarked : cached.released = true → cached.readers ≠ 0 := by
    intro hm hidle
    have hbusy := busy_of_released backend limits storage acts hf hm
    exact (hs.sound.leased.isIdle_iff hf).mp (beq_iff_eq.mpr hidle) hbusy
  have hhits := Pool.hits_endRead hs.sound hf hmarked hp
  rw [hlimits] at hhits
  refine ⟨_, ?_, hhits⟩
  exact congrArg (fun read => (read.1, some read.2)) 
    (read_of_loaded backend hs hl hw hp turns)

-- Each read of a series finds what the first one does.
theorem run_of_finds (backend : Backend σ τ) (limits : Limits) (storage : σ)
    (acts : List (Act σ)) {reads : List (Extent × Turns)}
    (h : ∀ read ∈ reads, (run backend (create limits storage) acts).Finds read.1) :
    let mount := run backend (create limits storage) acts
    let started : List (Act σ) := reads.map fun read => read.1.read read.2
    ∃ next, mount.run backend started = { mount with pool := next } ∧
      mount.answers backend started = (reads.map fun read => some (.returned (.ok
        (mount.pool.cachedReply read.1.file read.1.offset read.1.stop)))) ∧
      mount.pool.Hits next (reads.map fun read => (read.1.span limits).length).sum := by
  induction reads generalizing acts with
  | nil => exact ⟨_, rfl, rfl, .refl _⟩
  | cons read rest ih =>
      obtain ⟨extent, turns⟩ := read
      obtain ⟨next, hact, hhits⟩ := act_of_finds backend limits storage acts
        (h (extent, turns) List.mem_cons_self) turns
      have hnext : run backend (create limits storage) (acts ++ [extent.read turns]) =
          { run backend (create limits storage) acts with pool := next } := by
        rw [run_append]
        exact congrArg Prod.fst hact
      obtain ⟨last, hrun, hanswers, hrest⟩ := ih (acts ++ [extent.read turns]) fun other hm => by
        rw [hnext]
        exact (h other (List.mem_cons_of_mem _ hm)).congr hhits
      rw [hnext] at hrun hanswers hrest
      refine ⟨last, ?_, ?_, ?_⟩
      · rw [List.map_cons, run, hact]
        exact hrun
      · rw [List.map_cons, answers, hact, List.map_cons]
        refine congrArg _ (hanswers.trans (List.map_congr_left fun other _ => ?_))
        rw [Pool.cachedReply_congr hhits.limits hhits.pages]
      · rw [List.map_cons, List.sum_cons]
        exact hhits.trans hrest

-- Reads whose pages are all loaded return at once with the bytes that are cached, over and over
-- again. They ask nothing of storage, and leave no trace but the order of use and their hits.
theorem loaded_reads (backend : Backend σ τ) (limits : Limits) (storage : σ)
    (acts : List (Act σ)) (reads : List (Extent × Turns))
    (h : ∀ read ∈ reads, (run backend (create limits storage) acts).Finds read.1) :
    let mount := run backend (create limits storage) acts
    let started : List (Act σ) := reads.map fun read => read.1.read read.2
    (∃ next, mount.run backend started = { mount with pool := next } ∧
      mount.pool.Hits next (reads.map fun read => (read.1.span limits).length).sum) ∧
    mount.answers backend started = (reads.map fun read => some (.returned (.ok
      (mount.pool.cachedReply read.1.file read.1.offset read.1.stop)))) ∧
    issued backend (create limits storage) (acts ++ started) =
      issued backend (create limits storage) acts := by
  intro mount started
  obtain ⟨next, hrun, hanswers, hhits⟩ := run_of_finds backend limits storage acts h
  refine ⟨⟨next, hrun, hhits⟩, hanswers, ?_⟩
  -- no fault has been counted since, so there is no more than there was
  obtain ⟨calls, hcalls⟩ := exists_issued_append backend limits storage acts started
  have hfaults := (launches_run backend limits storage (acts ++ started)).2
  rw [run_append, hrun, hhits.counters, hcalls, List.length_append,
    ← (launches_run backend limits storage acts).2] at hfaults
  have hnone : calls = [] := List.eq_nil_of_length_eq_zero (Nat.left_eq_add.mp hfaults)
  rw [hcalls, hnone, List.append_nil]

-- Between the two pages that are loaded there is one that is still waited for.
theorem gated_loaded_reads :
    (gatedRun []).Finds ⟨0, 1, 3⟩ ∧ (gatedRun []).Finds ⟨0, 8, 12⟩ ∧
    (gatedRun []).answers Memory.backend
        ([⟨0, 1, 3⟩, ⟨0, 8, 12⟩, ⟨0, 1, 3⟩].map (Extent.read · .all)) =
      [some (.returned (.ok ⟨[⟨1, [2, 3]⟩]⟩)), some (.returned (.ok ⟨[⟨8, [9, 10]⟩]⟩)),
        some (.returned (.ok ⟨[⟨1, [2, 3]⟩]⟩))] := by
  have hfirst : (gatedRun []).Finds ⟨0, 1, 3⟩ :=
    ⟨by decide, by decide, fun page hm => by
      cases List.mem_singleton.mp hm
      exact ⟨_, _, rfl⟩⟩
  have hlast : (gatedRun []).Finds ⟨0, 8, 12⟩ :=
    ⟨by decide, by decide, fun page hm => by
      cases List.mem_singleton.mp hm
      exact ⟨_, _, rfl⟩⟩
  obtain ⟨_, hanswers, _⟩ := loaded_reads Memory.backend fourByteLimits gatedStorage
    [.ask (.read 0 1 8 .all)] [(⟨0, 1, 3⟩, .all), (⟨0, 8, 12⟩, .all), (⟨0, 1, 3⟩, .all)]
    fun read hm => by
      simp only [List.mem_cons, List.not_mem_nil, or_false] at hm
      rcases hm with rfl | rfl | rfl
      · exact hfirst
      · exact hlast
      · exact hfirst
  exact ⟨hfirst, hlast, hanswers⟩

end Mount

end PageCache
