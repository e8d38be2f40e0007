import PageCache.Proofs.Settling

namespace PageCache

namespace Pool

variable {τ : Type}

-- The fetch of that number comes to stand in another phase.
def withPhase (pool : Pool τ) (id : FetchId) (phase : Phase τ) : Pool τ :=
  { pool with fetches := pool.fetches.modify id fun fetch => { fetch with phase := phase } }

theorem call?_withPhase (pool : Pool τ) (id : FetchId) (phase : Phase τ) :
    (pool.withPhase id phase).call? = pool.call? := by
  funext fetch
  simp only [call?, withPhase, Array.getElem?_modify]
  split
  · rw [Option.map_map]
    rfl
  · rfl

theorem outcome?_withPhase (pool : Pool τ) (id : FetchId) (phase : Phase τ) (fetch : FetchId) :
    (pool.withPhase id phase).outcome? fetch =
      if id = fetch then (pool.call? fetch).bind fun _ => phase.outcome?
      else pool.outcome? fetch := by
  simp only [outcome?, call?, withPhase, Array.getElem?_modify]
  split
  · cases pool.fetches[fetch]? <;> rfl
  · rfl

theorem completes_withPhase {pool : Pool τ} {fetch : FetchId} {call : Call} (outcome : Outcome)
    (hc : pool.call? fetch = some call) (ho : pool.outcome? fetch = none) :
    Plan.Completes pool.outcome? (pool.withPhase fetch (.complete outcome)).outcome? fetch
      outcome where
  incomplete := ho
  complete := by
    rw [outcome?_withPhase, if_pos rfl, hc]
    rfl
  others other hn := by rw [outcome?_withPhase, if_neg (Ne.symm hn)]

-- Some reads get a change of what they have gathered, and nothing else happens.
structure Delivers (pool delivered : Pool τ) (ids : List ReadId)
    (change : Gathering → Gathering) : Prop where
  limits : delivered.limits = pool.limits
  files : delivered.files = pool.files
  fetches : delivered.fetches = pool.fetches
  live : delivered.live = pool.live
  failures : delivered.failures = pool.failures
  size : delivered.gatherings.size = pool.gatherings.size
  gatherings : ∀ id, delivered.gatherings[id]? =
    if id ∈ ids then pool.gatherings[id]?.map change else pool.gatherings[id]?

theorem Delivers.alike {pool delivered : Pool τ} {ids : List ReadId}
    {change : Gathering → Gathering} (h : pool.Delivers delivered ids change) :
    pool.Alike delivered where
  limits := h.limits
  call? := by
    funext fetch
    rw [call?, call?, h.fetches]
  outcome? := by
    funext fetch
    rw [outcome?, outcome?, h.fetches]
  failures := h.failures
  pageAt? := by
    funext file page
    rw [pageAt?, pageAt?, h.files]

theorem delivers_foldl {act : Pool τ → ReadId → Pool τ} {change : Gathering → Gathering}
    (ha : ∀ pool id, Delivers pool (act pool id) [id] change) {ids : List ReadId}
    (hn : ids.Nodup) (pool : Pool τ) : Delivers pool (ids.foldl act pool) ids change := by
  induction ids generalizing pool with
  | nil => exact ⟨rfl, rfl, rfl, rfl, rfl, rfl, by simp⟩
  | cons first rest ih =>
      rw [List.nodup_cons] at hn
      have hf := ha pool first
      have hr := ih hn.2 (act pool first)
      refine ⟨hr.limits.trans hf.limits, hr.files.trans hf.files, hr.fetches.trans hf.fetches,
        hr.live.trans hf.live, hr.failures.trans hf.failures, hr.size.trans hf.size, ?_⟩
      intro id
      rw [List.foldl_cons, hr.gatherings, hf.gatherings]
      by_cases he : id = first
      · subst he
        simp [hn.1]
      · simp [he]

theorem Delivers.comp {pool middle delivered : Pool τ} {id : ReadId}
    {first second : Gathering → Gathering} (h : pool.Delivers middle [id] first)
    (hd : middle.Delivers delivered [id] second) :
    pool.Delivers delivered [id] (second ∘ first) where
  limits := hd.limits.trans h.limits
  files := hd.files.trans h.files
  fetches := hd.fetches.trans h.fetches
  live := hd.live.trans h.live
  failures := hd.failures.trans h.failures
  size := hd.size.trans h.size
  gatherings other := by
    rw [hd.gatherings, h.gatherings]
    split
    · rw [Option.map_map]
    · rfl

theorem delivers_modifyGathering (pool : Pool τ) (id : ReadId) (change : Gathering → Gathering) :
    pool.Delivers (pool.modifyGathering id change) [id] change where
  limits := rfl
  files := rfl
  fetches := rfl
  live := rfl
  failures := rfl
  size := by simp [modifyGathering]
  gatherings other := by
    simp only [modifyGathering, Array.getElem?_modify, List.mem_singleton, eq_comm]

theorem Delivers.of_require {pool delivered : Pool τ} {ids : List ReadId}
    {change : Gathering → Gathering} {holds : Bool} {breach : Breach}
    (h : (pool.require holds breach).Delivers delivered ids change) :
    pool.Delivers delivered ids change where
  limits := h.limits.trans (by simp)
  files := h.files.trans (by simp)
  fetches := h.fetches.trans (by simp)
  live := h.live.trans (by simp)
  failures := h.failures.trans (by simp)
  size := h.size.trans (by simp)
  gatherings id := by rw [h.gatherings, gatherings_require]

theorem delivers_addPage (pool : Pool τ) (id : ReadId) (page : Nat) (data : Bytes) :
    pool.Delivers (pool.addPage id page data) [id] (·.add page data) :=
  .of_require (.of_require (delivers_modifyGathering _ _ _))

theorem delivers_arrive (pool : Pool τ) (id : ReadId) :
    pool.Delivers (pool.arrive id) [id] Gathering.arrive :=
  .of_require (.of_require (delivers_modifyGathering _ _ _))

theorem Ordered.of_files {pool other : Pool τ} (h : pool.Ordered)
    (hf : other.files = pool.files) : other.Ordered :=
  ⟨hf ▸ h.files, hf ▸ h.pages⟩

-- What one read gets makes no difference to the others.
theorem Delivers.sound {pool delivered : Pool τ} {change : Gathering → Gathering}
    {plans : ReadId → Plan} {id : ReadId} {before after : Plan}
    (h : pool.Delivers delivered [id] change) (hs : pool.Sound (Function.update plans id before))
    (ht : delivered.Tracks id after) : delivered.Sound (Function.update plans id after) where
  ordered := hs.ordered.of_files h.files
  leased := by
    refine hs.leased.of_tenancy h.live h.size fun file => ?_
    rw [tenancy, tenancy, h.files]
  backed := h.alike.backed hs.backed
  waiters := by
    rw [h.alike.pageAt?, h.size]
    exact hs.waiters
  tracked other ho := by
    rw [h.size] at ho
    have hother := hs.tracked other ho
    by_cases hn : other = id
    · subst hn
      rw [Function.update_self]
      exact ht
    · rw [Function.update_of_ne hn] at hother ⊢
      refine h.alike.tracks hother ?_ fun read hr hid => ?_
      · rw [h.gatherings, if_neg (by simpa using hn)]
      · exact hother.reading read (h.live ▸ hr) hid

theorem tenancy_modifyFile (pool : Pool τ) (file other : FileId)
    {change : FileCache → FileCache} (hs : ∀ cached, (change cached).serial = cached.serial)
    (hr : ∀ cached, (change cached).readers = cached.readers) :
    (pool.modifyFile file change).tenancy other = pool.tenancy other := by
  simp only [tenancy, find?_modifyFile]
  split
  · rw [Option.map_map]
    congr 1
    funext cached
    simp [hs, hr]
  · rfl

theorem pageAt?_modifyFile (pool : Pool τ) (file other : FileId)
    (change : FileCache → FileCache) (page : Nat) :
    (pool.modifyFile file change).pageAt? other page =
      if other = file then
        (pool.files.find? other).bind fun cached => (change cached).pages.find? page
      else pool.pageAt? other page := by
  simp only [pageAt?, find?_modifyFile]
  split
  · rw [Option.bind_map]
    rfl
  · rfl

section Resolution

variable {pool : Pool τ} {file : FileId} {wait : Wait} {waiters : List ReadId}

-- A fetch that completes changes one page of one file, and its readers get the outcome.
theorem settles_modifyFile {settled : Pool τ} {outcome : Outcome} (change : FileCache → FileCache)
    (hs : pool.Backed) (hp : pool.pageAt? file wait.page = some (.fetching wait.fetch waiters))
    (hserial : ∀ cached, (change cached).serial = cached.serial)
    (hreaders : ∀ cached, (change cached).readers = cached.readers)
    (hordered : ∀ cached, cached.pages.Ordered → (change cached).pages.Ordered)
    (hresolved : ∀ cached, (change cached).pages.find? wait.page =
      outcome.toOption.map fun answer => .loaded wait.fetch answer.1)
    (hothers : ∀ cached, ∀ name ≠ wait.page,
      (change cached).pages.find? name = cached.pages.find? name)
    (hlimits : settled.limits = pool.limits) (hlive : settled.live = pool.live)
    (hfetches : settled.fetches = (pool.withPhase wait.fetch (.complete outcome)).fetches)
    (hfiles : settled.files = (pool.modifyFile file change).files)
    (hfailures : settled.failures = pool.failures ++ outcome.failure? wait.fetch)
    (hsize : settled.gatherings.size = pool.gatherings.size)
    (hgather : ∀ id, settled.gatherings[id]? =
      if id ∈ waiters then pool.gatherings[id]?.map (·.settle wait.page outcome)
      else pool.gatherings[id]?) :
    pool.Settles settled file wait.page wait.fetch waiters outcome := by
  obtain ⟨cached, hf, _⟩ := Option.bind_eq_some_iff.mp hp
  obtain ⟨hcall, houtcome⟩ := hs.fetching _ _ _ _ hp
  have hpages : ∀ other name, settled.pageAt? other name =
      if other = file then
        (pool.files.find? other).bind fun cached => (change cached).pages.find? name
      else pool.pageAt? other name := by
    intro other name
    rw [pageAt?, hfiles]
    exact pageAt?_modifyFile pool file other change name
  refine ⟨hlimits, hlive, ?_, ?_, hfailures, ?_, hsize, hgather, ?_, ?_, ?_⟩
  · funext fetch
    rw [call?, hfetches]
    exact congrFun (call?_withPhase pool wait.fetch _) fetch
  · have hsame : settled.outcome? = (pool.withPhase wait.fetch (.complete outcome)).outcome? := by
      funext fetch
      rw [outcome?, hfetches, outcome?]
    rw [hsame]
    exact completes_withPhase outcome hcall houtcome
  · intro ho
    exact (ho.modifyFile file fun cached _ hc => hordered cached hc).of_files hfiles
  · intro other
    rw [tenancy, hfiles]
    exact tenancy_modifyFile pool file other hserial hreaders
  · rw [hpages, if_pos rfl, hf, Option.bind_some, hresolved]
  · intro other name hne
    rw [hpages]
    split
    · rename_i he
      subst he
      have hname : name ≠ wait.page := fun he => hne ⟨rfl, he⟩
      rw [pageAt?, hf, Option.bind_some, Option.bind_some, hothers cached name hname]
    · rfl

-- The page is loaded. The reads that it lists get its bytes after stale pages have
-- gone, but it makes no difference if they had got them before.
theorem exists_settles_store (data : Bytes) (attributes : Attributes)
    (hs : pool.Backed) (hn : waiters.Nodup)
    (hp : pool.pageAt? file wait.page = some (.fetching wait.fetch waiters)) :
    ∃ settled, pool.Settles settled file wait.page wait.fetch waiters (.ok (data, attributes)) ∧
      settled.Trims ((pool.withPhase wait.fetch (.complete (.ok (data, attributes)))).store file
        wait waiters data attributes) := by
  let done := pool.withPhase wait.fetch (.complete (.ok (data, attributes)))
  let change (cached : FileCache) : FileCache :=
    { cached with
      pages := cached.pages.insert wait.page (.loaded wait.fetch data)
      attributes := some attributes }
  let stored := done.modifyFile file change
  let fresh :=
    if (done.files.find? file).any (·.isStale attributes) then stored.dropStale file wait.page
    else stored
  let told := fresh.emit (.pageLoaded file wait.page wait.fetch data.length waiters.length)
  have hfresh : stored.Trims fresh := by
    by_cases hc : (done.files.find? file).any (·.isStale attributes)
    · simp only [fresh, hc, if_true]
      exact trims_dropStale stored file wait.page
    · simp only [fresh, hc, Bool.false_eq_true, if_false]
      exact .refl stored
  have htold : stored.Trims told := hfresh.trans (trims_emit _ _ rfl)
  have hfinal : told.Delivers (done.store file wait waiters data attributes) waiters
      (·.settle wait.page (.ok (data, attributes))) :=
    delivers_foldl (fun pool id =>
      (delivers_addPage pool id wait.page data).comp (delivers_arrive _ id)) hn told
  let settled := { done.store file wait waiters data attributes with files := stored.files }
  have hlive : settled.live = stored.live := hfinal.live.trans htold.live
  refine ⟨settled, ?_, ?_⟩
  · refine settles_modifyFile change hs hp (fun _ => rfl) (fun _ => rfl)
      (fun _ hc => hc.insert _ _) ?_ ?_
      (hfinal.limits.trans htold.limits) hlive (hfinal.fetches.trans htold.fetches) rfl ?_ ?_ ?_
    · intro cached
      exact LruMap.find?_insert_self ..
    · intro cached name hname
      exact LruMap.find?_insert_of_ne _ _ hname
    · exact (hfinal.failures.trans htold.failures).trans (List.append_nil _).symm
    · rw [hfinal.size, htold.gatherings]
      rfl
    · intro id
      rw [hfinal.gatherings, htold.gatherings]
      rfl
  · refine ⟨rfl, rfl, rfl, rfl, rfl, ?_, ?_, ?_⟩
    · intro ho
      exact (htold.ordered (ho.of_files rfl)).of_files hfinal.files
    · rw [hfinal.files]
      exact htold.file
    · rw [hfinal.files]
      intro other cached hcached hb
      refine htold.kept other cached hcached ?_
      simpa only [Busy, hlive] using hb

-- The page is gone, and the reads that it lists get the error.
theorem settles_giveUp (error : Error) (hs : pool.Backed) (hn : waiters.Nodup)
    (hp : pool.pageAt? file wait.page = some (.fetching wait.fetch waiters)) :
    pool.Settles ((pool.withPhase wait.fetch (.complete (.error error))).giveUp file wait waiters
      error) file wait.page wait.fetch waiters (.error error) := by
  let done := pool.withPhase wait.fetch (.complete (.error error))
  let bare := done.modifyFile file (·.drop [wait.page])
  let told := bare.emit (.fetchFailed file wait.page wait.fetch error waiters.length)
  have htold : told.Trims (told.shrink 1) := trims_shrink told 1
  have hfinal : (told.shrink 1).Delivers (done.giveUp file wait waiters error) waiters
      (·.settle wait.page (.error error)) :=
    delivers_foldl (fun pool id =>
      (delivers_modifyGathering pool id _).comp (delivers_arrive _ id)) hn _
  refine settles_modifyFile (·.drop [wait.page]) hs hp (fun _ => rfl) (fun _ => rfl)
    (fun _ hc => hc.eraseAll _) ?_ ?_
    (hfinal.limits.trans htold.limits) (hfinal.live.trans htold.live)
    (hfinal.fetches.trans htold.fetches) (hfinal.files.trans ?_) ?_ ?_ ?_
  · intro cached
    simp [FileCache.drop, LruMap.find?_eraseAll, Except.toOption]
  · intro cached name hname
    simp [FileCache.drop, LruMap.find?_eraseAll, hname]
  · simp only [shrink, setUsed, files_require, told, emit]
    rfl
  · rw [hfinal.failures, htold.failures, failures_emit]
    rfl
  · rw [hfinal.size, htold.gatherings]
    rfl
  · intro id
    rw [hfinal.gatherings, htold.gatherings]
    rfl

end Resolution

end Pool

end PageCache
