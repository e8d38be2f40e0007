import PageCache.Proofs.Frame
import PageCache.Proofs.Lookup

namespace PageCache

namespace Pool

variable {τ : Type}

-- Where a read that looks a page up finds it. A new page gets the next fetch.
def source (pool : Pool τ) (file : FileId) (page : Nat) (next : FetchId) : Source :=
  match pool.pageAt? file page with
  | some (.loaded _ data) => .held data
  | some (.fetching fetch _) => .fetch fetch
  | none => .fetch next

-- The same for several pages that are looked up one after another.
def partsFrom (pool : Pool τ) (file : FileId) (next : FetchId) : List Nat → List Part
  | [] => []
  | page :: rest =>
      ⟨page, pool.source file page next⟩ ::
        pool.partsFrom file (if (pool.pageAt? file page).isNone then next + 1 else next) rest

-- The plan of a read that starts now.
def plan (pool : Pool τ) (file : FileId) (offset stop : Nat) : Plan :=
  ⟨file, offset, stop, pool.partsFrom file pool.fetches.size (pool.limits.span offset stop), 0⟩

theorem partsFrom_congr {pool other : Pool τ} {file : FileId} {pages : List Nat}
    (h : ∀ page ∈ pages, other.pageAt? file page = pool.pageAt? file page) (next : FetchId) :
    other.partsFrom file next pages = pool.partsFrom file next pages := by
  induction pages generalizing next with
  | nil => rfl
  | cons page rest ih =>
      rw [List.forall_mem_cons] at h
      rw [partsFrom, partsFrom, ih h.2, source, source, h.1]

theorem map_page_partsFrom (pool : Pool τ) (file : FileId) (next : FetchId) (pages : List Nat) :
    (pool.partsFrom file next pages).map (·.page) = pages := by
  induction pages generalizing next with
  | nil => rfl
  | cons page rest ih => rw [partsFrom, List.map_cons, ih]

-- Bytes that a read finds are those of a page that is loaded.
theorem pageAt?_of_held {pool : Pool τ} {file : FileId} {pages : List Nat} {next : FetchId}
    {page : Nat} {data : Bytes}
    (h : ⟨page, .held data⟩ ∈ pool.partsFrom file next pages) :
    ∃ fetch, pool.pageAt? file page = some (.loaded fetch data) := by
  induction pages generalizing next with
  | nil => cases h
  | cons first rest ih =>
      rcases List.mem_cons.mp h with he | hm
      · rw [Part.mk.injEq] at he
        obtain ⟨rfl, hs⟩ := he
        unfold source at hs
        split at hs
        · rename_i fetch bytes hp
          cases hs
          exact ⟨fetch, hp⟩
        · cases hs
        · cases hs
      · exact ih hm

-- A read that looks a page up gets it with this fetch, which the page has had or which is new.
def Sources (pool : Pool τ) (file : FileId) (page : Nat) (fetch : FetchId) : Prop :=
  (∃ found, pool.pageAt? file page = some found ∧ found.fetch = fetch) ∨
    pool.fetches.size ≤ fetch

-- What a read waits for is the fetch of a page that waits as well, or a new one.
theorem fetching_of_fetch {pool : Pool τ} {file : FileId} {pages : List Nat} {next : FetchId}
    {page : Nat} {fetch : FetchId} (hn : pool.fetches.size ≤ next)
    (h : ⟨page, .fetch fetch⟩ ∈ pool.partsFrom file next pages) :
    (∃ waiters, pool.pageAt? file page = some (.fetching fetch waiters)) ∨
      pool.fetches.size ≤ fetch := by
  induction pages generalizing next with
  | nil => cases h
  | cons first rest ih =>
      rcases List.mem_cons.mp h with he | hm
      · rw [Part.mk.injEq] at he
        obtain ⟨rfl, hs⟩ := he
        unfold source at hs
        split at hs
        · cases hs
        · rename_i waited waiters hp
          cases hs
          exact .inl ⟨waiters, hp⟩
        · cases hs
          exact .inr hn
      · refine ih ?_ hm
        split
        · exact Nat.le_succ_of_le hn
        · exact hn

theorem sources_of_fetch {pool : Pool τ} {file : FileId} {pages : List Nat} {next : FetchId}
    {page : Nat} {fetch : FetchId} (hn : pool.fetches.size ≤ next)
    (h : ⟨page, .fetch fetch⟩ ∈ pool.partsFrom file next pages) :
    pool.Sources file page fetch :=
  (fetching_of_fetch hn h).imp_left fun ⟨_, hp⟩ => ⟨_, hp, rfl⟩

-- Its outcome is not known.
theorem Backed.outcome?_of_fetch {pool : Pool τ} (hb : pool.Backed) {file : FileId}
    {pages : List Nat} {next : FetchId} {page : Nat} {fetch : FetchId}
    (hn : pool.fetches.size ≤ next) (h : ⟨page, .fetch fetch⟩ ∈ pool.partsFrom file next pages) :
    pool.outcome? fetch = none := by
  rcases fetching_of_fetch hn h with ⟨waiters, hp⟩ | hle
  · exact (hb.fetching _ _ _ _ hp).2
  · exact outcome?_eq_none_of_call? (call?_eq_none_iff.mpr hle)

section Starting

variable {pool : Pool τ} {plans : ReadId → Plan} {id : ReadId} {lease : Lease} {plan : Plan}
  {page : Nat}

-- The bytes of a page that is loaded are used, which changes nothing but the order of use.
theorem trims_use (pool : Pool τ) (file : FileId) (page : Nat) :
    pool.Trims (pool.modifyFile file fun cached =>
      { cached with pages := cached.pages.touch page }) :=
  trims_modifyFile pool file _ fun _ _ =>
    ⟨rfl, rfl, fun h => h.touch page, fun _ _ h => (LruMap.find?_touch ..).symm.trans h,
      fun _ _ _ h _ => (LruMap.find?_touch ..).trans h⟩

theorem pageAt?_use (pool : Pool τ) (file : FileId) (page : Nat) :
    (pool.modifyFile file fun cached =>
      { cached with pages := cached.pages.touch page }).pageAt? = pool.pageAt? := by
  funext other name
  rw [pageAt?_modifyFile]
  split
  · simp only [LruMap.find?_touch]
    rfl
  · rfl

theorem keeps_lookup (id : ReadId) (lease : Lease) (pool : Pool τ) (page : Nat) :
    pool.Keeps (lookup id lease pool page) := by
  unfold lookup
  split
  · exact ((trims_use ..).keeps.trans (trims_emit _ _ rfl).keeps).trans
      (delivers_addPage ..).keeps
  · exact (keeps_join ..).trans (trims_emit _ _ rfl).keeps
  · exact (keeps_createPage ..).trans (keeps_join ..)

-- A page that is not there comes with a fetch of its own.
theorem fetches_lookup (h : pool.Holds lease) (id : ReadId) (page : Nat) :
    (lookup id lease pool page).fetches =
      if (pool.pageAt? lease.file page).isNone then
        pool.fetches.push ⟨⟨lease.file, page, pool.limits.pageSize⟩, .idle⟩
      else pool.fetches := by
  unfold lookup
  rw [page?_eq_pageAt? page h]
  split
  · rename_i hp
    rw [hp, (delivers_addPage ..).fetches]
    rfl
  · rename_i hp
    rw [hp]
    exact (join_frame pool id lease _).2.1
  · rename_i hp
    rw [hp, (join_frame ..).2.1]
    rfl

theorem size_fetches_lookup (h : pool.Holds lease) (id : ReadId) (page : Nat) :
    (lookup id lease pool page).fetches.size =
      if (pool.pageAt? lease.file page).isNone then pool.fetches.size + 1
      else pool.fetches.size := by
  rw [fetches_lookup h]
  split <;> simp

theorem pageAt?_lookup_of_ne (h : pool.Holds lease) (id : ReadId) (page : Nat)
    (file : FileId) {name : Nat} (hn : name ≠ page) :
    (lookup id lease pool page).pageAt? file name = pool.pageAt? file name := by
  obtain ⟨cached, hf, _⟩ := h
  have hne : ¬ (file = lease.file ∧ name = page) := fun he => hn he.2
  unfold lookup
  split
  · rw [(delivers_addPage ..).alike.pageAt?]
    exact congrFun (congrFun (pageAt?_use pool lease.file page) file) name
  · exact (pageAt?_join ..).trans (if_neg hne)
  · rw [pageAt?_join, if_neg hne, pageAt?_createPage hf, if_neg hne]

theorem Starting.createPage (h : pool.Starting plans id lease plan)
    (hp : pool.pageAt? lease.file page = none) :
    (pool.createPage lease.file page).Starting plans id lease plan ∧
    (pool.createPage lease.file page).pageAt? lease.file page =
      some (.fetching pool.fetches.size []) := by
  obtain ⟨cached, hf, _⟩ := h.cached
  refine ⟨⟨sound_createPage h.sound hf hp, h.newest, h.hold, h.live⟩, ?_⟩
  rw [pageAt?_createPage hf, if_pos ⟨rfl, rfl⟩]

-- Whatever is found, the plan has one page more.
theorem Starting.lookup (h : pool.Starting plans id lease plan)
    (hm : page ∉ plan.parts.map (·.page))
    (hspan : plan.parts.map (·.page) ++ [page] <+: pool.limits.span plan.offset plan.stop) :
    (pool.lookup id lease page).Starting plans id lease
      (plan.extend ⟨page, pool.source lease.file page pool.fetches.size⟩) := by
  unfold Pool.lookup source
  rw [h.page?_eq]
  cases hp : pool.pageAt? lease.file page with
  | none =>
      obtain ⟨hcreated, hpage⟩ := h.createPage hp
      exact hcreated.join hpage hm hspan
  | some found =>
      cases found with
      | loaded fetch data =>
          have hused := (h.trims (trims_use pool lease.file page)).trims
            (trims_emit _ (.pageHit lease.file page fetch) rfl)
          exact hused.add (delivers_addPage ..) hspan
      | fetching fetch waiters => exact (h.join hp hm hspan).trims (trims_emit _ _ rfl)

theorem Starting.lookups {pages : List Nat} (h : pool.Starting plans id lease plan)
    (hspan : plan.parts.map (·.page) ++ pages <+: pool.limits.span plan.offset plan.stop) :
    (pages.foldl (Pool.lookup id lease) pool).Starting plans id lease
      { plan with
        parts := plan.parts ++ pool.partsFrom lease.file pool.fetches.size pages } := by
  induction pages generalizing pool plan with
  | nil => simpa [partsFrom] using h
  | cons page rest ih =>
      have hnodup := (pool.limits.nodup_span plan.offset plan.stop).sublist hspan.sublist
      rw [List.nodup_append, List.nodup_cons] at hnodup
      obtain ⟨_, ⟨hrest, _⟩, hfar⟩ := hnodup
      have hm : page ∉ plan.parts.map (·.page) :=
        fun hm => hfar page hm page List.mem_cons_self rfl
      have hfirst : plan.parts.map (·.page) ++ [page] <+:
          pool.limits.span plan.offset plan.stop := by
        refine List.IsPrefix.trans ⟨rest, ?_⟩ hspan
        simp
      have hnext : (plan.extend ⟨page, pool.source lease.file page pool.fetches.size⟩).parts.map
          (·.page) ++ rest <+: (pool.lookup id lease page).limits.span plan.offset plan.stop := by
        rw [(keeps_lookup id lease pool page).limits]
        simpa [Plan.extend] using hspan
      have hlooked := ih (h.lookup hm hfirst) hnext
      have hparts : (pool.lookup id lease page).partsFrom lease.file
          (pool.lookup id lease page).fetches.size rest =
          pool.partsFrom lease.file
            (if (pool.pageAt? lease.file page).isNone then pool.fetches.size + 1
              else pool.fetches.size) rest := by
        rw [size_fetches_lookup h.cached]
        refine partsFrom_congr (fun name hname => ?_) _
        exact pageAt?_lookup_of_ne h.cached id page lease.file fun he => hrest (he ▸ hname)
      rw [hparts] at hlooked
      simpa [Plan.extend, partsFrom] using hlooked

end Starting

theorem starting_registered {pool : Pool τ} {plans : ReadId → Plan} (hs : pool.Sound plans)
    (file : FileId) (offset stop : Nat) :
    (pool.registered file offset stop).Starting plans pool.gatherings.size
      ⟨file, (pool.resident file).serial⟩ ⟨file, offset, stop, [], 1⟩ := by
  refine ⟨sound_registered hs file offset stop, ?_, rfl, ?_⟩
  · rw [gatherings_registered, Array.size_push]
  · rw [live_registered]
    exact ⟨_, List.mem_append_right _ (List.mem_singleton_self _), rfl, rfl⟩

-- The pages of a span are looked up one after another, before the new ones are counted.
def lookedUp (pool : Pool τ) (file : FileId) (offset stop : Nat) : Pool τ :=
  (pool.limits.span offset stop).foldl
    (lookup pool.gatherings.size ⟨file, (pool.resident file).serial⟩)
    (pool.registered file offset stop)

theorem lookupSpan_eq (pool : Pool τ) (file : FileId) (offset stop : Nat) :
    pool.lookupSpan file offset stop =
      (pool.lookedUp file offset stop).require
        (decide ((pool.lookedUp file offset stop).fetches.size - pool.fetches.size < wordLimit))
        .createdOverflow := by
  simp only [lookupSpan, lookedUp, registered, lease_enter]

theorem starting_lookupSpan {pool : Pool τ} {plans : ReadId → Plan} (hs : pool.Sound plans)
    (file : FileId) (offset stop : Nat) :
    (pool.lookupSpan file offset stop).Starting plans pool.gatherings.size
      ⟨file, (pool.resident file).serial⟩ { pool.plan file offset stop with hold := 1 } := by
  have halike := alike_registered pool file offset stop
  have hspan : ([] : List Part).map (·.page) ++ pool.limits.span offset stop <+:
      (pool.registered file offset stop).limits.span offset stop := by
    rw [halike.limits]
    exact List.prefix_refl _
  have hlooked := (starting_registered hs file offset stop).lookups hspan
  have hsize : (pool.registered file offset stop).fetches.size = pool.fetches.size :=
    congrArg Array.size (enter_frame pool file).2.1
  rw [hsize, partsFrom_congr fun page _ => congrFun (congrFun halike.pageAt? file) page] at hlooked
  rw [lookupSpan_eq]
  exact hlooked.trims (trims_require ..)

theorem keeps_lookups (id : ReadId) (lease : Lease) (pages : List Nat) (pool : Pool τ) :
    pool.Keeps (pages.foldl (lookup id lease) pool) := by
  induction pages generalizing pool with
  | nil => exact .refl pool
  | cons page rest ih => exact (keeps_lookup id lease pool page).trans (ih _)

-- With the hold given up, the read is done when its pages are.
theorem Starting.sound_arrive {pool : Pool τ} {plans : ReadId → Plan} {id : ReadId}
    {lease : Lease} {plan : Plan} (h : pool.Starting plans id lease plan) :
    (pool.arrive id).Sound (Function.update plans id { plan with hold := 0 }) := by
  have hd := delivers_arrive pool id
  have hplan : { plan with hold := 1 } = plan := h.hold ▸ rfl
  have hgather : (pool.arrive id).gatherings[id]? =
      some (Plan.gathering { plan with hold := 0 } pool.outcome? pool.failures) := by
    rw [hd.gatherings, if_pos (List.mem_singleton_self _), h.tracks.gathering,
      Plan.gathering_release, hplan]
    rfl
  exact hd.sound h.sound
    (hd.alike.replans h.tracks hd.live rfl (fun _ _ => Iff.rfl) h.tracks.pages hgather)

section StartRead

variable {pool : Pool τ} {plans : ReadId → Plan}

theorem exists_trims_startRead (hs : pool.Sound plans) (file : FileId) (offset stop : Nat) :
    ∃ kept, (pool.lookupSpan file offset stop).Trims kept ∧
      pool.startRead file offset stop = kept.arrive pool.gatherings.size := by
  have hlooked := starting_lookupSpan hs file offset stop
  by_cases hc : pool.fetches.size < (pool.lookupSpan file offset stop).fetches.size
  · refine ⟨_, trims_enforceBudget hlooked.sound.leased, ?_⟩
    simp only [startRead, hc, if_true]
  · refine ⟨_, .refl _, ?_⟩
    simp only [startRead, hc, if_false]

theorem sound_startRead (hs : pool.Sound plans) (file : FileId) (offset stop : Nat) :
    (pool.startRead file offset stop).Sound
      (Function.update plans pool.gatherings.size (pool.plan file offset stop)) := by
  obtain ⟨kept, htrims, he⟩ := exists_trims_startRead hs file offset stop
  rw [he]
  exact ((starting_lookupSpan hs file offset stop).trims htrims).sound_arrive

-- What was there before a read started is there afterwards.
theorem startRead_frame (hs : pool.Sound plans) (file : FileId) (offset stop : Nat) :
    (pool.startRead file offset stop).limits = pool.limits ∧
    (∀ fetch call, pool.call? fetch = some call →
      (pool.startRead file offset stop).call? fetch = some call) ∧
    (pool.startRead file offset stop).outcome? = pool.outcome? ∧
    (pool.startRead file offset stop).failures = pool.failures ∧
    (pool.startRead file offset stop).gatherings.size = pool.gatherings.size + 1 ∧
    (pool.startRead file offset stop).leases =
      pool.leases ++ [(pool.gatherings.size, ⟨file, (pool.resident file).serial⟩)] := by
  obtain ⟨kept, htrims, he⟩ := exists_trims_startRead hs file offset stop
  have halike := alike_registered pool file offset stop
  have hkeeps : (pool.registered file offset stop).Keeps (pool.startRead file offset stop) := by
    rw [he]
    refine Keeps.trans ?_ (htrims.keeps.trans (delivers_arrive kept _).keeps)
    rw [lookupSpan_eq]
    exact (keeps_lookups ..).trans (trims_require ..).keeps
  refine ⟨hkeeps.limits.trans halike.limits, fun fetch call hc =>
    hkeeps.calls fetch call (halike.call? ▸ hc), hkeeps.outcome?.trans halike.outcome?,
    hkeeps.failures.trans halike.failures, ?_, ?_⟩
  · rw [he, (delivers_arrive kept _).size, htrims.gatherings]
    exact (starting_lookupSpan hs file offset stop).newest
  · rw [hkeeps.leases, leases, live_registered, List.map_append]
    rfl

end StartRead

end Pool

end PageCache
