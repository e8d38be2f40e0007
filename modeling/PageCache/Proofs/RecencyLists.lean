import PageCache.Proofs.Extents
import PageCache.Proofs.FaultResolution
import PageCache.Proofs.RecentUse

namespace PageCache

theorem Pool.Moves.ordered {τ : Type} {pool next : Pool τ} {op : Op} (h : Moves op pool next)
    (ho : pool.Ordered) : next.Ordered :=
  (h.preserve (P := fun _ => True) (fun _ _ _ _ _ => trivial) ho trivial).1

-- The page that the read loads with what it sees, as file and page.
def Sighting.use? {σ τ : Type} (sighting : Sighting σ τ) : Option (FileId × Nat) :=
  sighting.mount.pool.loads? sighting.lease sighting.wait sighting.outcome

namespace Mount

variable {σ τ : Type} {mount : Mount σ τ} {reads : List FileId} {past : FileId → List Nat}

-- The pages that an act uses, in order. A read that starts uses those of its span that it
-- finds loaded and those that it creates, and then each poll uses those that it loads.
def actUses (backend : Backend σ τ) (mount : Mount σ τ) (act : Act σ) : List (FileId × Nat) :=
  (act.extent?.toList.flatMap fun extent =>
      mount.pool.touched extent.file (extent.span mount.pool.limits)) ++
    (mount.actSightings backend act).filterMap Sighting.use?

-- All uses of pages in the course of a run, the earliest first.
def uses (backend : Backend σ τ) (mount : Mount σ τ) : List (Act σ) → List (FileId × Nat)
  | [] => []
  | act :: rest => mount.actUses backend act ++ uses backend (mount.act backend act).1 rest

theorem follows_pollWait (backend : Backend σ τ) (id : ReadId) (lease : Lease) (wait : Wait)
    (h : mount.pool.Follows reads past) (ho : mount.pool.Ordered) :
    (pollWait backend id lease mount wait).pool.Follows reads
      (addUses past ((mount.waitSightings backend id lease wait).filterMap Sighting.use?)) := by
  have hfiles := (aside_drive backend mount wait.fetch).1.files
  have hdriven : (mount.drive backend wait.fetch).1.pool.Follows reads past := h.of_files hfiles
  unfold pollWait waitSightings
  simp only
  cases (mount.drive backend wait.fetch).2 with
  | none =>
      rw [Option.toList_none, List.map_nil, List.filterMap_nil, addUses_nil]
      exact hdriven
  | some outcome =>
      have hloads : (mount.drive backend wait.fetch).1.pool.loads? lease wait outcome =
          mount.pool.loads? lease wait outcome := by
        simp only [Pool.loads?, Pool.page?, Pool.leased?, hfiles]
      have hresolved := (hdriven.resolve (ho.of_files hfiles) lease wait outcome).sheds
        (Pool.sheds_observe _ id wait)
      have huse : ([⟨mount, id, lease, wait, outcome⟩] : List (Sighting σ τ)).filterMap
          Sighting.use? = (mount.pool.loads? lease wait outcome).toList := by
        cases hl : mount.pool.loads? lease wait outcome <;> simp [Sighting.use?, hl]
      rw [Option.toList_some, List.map_singleton, huse, ← hloads]
      exact hresolved

theorem follows_sweep (backend : Backend σ τ) (id : ReadId) (pages : List Nat)
    (h : mount.pool.Follows reads past) (ho : mount.pool.Ordered) :
    (pages.foldl (takeTurn backend id) mount).pool.Follows reads
      (addUses past ((mount.sweepSightings backend id pages).filterMap Sighting.use?)) := by
  induction pages generalizing mount past with
  | nil =>
      rw [sweepSightings, List.filterMap_nil, addUses_nil]
      exact h
  | cons page rest ih =>
      rw [List.foldl_cons, sweepSightings]
      rcases turn_cases backend mount id page with ⟨ht, hnone⟩ | ⟨read, _, wait, _, ht, hseen⟩
      · rw [ht, hnone]
        exact ih h ho
      · rw [ht, hseen, List.filterMap_append, addUses_append]
        exact ih (follows_pollWait backend id read.lease wait h ho)
          ((moves_pollWait backend id read.lease mount wait .prune).ordered ho)

theorem follows_poll (backend : Backend σ τ) (id : ReadId) (turns : Turns)
    (h : mount.pool.Follows reads past) (ho : mount.pool.Ordered) :
    (mount.poll backend id turns).1.pool.Follows reads
      (addUses past ((mount.pollSightings backend id turns).filterMap Sighting.use?)) := by
  unfold poll pollSightings
  cases mount.pool.live? id with
  | none =>
      simp only [List.filterMap_nil, addUses_nil]
      exact h
  | some read =>
      have hswept := follows_sweep backend id (turns (read.waits.map (·.page))) h ho
      simp only
      split
      · exact hswept.sheds (Pool.sheds_endRead _ id)
      · exact hswept

-- An act uses its file, if it starts a read, and its pages.
theorem follows_act (backend : Backend σ τ) (act : Act σ) (h : mount.pool.Follows reads past)
    (ho : mount.pool.Ordered) :
    (mount.act backend act).1.pool.Follows (reads ++ (act.extent?.map (·.file)).toList)
      (addUses past (mount.actUses backend act)) := by
  unfold actUses
  rw [addUses_append]
  cases hextent : act.extent? with
  | some extent =>
      obtain ⟨turns, hact, hsightings⟩ := act_of_extent backend mount hextent
      obtain ⟨file, offset, length, _, _, _, _, rfl⟩ := Act.exists_read_of_extent hextent
      let opened := mount.opened ⟨file, offset, offset + length⟩
      have hordered : opened.pool.Ordered :=
        (Pool.moves_startRead mount.pool file offset length turns).ordered ho
      have hopened : opened.pool.Follows _ _ := h.startRead ho file offset (offset + length)
      rw [hact, hsightings]
      simpa [Extent.span] using
        follows_poll backend mount.pool.gatherings.size turns hopened hordered
  | none =>
      simp only [Option.map_none, Option.toList_none, List.append_nil, List.flatMap_nil,
        addUses_nil]
      by_cases hpoll : ∃ id turns, act = .ask (.poll id turns)
      · obtain ⟨id, turns, rfl⟩ := hpoll
        exact follows_poll backend id turns h ho
      · obtain ⟨hsheds, hnone⟩ := sheds_act backend mount hextent
          fun id turns he => hpoll ⟨id, turns, he⟩
        rw [hnone, List.filterMap_nil, addUses_nil]
        exact h.sheds hsheds

theorem follows_run (backend : Backend σ τ) (acts : List (Act σ))
    (h : mount.pool.Follows reads past) (ho : mount.pool.Ordered) :
    (mount.run backend acts).pool.Follows
      (reads ++ (acts.filterMap Act.extent?).map (·.file))
      (addUses past (mount.uses backend acts)) := by
  induction acts generalizing mount reads past with
  | nil =>
      rw [List.filterMap_nil, List.map_nil, List.append_nil, uses, addUses_nil]
      exact h
  | cons act rest ih =>
      have hordered : (mount.act backend act).1.pool.Ordered := by
        cases act with
        | change become => exact ho
        | ask op => exact (moves_step backend mount op).ordered ho
      have hrest := ih (follows_act backend act h ho) hordered
      have hreads : reads ++ ((act :: rest).filterMap Act.extent?).map (·.file) =
          reads ++ (act.extent?.map (·.file)).toList ++
            (rest.filterMap Act.extent?).map (·.file) := by
        cases hextent : act.extent? <;> simp [hextent]
      rw [uses, addUses_append, hreads]
      exact hrest

theorem follows_sighting {pool : Pool τ} {plans : ReadId → Plan} {backend : Backend σ τ}
    {earlier : List (Sighting σ τ)} {sighting : Sighting σ τ}
    (h : sighting.Fits backend pool plans earlier) :
    (sighting.next backend).pool.Follows sighting.mount.pool.files.keys
      (addUses sighting.mount.pool.pagesOf sighting.use?.toList) := by
  obtain ⟨after, hsteps, _⟩ := h.reads
  have hordered := hsteps.steady.sound.ordered
  have huses : (sighting.mount.waitSightings backend sighting.id sighting.lease
      sighting.wait).filterMap Sighting.use? = sighting.use?.toList := by
    rw [waitSightings, h.outcome, Option.toList_some, List.map_singleton]
    cases hu : sighting.use? <;> simp [hu]
  rw [← huses]
  exact follows_pollWait backend sighting.id sighting.lease sighting.wait hordered.follows hordered

-- Files stand in the order in which they were last read, and the pages of a file in the order
-- in which they were last used: each of them once, as in a list from which a name is taken
-- and put at the end whenever it is used. It is the order of their stamps, which rise from entry
-- to entry. What uses no page of a file leaves the order of those that stay as it is, be it that
-- others go, and what starts no read does so with the files.
theorem recency_lists (backend : Backend σ τ) (limits : Limits) (storage : σ)
    (acts : List (Act σ)) :
    let mount := run backend (create limits storage) acts
    let pool := mount.pool
    let used := uses backend (create limits storage) acts
    (pool.files.Ordered ∧ ∀ file cached, pool.files.find? file = some cached →
      cached.pages.Ordered) ∧
    (pool.files.keys.Nodup ∧ (∀ file, file ∈ pool.files.keys ↔ pool.files.contains file) ∧
      pool.files.keys = ((acts.filterMap Act.extent?).map (·.file)).dedup.filter
        fun file => pool.files.contains file) ∧
    (∀ file, (pool.pagesOf file).Nodup ∧
      (∀ page, page ∈ pool.pagesOf file ↔ (pool.pageAt? file page).isSome) ∧
      pool.pagesOf file =
        (usesOf file used).dedup.filter fun page => (pool.pageAt? file page).isSome) ∧
    (∀ file offset stop,
      ((pool.touched file (limits.span offset stop)).map (·.2)).Pairwise (· < ·)) ∧
    (∀ act : Act σ, let next := (mount.act backend act).1.pool
      (act.extent? = none → next.files.keys.Sublist pool.files.keys) ∧
      (∀ file, usesOf file (mount.actUses backend act) = [] →
        (next.pagesOf file).Sublist (pool.pagesOf file)) ∧
      (act.extent? = none → (∀ id turns, act ≠ .ask (.poll id turns)) →
        mount.actUses backend act = [])) ∧
    ∀ sighting ∈ sightings backend (create limits storage) acts,
      let next := (sighting.next backend).pool
      next.files.keys.Sublist sighting.mount.pool.files.keys ∧
      (∀ file, usesOf file sighting.use?.toList = [] →
        (next.pagesOf file).Sublist (sighting.mount.pool.pagesOf file)) ∧
      ∀ error, sighting.outcome = .error error → sighting.use? = none := by
  intro mount pool used
  obtain ⟨plans, hs, hlimits⟩ := exists_steady backend limits storage acts
  have ho : pool.Ordered := hs.sound.ordered
  have hcreate : (create limits storage : Mount σ τ).pool.Ordered :=
    ⟨LruMap.Ordered.empty, fun _ _ hf => nomatch hf⟩
  have hfollows : pool.Follows ((acts.filterMap Act.extent?).map (·.file)) fun file =>
      usesOf file used := follows_run backend acts hcreate.follows hcreate
  -- with no use of a page, the pages are as they were, or fewer
  have hunused : ∀ {first next : Pool τ} {reads : List FileId} {more : List (FileId × Nat)},
      first.Ordered → next.Follows reads (addUses first.pagesOf more) → ∀ file,
      usesOf file more = [] → (next.pagesOf file).Sublist (first.pagesOf file) := by
    intro first next reads more hfirst h file hnone
    have hpages := h.pages file
    rwa [addUses, hnone, List.append_nil, (hfirst.nodup_pagesOf file).dedup] at hpages
  refine ⟨⟨ho.files, ho.pages⟩,
    ⟨ho.files.nodup_keys, fun file => ?_, hfollows.files_eq ho⟩, fun file =>
    ⟨ho.nodup_pagesOf file, fun page => ho.mem_pagesOf, hfollows.pages_eq ho file⟩,
    fun file offset stop => ?_, fun act => ?_, fun sighting hm => ?_⟩
  · rw [LruMap.contains_eq_isSome, ho.files.mem_keys, Option.isSome_iff_exists]
  · exact pool.pairwise_touched file ((limits.span_pairwise offset stop).imp And.left)
  · have hact := follows_act backend act ho.follows ho
    refine ⟨fun hnone => ?_, hunused ho hact, fun hnone hpoll => ?_⟩
    · have hfiles := hact.files
      rwa [hnone, Option.map_none, Option.toList_none, List.append_nil,
        ho.files.nodup_keys.dedup] at hfiles
    · rw [actUses, hnone, (sheds_act backend mount hnone hpoll).2]
      rfl
  · obtain ⟨_, _, hchronicle, _⟩ := exists_chronicle backend limits storage acts
    obtain ⟨before, hfits⟩ := hchronicle.exists_fits hm
    obtain ⟨_, hsteps, _⟩ := hfits.reads
    have hordered := hsteps.steady.sound.ordered
    have hnext := follows_sighting hfits
    refine ⟨?_, hunused hordered hnext, fun error herror => ?_⟩
    · have hfiles := hnext.files
      rwa [hordered.files.nodup_keys.dedup] at hfiles
    · rw [Sighting.use?, herror, Pool.loads?_error]

-- A read of a file that waits at a gate, a read of no such file, and one more of the first.
def readsInTurn : List (Act (Gates × Memory)) :=
  [.ask (.read 0 0 8 .all), .ask (.read 1 0 4 .all), .ask (.read 0 0 4 .all)]

theorem gated_recency_lists :
    let mount := run Memory.backend (create fourByteLimits gatedStorage) readsInTurn
    let pool := mount.pool
    let pruned := (mount.act Memory.backend (.ask .prune)).1.pool
    pool.files.order.Pairwise (·.1 < ·.1) ∧
    (pool.files.keys = [0, 1, 0].dedup.filter fun file => pool.files.contains file) ∧
    pool.files.keys = [1, 0] ∧
    (pool.pagesOf 0 = [0, 4, 0, 0, 0].dedup.filter fun page => (pool.pageAt? 0 page).isSome) ∧
    pool.pagesOf 0 = [4, 0] ∧ pruned.files.keys.Sublist pool.files.keys ∧
    usesOf 0 (mount.actUses Memory.backend (.ask .prune)) = [] ∧
    (pruned.pagesOf 0).Sublist (pool.pagesOf 0) := by
  intro mount pool pruned
  obtain ⟨⟨hordered, _⟩, ⟨_, _, hfiles⟩, hpages, _, hacts, _⟩ :=
    recency_lists Memory.backend fourByteLimits gatedStorage readsInTurn
  obtain ⟨hkeys, hunused, hnothing⟩ := hacts (.ask .prune)
  have hreads : (readsInTurn.filterMap Act.extent?).map (·.file) = [0, 1, 0] := rfl
  have huses : uses Memory.backend (create fourByteLimits gatedStorage) readsInTurn =
      [(0, 0), (0, 4), (0, 0), (1, 0), (0, 0), (0, 0)] := rfl
  have hnone : usesOf 0 (mount.actUses Memory.backend (.ask .prune)) = [] :=
    congrArg (usesOf 0) (hnothing rfl fun _ _ he => nomatch he)
  have hpage := (hpages 0).2.2
  rw [hreads] at hfiles
  rw [huses] at hpage
  exact ⟨hordered.sorted, hfiles, rfl, hpage, rfl, hkeys rfl, hnone, hunused 0 hnone⟩

end Mount

end PageCache
