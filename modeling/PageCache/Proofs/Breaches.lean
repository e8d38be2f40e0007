import Mathlib.Data.List.Induction
import PageCache.Proofs.Calm
import PageCache.Proofs.ReadOutcome
import PageCache.Proofs.Traffic

namespace PageCache

namespace Pool

variable {τ : Type} {pool next : Pool τ} {plans : ReadId → Plan} {id : ReadId}

-- The read has a page to come, and what it has gathered is within its range.
def Due (pool : Pool τ) (id : ReadId) : Prop :=
  ∀ gathering, pool.gatherings[id]? = some gathering → 0 < gathering.awaited ∧ gathering.Fits

theorem Due.deliver (h : pool.Due id) {change : Gathering → Gathering}
    (hd : pool.Delivers next [id] change)
    (hc : ∀ gathering, gathering.Fits →
      (change gathering).Fits ∧ (change gathering).awaited = gathering.awaited) :
    next.Due id := by
  intro gathering hg
  rw [hd.gatherings, if_pos (List.mem_singleton_self id)] at hg
  obtain ⟨before, hb, rfl⟩ := Option.map_eq_some_iff.mp hg
  obtain ⟨hawaited, hfits⟩ := h before hb
  obtain ⟨hfits', hsame⟩ := hc before hfits
  exact ⟨hsame ▸ hawaited, hfits'⟩

theorem calm_arrive (h : pool.Due id) : pool.Calm (pool.arrive id) := by
  have hawaited : pool.gatherings[id]?.all (0 < ·.awaited) = true := by
    cases hg : pool.gatherings[id]? with
    | none => rfl
    | some gathering => exact decide_eq_true (h gathering hg).1
  have hfits : pool.gatherings[id]?.all (·.replyFits) = true := by
    cases hg : pool.gatherings[id]? with
    | none => rfl
    | some gathering => exact (h gathering hg).2.replyFits
  exact ((calm_require pool .arrivedTwice hawaited).trans
    (calm_require _ .replyOverflow hfits)).trans (calm_modifyGathering ..)

theorem calm_addPage (pool : Pool τ) (id : ReadId) (page : Nat) (data : Bytes) :
    pool.Calm (pool.addPage id page data) := by
  have hstarts : pool.gatherings[id]?.all (·.sliceStarts page data) = true := by
    cases pool.gatherings[id]? with
    | none => rfl
    | some gathering => exact gathering.sliceStarts_eq_true page data
  have hfits : pool.gatherings[id]?.all (·.sliceFits page data) = true := by
    cases pool.gatherings[id]? with
    | none => rfl
    | some gathering => exact gathering.sliceFits_eq_true page data
  exact ((calm_require pool .sliceUnderflow hstarts).trans
    (calm_require _ .sliceBounds hfits)).trans (calm_modifyGathering ..)

theorem calm_fill (h : pool.Due id) (page : Nat) (data : Bytes) :
    pool.Calm ((pool.addPage id page data).arrive id) := by
  refine (calm_addPage pool id page data).trans (calm_arrive (h.deliver (delivers_addPage ..) ?_))
  intro gathering hfits
  refine ⟨hfits.add page data, ?_⟩
  rw [Gathering.add_eq]

theorem calm_fail (h : pool.Due id) (error : Error) :
    pool.Calm ((pool.spoil id error).arrive id) := by
  have hspoilt : pool.Calm (pool.spoil id error) := calm_modifyGathering ..
  refine hspoilt.trans (calm_arrive (h.deliver (delivers_modifyGathering ..) ?_))
  intro gathering hfits
  refine ⟨hfits.spoil error, ?_⟩
  rw [Gathering.spoil_eq]

-- Each of the reads gets the outcome once, so that those to come are not touched before.
theorem calm_deliveries {act : Pool τ → ReadId → Pool τ} {change : Gathering → Gathering}
    (hd : ∀ pool id, Delivers pool (act pool id) [id] change)
    (ha : ∀ pool id, Due pool id → Calm pool (act pool id)) {ids : List ReadId}
    (hn : ids.Nodup) (h : ∀ id ∈ ids, pool.Due id) : pool.Calm (ids.foldl act pool) := by
  induction ids generalizing pool with
  | nil => exact .refl pool
  | cons id rest ih =>
      obtain ⟨hfar, hrest⟩ := List.nodup_cons.mp hn
      refine (ha pool id (h id List.mem_cons_self)).trans (ih hrest fun other ho gathering hg => ?_)
      have hne : other ∉ [id] := by
        rintro hm
        exact hfar (List.mem_singleton.mp hm ▸ ho)
      rw [(hd pool id).gatherings, if_neg hne] at hg
      exact h other (List.mem_cons_of_mem _ ho) gathering hg

-- A read that a page lists has that page to come.
theorem Sound.due (hs : pool.Sound plans) (hr : ∀ id, (plans id).Ranged) {file : FileId}
    {page : Nat} {fetch : FetchId} {waiters : List ReadId}
    (hp : pool.pageAt? file page = some (.fetching fetch waiters)) (hid : id ∈ waiters) :
    pool.Due id := by
  have ht := hs.tracked id ((hs.waiters _ _ _ _ hp).2 id hid)
  have hpart := ((ht.waiting _ _ _ _ hp).mp hid).2
  have hpending : Part.isPending pool.outcome? ⟨page, .fetch fetch⟩ = true := by
    rw [Part.isPending_fetch, (hs.backed.fetching _ _ _ _ hp).2, Option.isNone_none]
  have hcount : 0 < (plans id).parts.countP (·.isPending pool.outcome?) :=
    List.countP_pos_iff.mpr ⟨_, hpart, hpending⟩
  intro gathering hg
  cases ht.gathering.symm.trans hg
  refine ⟨?_, (hr id).fits ..⟩
  rw [Plan.awaited_gathering]
  omega

theorem gatherings_load (pool : Pool τ) (file : FileId) (wait : Wait) (waiters : List ReadId)
    (data : Bytes) (attributes : Attributes) :
    (pool.load file wait waiters data attributes).gatherings = pool.gatherings := by
  unfold load
  simp only
  split
  · exact (trims_dropStale _ file wait.page).gatherings
  · rfl

section Resolution

variable {read : LiveRead} {wait : Wait}

-- The page that a read is the first to see the outcome of lists only reads that wait for it.
theorem calm_resolve (hs : pool.Sound plans) (hr : ∀ id, (plans id).Ranged)
    (hread : read ∈ pool.live) (hw : wait ∈ read.waits) (ho : pool.outcome? wait.fetch = none)
    (outcome : Outcome) :
    (pool.withPhase wait.fetch (.complete outcome)).Calm
      ((pool.withPhase wait.fetch (.complete outcome)).resolve read.lease wait outcome) := by
  let done := pool.withPhase wait.fetch (.complete outcome)
  have ht := hs.tracked read.id (hs.leased.known read hread)
  have hreads := ht.reading read hread rfl
  obtain ⟨_, waiters, hp⟩ := hreads.unseen _ _ (hreads.planned wait hw) ho
  rw [← hreads.file] at hp
  have hn : waiters.Nodup := (hs.waiters _ _ _ _ hp).1.imp Nat.ne_of_lt
  have hdue : ∀ id ∈ waiters, pool.Due id := fun id hid => hs.due hr hp hid
  have hpage : done.page? read.lease wait.page = some (.fetching wait.fetch waiters) :=
    (hs.leased.page?_eq hread wait.page).trans hp
  unfold resolve
  rw [hpage]
  simp only [if_true]
  cases outcome with
  | ok answer =>
      have hload := calm_load done read.lease.file wait waiters answer.1 answer.2
      have hsame := gatherings_load done read.lease.file wait waiters answer.1 answer.2
      change done.Calm (done.store read.lease.file wait waiters answer.1 answer.2)
      rw [store_eq]
      refine hload.trans (calm_deliveries (fun pool id =>
        (delivers_addPage pool id wait.page answer.1).comp (delivers_arrive _ id))
        (fun pool id h => calm_fill h wait.page answer.1) hn fun id hid gathering hg => ?_)
      exact hdue id hid gathering (hsame ▸ hg)
  | error error =>
      let bare := done.dropPages read.lease.file [wait.page]
        (.fetchFailed read.lease.file wait.page wait.fetch error waiters.length)
      have hbare : done.Calm bare := calm_dropPages _ _ _ rfl
      have hsame : bare.gatherings = done.gatherings := gatherings_require ..
      refine hbare.trans (calm_deliveries (fun pool id =>
        (delivers_modifyGathering pool id (·.spoil error)).comp (delivers_arrive _ id))
        (fun pool id h => calm_fail h error) hn fun id hid gathering hg => ?_)
      exact hdue id hid gathering (hsame ▸ hg)

end Resolution

section Starting

variable {lease : Lease} {plan : Plan} {page : Nat}

theorem calm_join {fetch : FetchId} {waiters : List ReadId}
    (h : pool.page? lease page = some (.fetching fetch waiters)) (id : ReadId) :
    pool.Calm (pool.join id lease ⟨page, fetch⟩) := by
  refine (calm_require pool .waitForLoaded ?_).trans (calm_of_journal rfl rfl)
  rw [h]
  rfl

-- A read waits for pages that are being fetched or have just been created.
theorem Starting.calm_lookup (h : pool.Starting plans id lease plan) (page : Nat) :
    pool.Calm (Pool.lookup id lease pool page) := by
  unfold Pool.lookup
  split
  · rename_i fetch data _
    exact ((calm_modifyFile ..).trans (calm_emit _ rfl)).trans (calm_addPage _ id page data)
  · rename_i fetch waiters hp
    exact (calm_join hp id).trans (calm_emit _ rfl)
  · rename_i hp
    obtain ⟨hcreated, hpage⟩ := h.createPage ((h.page?_eq page).symm.trans hp)
    have hcalm : pool.Calm (pool.createPage lease.file page) :=
      calm_of_emit (.pageCreated lease.file page pool.fetches.size) rfl rfl rfl
    exact hcalm.trans (calm_join ((hcreated.page?_eq page).trans hpage) id)

theorem Starting.calm_lookups {pages : List Nat} (h : pool.Starting plans id lease plan)
    (hspan : plan.parts.map (·.page) ++ pages <+: pool.limits.span plan.offset plan.stop) :
    pool.Calm (pages.foldl (Pool.lookup id lease) pool) := by
  induction pages using List.reverseRecOn with
  | nil => exact .refl pool
  | append_singleton first page ih =>
      have hfirst : plan.parts.map (·.page) ++ first <+:
          pool.limits.span plan.offset plan.stop :=
        List.IsPrefix.trans ⟨[page], by simp⟩ hspan
      rw [List.foldl_append]
      exact (ih hfirst).trans ((h.lookups hfirst).calm_lookup page)

theorem calm_registered (pool : Pool τ) (file : FileId) (offset stop : Nat) :
    pool.Calm (pool.registered file offset stop) := by
  have henter : pool.Calm (pool.enter file) := by
    unfold enter
    split
    · exact calm_of_journal rfl rfl
    · exact calm_of_emit (.fileAdded file) rfl rfl rfl
  exact henter.trans (calm_of_journal rfl rfl)

-- With its hold, a read that is being started has something to come until all pages have been
-- looked up.
theorem Starting.due (h : pool.Starting plans id lease plan) (hr : plan.Ranged) :
    pool.Due id := by
  intro gathering hg
  cases h.tracks.gathering.symm.trans hg
  refine ⟨?_, hr.fits ..⟩
  rw [Plan.awaited_gathering, h.hold]
  omega

theorem calm_startRead (hs : pool.Sound plans) {file : FileId} {offset stop : Nat}
    (hr : (pool.plan file offset stop).Ranged) :
    pool.Calm (pool.startRead file offset stop) := by
  have hlookups : pool.Calm (pool.lookupSpan file offset stop) := by
    have hspan := List.prefix_refl (pool.limits.span offset stop)
    have hlimits := (alike_registered pool file offset stop).limits
    rw [lookupSpan_eq]
    refine ((calm_registered pool file offset stop).trans
      ((starting_registered hs file offset stop).calm_lookups ?_)).trans
      (calm_require _ .createdOverflow (decide_eq_true (created_lt hs file offset hr.2)))
    rwa [hlimits]
  have hlooked := starting_lookupSpan hs file offset stop
  have hkept : ∀ kept, (pool.lookupSpan file offset stop).Trims kept →
      kept.Due pool.gatherings.size := fun kept ht => (hlooked.trims ht).due hr
  unfold startRead
  simp only
  split
  · have hleased := hlooked.sound.leased
    exact (hlookups.trans (calm_enforceBudget hlooked.sound.ordered hleased)).trans
      (calm_arrive (hkept _ (trims_enforceBudget hleased)))
  · exact hlookups.trans (calm_arrive (hkept _ (.refl _)))

end Starting

end Pool

namespace Mount

variable {σ τ : Type} {mount : Mount σ τ} {plans : ReadId → Plan}

theorem calm_drive (backend : Backend σ τ) (mount : Mount σ τ) (fetch : FetchId) :
    mount.pool.Calm (mount.drive backend fetch).1.pool := by
  have hadvance : ∀ (start : Mount σ τ) (call : Call) (token : τ),
      start.pool.Calm (start.advance backend fetch call token).1.pool := by
    intro start call token
    unfold advance
    simp only
    split <;> exact Pool.calm_of_journal rfl rfl
  unfold drive
  split
  · exact .refl _
  · exact .refl _
  · exact hadvance ..
  · rename_i call _
    have hlaunched : mount.pool.Calm (mount.launch backend fetch call).1.pool :=
      Pool.calm_emit mount.pool rfl
    exact hlaunched.trans (hadvance ..)

theorem calm_pollWait (backend : Backend σ τ) (hs : mount.pool.Sound plans)
    (hr : ∀ id, (plans id).Ranged) {read : LiveRead} (hread : read ∈ mount.pool.live)
    {wait : Wait} (hw : wait ∈ read.waits) :
    mount.pool.Calm (pollWait backend read.id read.lease mount wait).pool := by
  have ht := hs.tracked read.id (hs.leased.known read hread)
  have hcall := ht.calls wait.page wait.fetch ((ht.reading read hread rfl).planned wait hw)
  have hdrive := calm_drive backend mount wait.fetch
  unfold pollWait
  rcases drive_cases backend mount hcall with ⟨outcome, _, hd⟩ | ⟨ho, base, storage, hb, h⟩
  · -- the outcome was there before
    rename_i ho
    simp only [hd, Pool.resolve_late hs hread wait ho]
    exact (Pool.calm_emit mount.pool rfl).trans (Pool.calm_of_journal rfl rfl)
  · rcases h with ⟨rest, hd⟩ | ⟨answer, hd⟩ <;> rw [hd] at hdrive <;> simp only [hd]
    · exact hdrive
    · have hresolve := Pool.calm_resolve (hb.sound hs) hr (hb.live ▸ hread) hw
        (hb.outcome?_eq ▸ ho)
      exact (hdrive.trans (hresolve _)).trans (Pool.calm_of_journal rfl rfl)

theorem calm_takeTurns (backend : Backend σ τ) (hr : ∀ id, (plans id).Ranged)
    (hs : mount.pool.Sound plans) (id : ReadId) (pages : List Nat) :
    mount.pool.Calm (pages.foldl (takeTurn backend id) mount).pool :=
  takeTurns_sound_induction (P := fun next => mount.pool.Calm next.pool) backend pages hs (.refl _)
    fun _ hmiddle _ _ hread _ hw _ hcalm => hcalm.trans (calm_pollWait backend hmiddle hr hread hw)

theorem calm_poll (backend : Backend σ τ) (hs : mount.pool.Steady plans)
    (hr : ∀ id, (plans id).Ranged) (id : ReadId) (turns : Turns) :
    mount.pool.Calm (mount.poll backend id turns).1.pool := by
  cases hl : mount.pool.live? id with
  | none =>
      simp only [poll, hl]
      exact .refl _
  | some read =>
      obtain ⟨hread, rfl⟩ := hs.sound.leased.live?_eq_some_iff.mp hl
      let pages := turns (read.waits.map (·.page))
      have hcalm := calm_takeTurns backend hr hs.sound read.id pages
      have hswept := swept_takeTurns backend pages hs.sound hread
      rw [poll_eq backend mount hl]
      simp only
      split
      · exact hcalm.trans (Pool.calm_endRead hswept.sound.leased read.id)
      · exact hcalm

theorem exists_calm_step (backend : Backend σ τ) (hs : mount.pool.Steady plans)
    (hr : ∀ id, (plans id).Ranged) (op : Op) :
    ∃ after, (mount.step backend op).1.pool.Steady after ∧ (∀ id, (after id).Ranged) ∧
      mount.pool.Calm (mount.step backend op).1.pool := by
  have hleased := hs.sound.leased
  cases op with
  | read file offset length turns =>
      by_cases hl : length = 0
      · refine ⟨plans, ?_, hr, ?_⟩ <;> simp only [step, read, hl, if_true]
        · exact hs
        · exact .refl _
      · by_cases hw : offset + length < wordLimit
        · have hpolls := polls_read backend hs file (Nat.pos_of_ne_zero hl) hw turns
          have hstarted := Pool.steady_startRead hs file offset (offset + length)
          have hplan : (mount.pool.plan file offset (offset + length)).Ranged :=
            ⟨Nat.le_add_right _ _, hw⟩
          have hafter : ∀ id, (Function.update plans mount.pool.gatherings.size
              (mount.pool.plan file offset (offset + length)) id).Ranged := by
            intro id
            by_cases he : id = mount.pool.gatherings.size
            · rw [he, Function.update_self]
              exact hplan
            · rw [Function.update_of_ne he]
              exact hr id
          refine ⟨_, hpolls.steady hstarted, hafter, ?_⟩
          let started : Mount σ τ :=
            { mount with pool := mount.pool.startRead file offset (offset + length) }
          have hpolled : started.pool.Calm
              (started.poll backend mount.pool.gatherings.size turns).1.pool :=
            calm_poll backend hstarted hafter _ turns
          simp only [step, read, hl, hw, if_false, if_true]
          exact (Pool.calm_startRead hs.sound hplan).trans hpolled
        · refine ⟨plans, ?_, hr, ?_⟩ <;> simp only [step, read, hl, hw, if_false]
          · exact hs
          · exact .refl _
  | poll id turns =>
      refine ⟨plans, ?_, hr, calm_poll backend hs hr id turns⟩
      cases hl : mount.pool.live? id with
      | none =>
          simp only [step, poll, hl]
          exact hs
      | some read =>
          obtain ⟨hread, rfl⟩ := hleased.live?_eq_some_iff.mp hl
          exact (polls_poll backend hs hread turns).steady hs
  | drop id =>
      exact ⟨plans, Pool.steady_endRead hs id, hr, Pool.calm_endRead hleased id⟩
  | invalidate file =>
      exact ⟨plans, hs.of_trims (Pool.trims_invalidate _ file), hr, Pool.calm_invalidate _ file⟩
  | revalidate file attributes =>
      exact ⟨plans, hs.of_trims (Pool.trims_revalidate _ file attributes), hr,
        Pool.calm_revalidate _ file attributes⟩
  | release file =>
      exact ⟨plans, hs.of_trims (Pool.trims_release hleased file), hr, Pool.calm_release _ file⟩
  | prune =>
      exact ⟨plans, hs.of_trims (Pool.trims_evict hleased), hr,
        Pool.calm_evict hs.sound.ordered hleased⟩

theorem calm_run (backend : Backend σ τ) (acts : List (Act σ)) (hs : mount.pool.Steady plans)
    (hr : ∀ id, (plans id).Ranged) : mount.pool.Calm (mount.run backend acts).pool := by
  induction acts generalizing mount plans with
  | nil => exact .refl _
  | cons act rest ih =>
      cases act with
      | change become =>
          have hchanged : ({ mount with storage := become mount.storage }).pool.Steady plans := hs
          exact ih hchanged hr
      | ask op =>
          obtain ⟨after, hafter, hranged, hcalm⟩ := exists_calm_step backend hs hr op
          exact hcalm.trans (ih hafter hranged)

-- Whatever the storage answers and whatever is asked, nothing that the cache relies on is ever
-- found broken: no page comes twice, no count is taken below zero, no read waits for a page
-- that is loaded, no slice starts before its page or leaves it, and neither a sum of offsets
-- nor the number of pages that a read creates leaves the 64-bit words. The number of pages that
-- a pass evicts does not as long as the counter that adds them up does not either.
theorem nothing_breached (backend : Backend σ τ) (limits : Limits) (storage : σ)
    (acts : List (Act σ)) (breach : Breach)
    (hc : breach = .evictedOverflow →
      (run backend (create limits storage) acts).pool.counters.evictions < wordLimit) :
    .breached breach ∉ (run backend (create limits storage) acts).pool.journal := by
  intro hm
  by_cases hb : breach = .pagesUnderflow
  · exact (accounted_run backend limits storage acts).sound (hb ▸ hm)
  · have hstart := steady_create (τ := τ) limits storage fun _ => ⟨0, 0, 0, [], 0⟩
    have hranged : Plan.Ranged ⟨0, 0, 0, [], 0⟩ := ⟨Nat.le_refl 0, by decide⟩
    have hcalm := calm_run backend acts hstart fun _ => hranged
    rcases hcalm.breached breach hb hm with hnone | ⟨he, hover⟩
    · exact List.not_mem_nil hnone
    · exact absurd (hc he) (Nat.not_lt.mpr hover)

-- A pass takes the pages on both sides of the one that the gate holds back.
theorem gated_nothing_breached :
    (gatedRun [.ask .prune]).pool.counters.evictions = 2 ∧
    ∀ breach, .breached breach ∉ (gatedRun [.ask .prune]).pool.journal := by
  have hevictions : (gatedRun [.ask .prune]).pool.counters.evictions = 2 := by decide
  refine ⟨hevictions, fun breach => ?_⟩
  refine nothing_breached Memory.backend fourByteLimits gatedStorage
    [.ask (.read 0 1 8 .all), .ask .prune] breach fun _ => ?_
  exact hevictions.trans_lt (by decide)

end Mount

end PageCache
