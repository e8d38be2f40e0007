import PageCache.Proofs.Running

namespace PageCache

-- The reads of storage that a cache starts: whole pages.
def Limits.Asks (limits : Limits) (call : Call) : Prop :=
  call.length = limits.pageSize ∧ limits.pageSize ∣ call.offset

namespace Pool

variable {τ : Type}

theorem fetches_foldl {act : Pool τ → ReadId → Pool τ}
    (h : ∀ pool id, (act pool id).fetches = pool.fetches) (ids : List ReadId) (pool : Pool τ) :
    (ids.foldl act pool).fetches = pool.fetches := by
  induction ids generalizing pool with
  | nil => rfl
  | cons id rest ih => exact (ih _).trans (h pool id)

theorem fetches_resolve (pool : Pool τ) (lease : Lease) (wait : Wait) (outcome : Outcome) :
    (pool.resolve lease wait outcome).fetches = pool.fetches := by
  have hstale : ∀ (pool : Pool τ) (file : FileId) (keep : Nat),
      (pool.dropStale file keep).fetches = pool.fetches :=
    fun pool file keep => (trims_dropStale pool file keep).fetches
  unfold resolve
  split
  · split
    · cases outcome with
      | ok answer =>
          refine (fetches_foldl (fun pool id => ?_) _ _).trans ?_
          · rw [(delivers_arrive _ id).fetches, (delivers_addPage pool id _ _).fetches]
          · simp only [emit]
            split
            · exact hstale _ _ _
            · rfl
      | error error =>
          refine (fetches_foldl (fun pool id => ?_) _ _).trans ?_
          · rw [(delivers_arrive _ id).fetches]
            rfl
          · exact (trims_shrink _ _).fetches
    · rfl
  · rfl

end Pool

namespace Mount

variable {σ τ : Type}

-- What holds of storage and of the fetches holds for good if it is not lost when the page of a
-- new fetch is created and when a fetch is driven.
structure Stable (backend : Backend σ τ) (limits : Limits)
    (holds : σ → Array (Fetch τ) → Prop) : Prop where
  create : ∀ storage fetches call, limits.Asks call → holds storage fetches →
    holds storage (fetches.push ⟨call, .idle⟩)
  drive : ∀ (mount : Mount σ τ) fetch, holds mount.storage mount.pool.fetches →
    holds (mount.drive backend fetch).1.storage (mount.drive backend fetch).1.pool.fetches

-- What storage does by itself can be at odds with it.
def Leaves (holds : σ → Array (Fetch τ) → Prop) : Act σ → Prop
  | .ask _ => True
  | .change become => ∀ storage fetches, holds storage fetches → holds (become storage) fetches

namespace Stable

variable {backend : Backend σ τ} {limits : Limits} {holds : σ → Array (Fetch τ) → Prop}
  {mount : Mount σ τ} {plans : ReadId → Plan}

theorem lookup (h : Stable backend limits holds) {storage : σ} {pool : Pool τ}
    (hl : pool.limits = limits) (id : ReadId) (lease : Lease) {page : Nat}
    (hp : limits.pageSize ∣ page) (hm : holds storage pool.fetches) :
    holds storage (pool.lookup id lease page).fetches := by
  unfold Pool.lookup
  split
  · rwa [(Pool.delivers_addPage ..).fetches]
  · simp only [Pool.emit]
    rwa [(Pool.join_frame ..).2.1]
  · rw [(Pool.join_frame ..).2.1]
    exact h.create storage pool.fetches _ ⟨congrArg Limits.pageSize hl, hp⟩ hm

theorem lookups (h : Stable backend limits holds) {storage : σ} {pool : Pool τ}
    (hl : pool.limits = limits) (id : ReadId) (lease : Lease) {pages : List Nat}
    (hp : ∀ page ∈ pages, limits.pageSize ∣ page) (hm : holds storage pool.fetches) :
    holds storage (pages.foldl (Pool.lookup id lease) pool).fetches := by
  induction pages generalizing pool with
  | nil => exact hm
  | cons page rest ih =>
      rw [List.forall_mem_cons] at hp
      have hlimits := (Pool.keeps_lookup id lease pool page).limits.trans hl
      exact ih hlimits hp.2 (h.lookup hl id lease hp.1 hm)

theorem startRead (h : Stable backend limits holds) {storage : σ} {pool : Pool τ}
    (hl : pool.limits = limits) (hs : pool.Sound plans) (file : FileId) (offset stop : Nat)
    (hm : holds storage pool.fetches) :
    holds storage (pool.startRead file offset stop).fetches := by
  obtain ⟨kept, htrims, he⟩ := Pool.exists_trims_startRead hs file offset stop
  rw [he, (Pool.delivers_arrive kept _).fetches, htrims.fetches, Pool.lookupSpan_eq,
    Pool.fetches_require]
  refine h.lookups ((Pool.alike_registered ..).limits.trans hl) _ _ (fun page hp => ?_) ?_
  · rw [← hl]
    exact pool.limits.pageSize_dvd_of_mem_span hp
  · have hfetches : (pool.registered file offset stop).fetches = pool.fetches :=
      (Pool.enter_frame pool file).2.1
    rwa [hfetches]

theorem pollWait (h : Stable backend limits holds) (id : ReadId) (lease : Lease) (wait : Wait)
    (hm : holds mount.storage mount.pool.fetches) :
    holds (Mount.pollWait backend id lease mount wait).storage
      (Mount.pollWait backend id lease mount wait).pool.fetches := by
  have hdriven := h.drive mount wait.fetch hm
  unfold Mount.pollWait
  simp only
  split
  · exact hdriven
  · rename_i outcome _
    have hfetches := Pool.fetches_resolve (mount.drive backend wait.fetch).1.pool lease wait outcome
    simp only [Pool.observe, Pool.modifyLive, hfetches]
    exact hdriven

theorem poll (h : Stable backend limits holds) (id : ReadId) (turns : Turns)
    (hm : holds mount.storage mount.pool.fetches) :
    holds (mount.poll backend id turns).1.storage (mount.poll backend id turns).1.pool.fetches := by
  have hturns : ∀ pages : List Nat,
      holds (pages.foldl (takeTurn backend id) mount).storage
        (pages.foldl (takeTurn backend id) mount).pool.fetches := fun pages =>
    takeTurns_induction (P := fun next => holds next.storage next.pool.fetches) backend pages hm
      fun _ read _ wait _ _ hp => h.pollWait read.id read.lease wait hp
  unfold Mount.poll
  split
  · exact hm
  · rename_i read _
    have hpolled := hturns (turns (read.waits.map (·.page)))
    simp only
    split
    · rwa [(Pool.endRead_frame ..).2.1]
    · exact hpolled

theorem read (h : Stable backend limits holds) (hl : mount.pool.limits = limits)
    (hs : mount.pool.Sound plans) (file : FileId) (offset length : Nat) (turns : Turns)
    (hm : holds mount.storage mount.pool.fetches) :
    holds (mount.read backend file offset length turns).1.storage
      (mount.read backend file offset length turns).1.pool.fetches := by
  unfold Mount.read
  split
  · exact hm
  · split
    · exact h.poll _ turns (h.startRead hl hs file offset (offset + length) hm)
    · exact hm

theorem step (h : Stable backend limits holds) (hl : mount.pool.limits = limits)
    (hs : mount.pool.Sound plans) (op : Op) (hm : holds mount.storage mount.pool.fetches) :
    holds (mount.step backend op).1.storage (mount.step backend op).1.pool.fetches := by
  have hsame : ∀ fetches : Array (Fetch τ), fetches = mount.pool.fetches →
      holds mount.storage fetches := fun fetches he => he ▸ hm
  cases op with
  | read file offset length turns => exact h.read hl hs file offset length turns hm
  | poll id turns => exact h.poll id turns hm
  | drop id => exact hsame _ (Pool.endRead_frame mount.pool id).2.1
  | invalidate file => exact hsame _ (Pool.trims_invalidate mount.pool file).fetches
  | revalidate file attributes =>
      exact hsame _ (Pool.trims_revalidate mount.pool file attributes).fetches
  | release file => exact hsame _ (Pool.trims_release hs.leased file).fetches
  | prune => exact hsame _ (Pool.trims_evict hs.leased).fetches

theorem run (h : Stable backend limits holds) (acts : List (Act σ))
    (hl : mount.pool.limits = limits) (hs : mount.pool.Steady plans)
    (ha : ∀ act ∈ acts, Leaves holds act) (hm : holds mount.storage mount.pool.fetches) :
    holds (mount.run backend acts).storage (mount.run backend acts).pool.fetches := by
  induction acts generalizing mount plans with
  | nil => exact hm
  | cons act rest ih =>
      rw [List.forall_mem_cons] at ha
      obtain ⟨after, hstep⟩ := exists_steps_act backend hs act
      refine ih (hstep.later.limits.trans hl) hstep.steady ha.2 ?_
      cases act with
      | ask op => exact h.step hl hs.sound op hm
      | change become => exact ha.1 mount.storage mount.pool.fetches hm

end Stable

end Mount

end PageCache
