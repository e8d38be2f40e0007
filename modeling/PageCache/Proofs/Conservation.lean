import PageCache.Proofs.Balance
import PageCache.Proofs.Extents
import PageCache.Proofs.ReadOutcome

namespace PageCache

namespace Mount

variable {σ τ : Type}

-- Pages are looked up by reads that start, and by nothing else.
theorem lookups_act (backend : Backend σ τ) {mount : Mount σ τ} {plans : ReadId → Plan}
    (hs : mount.pool.Steady plans) (act : Act σ) :
    (mount.act backend act).1.pool.counters.lookups = mount.pool.counters.lookups +
      (act.extent?.map fun extent => (extent.span mount.pool.limits).length).getD 0 := by
  cases hextent : act.extent? with
  | some extent =>
      obtain ⟨turns, hact, _⟩ := act_of_extent backend mount hextent
      have hsound : (mount.opened extent).pool.Sound _ :=
        Pool.sound_startRead hs.sound extent.file extent.offset extent.stop
      have hlogs := (Pool.logs_startRead mount.pool extent.file extent.offset extent.stop).trans
        (logs_poll backend hsound mount.pool.gatherings.size turns)
      rw [hact, hlogs.lookups, List.append_nil, List.length_map]
      rfl
  | none =>
      by_cases hpoll : ∃ id turns, act = .ask (.poll id turns)
      · obtain ⟨id, turns, rfl⟩ := hpoll
        exact (logs_poll backend hs.sound id turns).lookups
      · have hother : ∀ id turns, act ≠ .ask (.poll id turns) :=
          fun id turns he => hpoll ⟨id, turns, he⟩
        exact (sheds_act backend mount hextent hother).1.lookups

theorem lookups_run (backend : Backend σ τ) (limits : Limits) (storage : σ)
    (acts : List (Act σ)) :
    (run backend (create limits storage) acts).pool.counters.lookups =
      ((acts.filterMap Act.extent?).map fun extent => (extent.span limits).length).sum := by
  induction acts using List.reverseRecOn with
  | nil => rfl
  | append_singleton earlier act ih =>
      obtain ⟨_, hs, hlimits⟩ := exists_steady backend limits storage earlier
      rw [run_append, List.filterMap_append, List.map_append, List.sum_append, ← ih]
      refine (lookups_act backend hs act).trans ?_
      rw [hlimits]
      cases hextent : act.extent? with
      | none => simp [hextent]
      | some extent => simp [hextent]

-- Every page that was ever created came with one fetch and one read of storage, which has begun
-- by the end of the act if reads take prompt turns when they start. The page is still held, or
-- it went in just one way: it was evicted, invalidated, given up when its fetch failed, or
-- dropped with its file when that was released, for eviction takes bare files only. Each page of
-- the span of a read is a hit, a miss or in flight when the read starts.
theorem counters_conserved (backend : Backend σ τ) (limits : Limits) (storage : σ)
    (acts : List (Act σ)) :
    let pool := (run backend (create limits storage) acts).pool
    let counters := pool.counters
    ((∀ act ∈ acts, act.Prompt) → counters.misses = counters.faults) ∧
    counters.faults = (issued backend (create limits storage) acts).length ∧
    counters.hits + counters.misses + counters.coalesced =
      ((acts.filterMap Act.extent?).map fun extent => (extent.span limits).length).sum ∧
    counters.misses = pool.pagesUsed + counters.evictions + counters.invalidations +
      counters.faultFailures + pool.pagesRemoved ∧
    ∀ other : Pool τ, other.evict.1.pagesRemoved = other.pagesRemoved := by
  intro pool counters
  have hbalanced := balanced_run backend limits storage acts
  have hfaults := (launches_run backend limits storage acts).2
  have hmisses (hp : ∀ act ∈ acts, act.Prompt) : counters.misses = counters.faults := by
    rw [hfaults, (issued_eq_calls backend limits storage hp).1, Pool.length_calls]
    exact hbalanced.fetches
  have hpages : counters.misses = pool.pagesUsed + counters.destroyed + pool.pagesRemoved :=
    hbalanced.pages
  refine ⟨hmisses, hfaults, lookups_run backend limits storage acts, ?_, Pool.pagesRemoved_evict⟩
  rw [hpages, Counters.destroyed]
  omega

-- The three pages of a read are fetched, the middle one of which is held back by the gate. When
-- the read is dropped the other two are invalidated.
def untilInvalidated : List (Act (Gates × Memory)) :=
  [.ask (.read 0 1 8 .all), .ask (.drop 0), .ask (.invalidate 0), .ask (.read 0 0 8 .all)]

abbrev gatedInvalidated : Mount (Gates × Memory) (Option GateId) :=
  run Memory.backend (create fourByteLimits gatedStorage) untilInvalidated

theorem gated_counters_conserved :
    (∀ act ∈ untilInvalidated, act.Prompt) ∧
    gatedInvalidated.pool.counters.misses =
      gatedInvalidated.pool.counters.faults ∧
    gatedInvalidated.pool.counters.faults = 4 ∧
    gatedInvalidated.pool.counters.invalidations = 2 := by
  have hp : ∀ act ∈ untilInvalidated, act.Prompt := by
    simp only [untilInvalidated, List.forall_mem_cons]
    exact ⟨Turns.prompt_all, trivial, trivial, Turns.prompt_all, fun _ hm => nomatch hm⟩
  obtain ⟨hmisses, _⟩ :=
    counters_conserved Memory.backend fourByteLimits gatedStorage untilInvalidated
  exact ⟨hp, hmisses hp, by decide, by decide⟩

end Mount

end PageCache
