import PageCache.Proofs.Joining

namespace PageCache

namespace Pool

variable {τ : Type}

-- The reads in progress and what they hold.
def leases (pool : Pool τ) : List (ReadId × Lease) :=
  pool.live.map fun read => (read.id, read.lease)

-- No fetch changes that was there before, and no read in progress does but in what it
-- waits for.
structure Keeps (pool kept : Pool τ) : Prop where
  limits : kept.limits = pool.limits
  calls : ∀ fetch call, pool.call? fetch = some call → kept.call? fetch = some call
  outcome? : kept.outcome? = pool.outcome?
  failures : kept.failures = pool.failures
  leases : kept.leases = pool.leases

theorem Keeps.refl (pool : Pool τ) : pool.Keeps pool :=
  ⟨rfl, fun _ _ h => h, rfl, rfl, rfl⟩

theorem Keeps.trans {pool middle kept : Pool τ} (h : pool.Keeps middle)
    (hk : middle.Keeps kept) : pool.Keeps kept where
  limits := hk.limits.trans h.limits
  calls fetch call hc := hk.calls fetch call (h.calls fetch call hc)
  outcome? := hk.outcome?.trans h.outcome?
  failures := hk.failures.trans h.failures
  leases := hk.leases.trans h.leases

theorem Trims.keeps {pool trimmed : Pool τ} (h : pool.Trims trimmed) : pool.Keeps trimmed where
  limits := h.limits
  calls _ _ hc := h.call?_eq ▸ hc
  outcome? := h.outcome?_eq
  failures := h.failures
  leases := congrArg (List.map _) h.live

theorem Delivers.keeps {pool delivered : Pool τ} {ids : List ReadId}
    {change : Gathering → Gathering} (h : pool.Delivers delivered ids change) :
    pool.Keeps delivered where
  limits := h.limits
  calls _ _ hc := h.alike.call? ▸ hc
  outcome? := h.alike.outcome?
  failures := h.failures
  leases := congrArg (List.map _) h.live

theorem keeps_createPage (pool : Pool τ) (file : FileId) (page : Nat) :
    pool.Keeps (pool.createPage file page) where
  limits := rfl
  calls _ _ hc := calls_createPage pool file page hc
  outcome? := outcome?_createPage pool file page
  failures := failures_createPage pool file page
  leases := rfl

theorem leases_modifyLive (pool : Pool τ) (id : ReadId) {change : LiveRead → LiveRead}
    (hi : ∀ read, (change read).id = read.id)
    (hl : ∀ read, (change read).lease = read.lease) :
    (pool.modifyLive id change).leases = pool.leases := by
  simp only [leases, modifyLive, List.map_map]
  apply List.map_congr_left
  intro read _
  simp only [Function.comp_apply]
  split <;> simp only [hi, hl]

theorem keeps_join (pool : Pool τ) (id : ReadId) (lease : Lease) (wait : Wait) :
    pool.Keeps (pool.join id lease wait) := by
  obtain ⟨hlimits, _, hfailures, _, _, hlive⟩ := join_frame pool id lease wait
  refine ⟨hlimits, fun fetch call hc => call?_join pool id lease wait ▸ hc,
    outcome?_join pool id lease wait, hfailures, ?_⟩
  exact (congrArg (List.map _) hlive).trans
    (leases_modifyLive pool id (fun _ => rfl) fun _ => rfl)

-- As time goes on there are more fetches, outcomes and reads, and none of them changes.
structure Later (pool later : Pool τ) : Prop where
  limits : later.limits = pool.limits
  calls : ∀ fetch call, pool.call? fetch = some call → later.call? fetch = some call
  outcomes : ∀ fetch outcome, pool.outcome? fetch = some outcome →
    later.outcome? fetch = some outcome
  failures : pool.failures <+: later.failures
  size : pool.gatherings.size ≤ later.gatherings.size

theorem Later.refl (pool : Pool τ) : pool.Later pool :=
  ⟨rfl, fun _ _ h => h, fun _ _ h => h, List.prefix_refl _, Nat.le_refl _⟩

theorem Later.trans {pool middle later : Pool τ} (h : pool.Later middle)
    (hl : middle.Later later) : pool.Later later where
  limits := hl.limits.trans h.limits
  calls fetch call hc := hl.calls fetch call (h.calls fetch call hc)
  outcomes fetch outcome ho := hl.outcomes fetch outcome (h.outcomes fetch outcome ho)
  failures := h.failures.trans hl.failures
  size := h.size.trans hl.size

theorem Keeps.later {pool kept : Pool τ} (h : pool.Keeps kept)
    (hs : pool.gatherings.size ≤ kept.gatherings.size) : pool.Later kept where
  limits := h.limits
  calls := h.calls
  outcomes _ _ ho := h.outcome? ▸ ho
  failures := h.failures ▸ List.prefix_refl _
  size := hs

theorem Trims.later {pool trimmed : Pool τ} (h : pool.Trims trimmed) : pool.Later trimmed :=
  h.keeps.later (h.gatherings ▸ Nat.le_refl _)

theorem Alike.later {pool other : Pool τ} (h : pool.Alike other)
    (hs : pool.gatherings.size ≤ other.gatherings.size) : pool.Later other where
  limits := h.limits
  calls _ _ hc := h.call? ▸ hc
  outcomes _ _ ho := h.outcome? ▸ ho
  failures := h.failures ▸ List.prefix_refl _
  size := hs

theorem Settles.later {pool settled : Pool τ} {file : FileId} {page : Nat} {fetch : FetchId}
    {waiters : List ReadId} {outcome : Outcome}
    (h : pool.Settles settled file page fetch waiters outcome) : pool.Later settled where
  limits := h.limits
  calls _ _ hc := h.call? ▸ hc
  outcomes found result ho := by
    rw [h.completes.others found, ho]
    rintro rfl
    rw [h.completes.incomplete] at ho
    cases ho
  failures := h.failures ▸ List.prefix_append _ _
  size := h.size ▸ Nat.le_refl _

end Pool

end PageCache
