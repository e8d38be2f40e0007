import PageCache.Proofs.Opening
import PageCache.Proofs.Polling

namespace PageCache

-- Events that come with no change of a cached file.
def Event.isAside : Event → Bool
  | .pageJoined _ _ _ | .pageHit _ _ _ | .fetchStarted _ _ _ | .fetchOutdated _ _ _ => true
  | .breached breach => breach != .pagesUnderflow
  | _ => false

-- The pages that have been destroyed in any way but with their file.
def Counters.destroyed (counters : Counters) : Nat :=
  counters.evictions + counters.invalidations + counters.faultFailures

theorem Counters.count_aside (counters : Counters) {event : Event} (h : event.isAside = true) :
    (counters.count event).misses = counters.misses ∧
      (counters.count event).destroyed = counters.destroyed := by
  cases event with
  | pageJoined => exact ⟨rfl, rfl⟩
  | pageHit => exact ⟨rfl, rfl⟩
  | fetchStarted => exact ⟨rfl, rfl⟩
  | fetchOutdated => exact ⟨rfl, rfl⟩
  | breached => exact ⟨rfl, rfl⟩
  | _ => cases h

theorem Counters.pages_count (counters : Counters) (event : Event) :
    (counters.count event).pages = counters.pages := by
  cases event <;> rfl

namespace Pool

variable {τ : Type}

-- Reads and fetches go on, and the files stay as they are.
structure Aside (pool next : Pool τ) : Prop where
  limits : next.limits = pool.limits
  files : next.files = pool.files
  serials : next.serials = pool.serials
  used : next.pagesUsed = pool.pagesUsed
  gauge : next.counters.pages = pool.counters.pages
  misses : next.counters.misses = pool.counters.misses
  destroyed : next.counters.destroyed = pool.counters.destroyed
  calls : next.call? = pool.call?
  outcomes : ∀ fetch outcome, pool.outcome? fetch = some outcome →
    next.outcome? fetch = some outcome
  journal : ∃ events, next.journal = events ++ pool.journal ∧ ∀ event ∈ events, event.isAside

theorem Aside.refl (pool : Pool τ) : pool.Aside pool :=
  ⟨rfl, rfl, rfl, rfl, rfl, rfl, rfl, rfl, fun _ _ h => h, [], rfl,
    fun _ h => (List.not_mem_nil h).elim⟩

theorem Aside.trans {pool middle next : Pool τ} (h : pool.Aside middle)
    (hn : middle.Aside next) : pool.Aside next where
  limits := hn.limits.trans h.limits
  files := hn.files.trans h.files
  serials := hn.serials.trans h.serials
  used := hn.used.trans h.used
  gauge := hn.gauge.trans h.gauge
  misses := hn.misses.trans h.misses
  destroyed := hn.destroyed.trans h.destroyed
  calls := hn.calls.trans h.calls
  outcomes fetch outcome ho := hn.outcomes fetch outcome (h.outcomes fetch outcome ho)
  journal := by
    obtain ⟨events, he, ha⟩ := h.journal
    obtain ⟨more, hm, hmore⟩ := hn.journal
    refine ⟨more ++ events, by rw [hm, he, List.append_assoc], fun event hevent => ?_⟩
    rcases List.mem_append.mp hevent with hevent | hevent
    · exact hmore event hevent
    · exact ha event hevent

-- A change of what reads have gathered or wait for.
theorem Aside.of_eq {pool next : Pool τ} (hl : next.limits = pool.limits)
    (hf : next.files = pool.files) (hn : next.serials = pool.serials)
    (hu : next.pagesUsed = pool.pagesUsed) (hc : next.counters = pool.counters)
    (hx : next.fetches = pool.fetches) (hj : next.journal = pool.journal) : pool.Aside next where
  limits := hl
  files := hf
  serials := hn
  used := hu
  gauge := hc ▸ rfl
  misses := hc ▸ rfl
  destroyed := hc ▸ rfl
  calls := by
    funext fetch
    rw [call?, call?, hx]
  outcomes fetch outcome ho := by
    rwa [outcome?, hx]
  journal := ⟨[], hj, fun _ h => (List.not_mem_nil h).elim⟩

theorem aside_emit (pool : Pool τ) {event : Event} (h : event.isAside = true) :
    pool.Aside (pool.emit event) where
  limits := rfl
  files := rfl
  serials := rfl
  used := rfl
  gauge := Counters.pages_count _ _
  misses := (pool.counters.count_aside h).1
  destroyed := (pool.counters.count_aside h).2
  calls := rfl
  outcomes _ _ ho := ho
  journal := ⟨[event], rfl, fun _ he => List.mem_singleton.mp he ▸ h⟩

theorem aside_require (pool : Pool τ) (holds : Bool) {breach : Breach}
    (h : breach ≠ .pagesUnderflow) : pool.Aside (pool.require holds breach) := by
  cases holds with
  | true => exact .refl pool
  | false => exact aside_emit pool (bne_iff_ne.mpr h)

theorem aside_addPage (pool : Pool τ) (id : ReadId) (page : Nat) (data : Bytes) :
    pool.Aside (pool.addPage id page data) :=
  ((aside_require pool _ (by decide)).trans (aside_require _ _ (by decide))).trans
    (.of_eq rfl rfl rfl rfl rfl rfl rfl)

theorem aside_spoil (pool : Pool τ) (id : ReadId) (error : Error) :
    pool.Aside (pool.spoil id error) := .of_eq rfl rfl rfl rfl rfl rfl rfl

theorem aside_arrive (pool : Pool τ) (id : ReadId) : pool.Aside (pool.arrive id) :=
  ((aside_require pool _ (by decide)).trans (aside_require _ _ (by decide))).trans
    (.of_eq rfl rfl rfl rfl rfl rfl rfl)

theorem aside_foldl {act : Pool τ → ReadId → Pool τ} (h : ∀ pool id, Aside pool (act pool id))
    (ids : List ReadId) (pool : Pool τ) : pool.Aside (ids.foldl act pool) := by
  induction ids generalizing pool with
  | nil => exact .refl pool
  | cons id rest ih => exact (h pool id).trans (ih _)

theorem aside_withPhase {pool : Pool τ} {fetch : FetchId} (phase : Phase τ)
    (h : pool.outcome? fetch = none) : pool.Aside (pool.withPhase fetch phase) where
  limits := rfl
  files := rfl
  serials := rfl
  used := rfl
  gauge := rfl
  misses := rfl
  destroyed := rfl
  calls := call?_withPhase pool fetch phase
  outcomes other outcome ho := by
    have hne : fetch ≠ other := by
      rintro rfl
      rw [h] at ho
      cases ho
    rwa [outcome?_withPhase, if_neg hne]
  journal := ⟨[], rfl, fun _ he => (List.not_mem_nil he).elim⟩

end Pool

namespace Mount

variable {σ τ : Type}

-- A fetch that is driven goes on, and if it gives its outcome it has it from then on.
theorem aside_drive (backend : Backend σ τ) (mount : Mount σ τ) (fetch : FetchId) :
    mount.pool.Aside (mount.drive backend fetch).1.pool ∧
      ∀ outcome, (mount.drive backend fetch).2 = some outcome →
        (mount.drive backend fetch).1.pool.outcome? fetch = some outcome := by
  have hadvance : ∀ (start : Mount σ τ) (call : Call) (token : τ),
      start.pool.call? fetch = some call → start.pool.outcome? fetch = none →
      start.pool.Aside (start.advance backend fetch call token).1.pool ∧
        ∀ outcome, (start.advance backend fetch call token).2 = some outcome →
          (start.advance backend fetch call token).1.pool.outcome? fetch = some outcome := by
    intro start call token hc ho
    rcases start.advance_cases backend fetch call token with ⟨rest, _, h⟩ | ⟨answer, _, h⟩
    · rw [h]
      exact ⟨Pool.aside_withPhase _ ho, fun _ he => nomatch he⟩
    · rw [h]
      refine ⟨Pool.aside_withPhase _ ho, fun outcome he => ?_⟩
      cases he
      exact (Pool.completes_withPhase _ hc ho).complete
  unfold drive
  split
  · exact ⟨.refl _, fun _ he => nomatch he⟩
  · rename_i call found hf
    refine ⟨.refl _, fun outcome he => ?_⟩
    cases he
    simp [Pool.outcome?, hf, Phase.outcome?]
  · rename_i call token hf
    exact hadvance mount call token (by simp [Pool.call?, hf])
      (by simp [Pool.outcome?, hf, Phase.outcome?])
  · rename_i call hf
    obtain ⟨ha, ho⟩ := hadvance (mount.launch backend fetch call).1 call
      (mount.launch backend fetch call).2 (by simp [Pool.call?, hf, launch, Pool.emit])
      (by simp [Pool.outcome?, hf, launch, Pool.emit, Phase.outcome?])
    exact ⟨(Pool.aside_emit mount.pool rfl).trans ha, ho⟩

end Mount

end PageCache
