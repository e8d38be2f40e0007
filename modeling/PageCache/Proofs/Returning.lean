import PageCache.Proofs.Opening
import PageCache.Proofs.Polling

namespace PageCache

namespace Pool

variable {τ : Type}

theorem leases_endRead (pool : Pool τ) (id : ReadId) :
    (pool.endRead id).leases = pool.leases.filter (·.1 != id) := by
  rw [leases, (endRead_frame pool id).2.2.2.2, leases, List.filter_map]
  rfl

theorem call?_endRead (pool : Pool τ) (id : ReadId) : (pool.endRead id).call? = pool.call? := by
  funext fetch
  rw [call?, call?, (endRead_frame pool id).2.1]

theorem outcome?_endRead (pool : Pool τ) (id : ReadId) :
    (pool.endRead id).outcome? = pool.outcome? := by
  funext fetch
  rw [outcome?, outcome?, (endRead_frame pool id).2.1]

theorem later_endRead (pool : Pool τ) (id : ReadId) : pool.Later (pool.endRead id) := by
  obtain ⟨hlimits, _, hfailures, hgather, _⟩ := endRead_frame pool id
  exact ⟨hlimits, fun _ _ hc => call?_endRead pool id ▸ hc,
    fun _ _ ho => outcome?_endRead pool id ▸ ho, hfailures ▸ List.prefix_refl _,
    hgather ▸ Nat.le_refl _⟩

-- Between steps nothing is being started: no read has the hold.
structure Steady (pool : Pool τ) (plans : ReadId → Plan) : Prop where
  sound : pool.Sound plans
  released : ∀ id < pool.gatherings.size, (plans id).hold = 0

-- A read that has seen all its fetches gets what its plan says.
theorem Steady.result {pool : Pool τ} {plans : ReadId → Plan} (h : pool.Steady plans)
    {id : ReadId} (hid : id < pool.gatherings.size)
    (hd : ∀ fetch ∈ (plans id).fetches, pool.outcome? fetch ≠ none) :
    pool.result id = (plans id).outcome pool.outcome? pool.failures := by
  rw [Pool.result, (h.sound.tracked id hid).gathering, Option.bind_some,
    (Plan.result_gathering (h.released id hid) _ _ _).mpr ⟨hd, rfl⟩]
  rfl

end Pool

namespace Mount

variable {σ τ : Type}

theorem poll_eq (backend : Backend σ τ) (mount : Mount σ τ) {read : LiveRead}
    (hl : mount.pool.live? read.id = some read) (turns : Turns) :
    mount.poll backend read.id turns =
      let polled := (turns (read.waits.map (·.page))).foldl (takeTurn backend read.id) mount
      if (polled.pool.live? read.id).all (·.waits.isEmpty) then
        ({ polled with pool := polled.pool.endRead read.id },
          .returned (polled.pool.result read.id))
      else (polled, .pending read.id) := by
  unfold poll
  rw [hl]

-- A poll of a read in progress: either it has yet to see some of its fetches, or the read
-- returns. If each of them has had a turn, those that it has yet to see are incomplete.
structure Polls (mount polled : Mount σ τ) (plans : ReadId → Plan) (id : ReadId)
    (turns : Turns) (answer : Answer) : Prop where
  sound : polled.pool.Sound plans
  later : mount.pool.Later polled.pool
  size : polled.pool.gatherings.size = mount.pool.gatherings.size
  answer :
    answer = .pending id ∧ polled.pool.leases = mount.pool.leases ∧
      (turns.Thorough → ∃ fetch ∈ (plans id).fetches, polled.pool.outcome? fetch = none) ∨
    answer = .returned ((plans id).outcome polled.pool.outcome? polled.pool.failures) ∧
      polled.pool.leases = mount.pool.leases.filter (·.1 != id) ∧
      (∀ fetch ∈ (plans id).fetches, polled.pool.outcome? fetch ≠ none)

theorem polls_poll (backend : Backend σ τ) {mount : Mount σ τ} {plans : ReadId → Plan}
    (hs : mount.pool.Steady plans) {read : LiveRead} (hr : read ∈ mount.pool.live)
    (turns : Turns) :
    mount.Polls (mount.poll backend read.id turns).1 plans read.id turns
      (mount.poll backend read.id turns).2 := by
  have hl := hs.sound.leased.live?_eq_some_iff.mpr ⟨hr, rfl⟩
  have hswept := swept_takeTurns backend (turns (read.waits.map (·.page))) hs.sound hr
  rw [poll_eq backend mount hl]
  generalize (turns (read.waits.map (·.page))).foldl (takeTurn backend read.id) mount = polled
    at hswept
  obtain ⟨left, hleft, hid, _, hwaits, _⟩ := hswept.left
  have hknown : read.id < polled.pool.gatherings.size := by
    rw [hswept.size]
    exact hs.sound.leased.known read hr
  have hreads := (hswept.sound.tracked read.id hknown).reading left hleft hid
  have hlive := hswept.sound.leased.live?_eq_some_iff.mpr ⟨hleft, hid⟩
  simp only [hlive, Option.all_some]
  split
  · rename_i hempty
    have hnil : left.waits = [] := List.isEmpty_iff.mp hempty
    have hdone : ∀ fetch ∈ (plans read.id).fetches, polled.pool.outcome? fetch ≠ none := by
      intro fetch hm ho
      obtain ⟨page, hpart⟩ := Plan.mem_fetches.mp hm
      have hw := (hreads.unseen page fetch hpart ho).1
      rw [hnil] at hw
      cases hw
    have hsteady : polled.pool.Steady plans := by
      refine ⟨hswept.sound, ?_⟩
      rw [hswept.size]
      exact hs.released
    refine ⟨Pool.sound_endRead hswept.sound read.id,
      hswept.later.trans (Pool.later_endRead _ _), ?_, .inr ⟨?_, ?_, ?_⟩⟩
    · rw [(Pool.endRead_frame ..).2.2.2.1]
      exact hswept.size
    · rw [Pool.outcome?_endRead, (Pool.endRead_frame ..).2.2.1, hsteady.result hknown hdone]
    · rw [Pool.leases_endRead, hswept.leases]
    · rw [Pool.outcome?_endRead]
      exact hdone
  · rename_i hempty
    refine ⟨hswept.sound, hswept.later, hswept.size, .inl ⟨rfl, hswept.leases, fun ht => ?_⟩⟩
    cases hw : left.waits with
    | nil =>
        rw [hw] at hempty
        exact absurd rfl hempty
    | cons wait rest =>
        have hm : wait ∈ left.waits := hw ▸ List.mem_cons_self
        obtain ⟨hread, hnone⟩ := hwaits wait hm
        exact ⟨wait.fetch, Plan.mem_fetches.mpr ⟨wait.page, hreads.planned wait hm⟩,
          hnone (ht _ (List.mem_map_of_mem hread))⟩

end Mount

end PageCache
