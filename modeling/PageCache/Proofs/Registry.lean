import PageCache.Proofs.Accounting
import PageCache.Proofs.Extents
import PageCache.Proofs.FaultResolution

namespace PageCache

namespace Mount

variable {σ τ : Type} {backend : Backend σ τ} {mount : Mount σ τ} {sighting : Sighting σ τ}

section Preserve

variable {P : Pool τ → Prop}

theorem sweepSightings_preserve
    (hm : ∀ op pool next, Pool.Move op pool next → pool.Ordered → P pool → P next)
    {id : ReadId} {pages : List Nat} (ho : mount.pool.Ordered) (hp : P mount.pool)
    (h : sighting ∈ mount.sweepSightings backend id pages) : P sighting.mount.pool := by
  induction pages generalizing mount with
  | nil => cases h
  | cons page rest ih =>
      rcases List.mem_append.mp h with h | h
      · rcases turn_cases backend mount id page with ⟨_, hnone⟩ | ⟨_, _, _, _, _, hseen⟩
        · rw [hnone] at h
          cases h
        · rw [hseen] at h
          obtain ⟨outcome, _, rfl⟩ := List.mem_map.mp h
          exact hp
      · obtain ⟨ho, hp⟩ := (moves_takeTurns backend id [page] mount .prune).preserve
          (hm .prune) ho hp
        exact ih ho hp h

theorem pollSightings_preserve
    (hm : ∀ op pool next, Pool.Move op pool next → pool.Ordered → P pool → P next) {id : ReadId}
    {turns : Turns} (ho : mount.pool.Ordered) (hp : P mount.pool)
    (h : sighting ∈ mount.pollSightings backend id turns) : P sighting.mount.pool := by
  unfold pollSightings at h
  split at h
  · cases h
  · exact sweepSightings_preserve hm ho hp h

theorem actSightings_preserve
    (hm : ∀ op pool next, Pool.Move op pool next → pool.Ordered → P pool → P next) {act : Act σ}
    (ho : mount.pool.Ordered) (hp : P mount.pool)
    (h : sighting ∈ mount.actSightings backend act) : P sighting.mount.pool := by
  cases hextent : act.extent? with
  | some extent =>
      obtain ⟨turns, _, hsights⟩ := act_of_extent backend mount hextent
      rw [hsights] at h
      obtain ⟨file, offset, length, _, _, _, _, rfl⟩ := Act.exists_read_of_extent hextent
      have hmoves := Pool.moves_startRead mount.pool file offset length turns
      have hopened := hmoves.preserve (hm _) ho hp
      exact pollSightings_preserve hm hopened.1 hopened.2 h
  | none =>
      by_cases hpoll : ∃ id turns, act = .ask (.poll id turns)
      · obtain ⟨id, turns, rfl⟩ := hpoll
        change sighting ∈ mount.pollSightings backend id turns at h
        exact pollSightings_preserve hm ho hp h
      · push Not at hpoll
        rw [(sheds_act backend mount hextent hpoll).2] at h
        cases h

-- What every move preserves also holds in the midst of a poll, when a read sees an outcome.
theorem sightings_preserve
    (hm : ∀ op pool next, Pool.Move op pool next → pool.Ordered → P pool → P next)
    {acts : List (Act σ)} (ho : mount.pool.Ordered) (hp : P mount.pool)
    (h : sighting ∈ mount.sightings backend acts) : P sighting.mount.pool := by
  induction acts generalizing mount with
  | nil => cases h
  | cons act rest ih =>
      have hnext : (mount.act backend act).1.pool.Ordered ∧ P (mount.act backend act).1.pool := by
        cases act with
        | change become => exact ⟨ho, hp⟩
        | ask op => exact (moves_step backend mount op).preserve (hm op) ho hp
      rcases List.mem_append.mp h with h | h
      · exact actSightings_preserve hm ho hp h
      · exact ih hnext.1 hnext.2 h

end Preserve

end Mount

-- The table has each file once, listed under its latest stamp, and all stamps have been handed
-- out. A file counts the reads in progress that hold it, and each of them holds the file that
-- the table has. No other pages are accounted for than those of the files in the table.
structure Pool.Registered {τ : Type} (pool : Pool τ) : Prop where
  once : (pool.files.slots.map (·.key)).Nodup
  listed : pool.files.order.Perm (pool.files.slots.map fun slot => (slot.stamp, slot.key))
  distinct : (pool.files.order.map (·.1)).Nodup
  bounded : ∀ stamp file, (stamp, file) ∈ pool.files.order → stamp < pool.files.next
  readers : ∀ file cached, pool.files.find? file = some cached →
    cached.readers = (pool.live.filter (·.lease.file == file)).length
  holds : ∀ read ∈ pool.live, pool.Holds read.lease
  used : pool.pagesUsed = pool.pagesHeld

theorem Pool.Sound.registered {τ : Type} {pool : Pool τ} {plans : ReadId → Plan}
    (h : pool.Sound plans) (ha : pool.Accounted) : pool.Registered where
  once := h.ordered.files.keys
  listed := h.ordered.files.order
  distinct := (List.pairwise_map.mpr h.ordered.files.sorted).imp Nat.ne_of_lt
  bounded _ _ hm := h.ordered.files.bounded _ hm
  readers file cached hf := by
    rw [h.leased.readers file cached hf, List.countP_eq_length_filter]
  holds := h.leased.current
  used := ha.used

-- A read that sees an outcome holds its file, and still does when it has made something of it.
theorem Sighting.Fits.holds_next {σ τ : Type} {backend : Backend σ τ} {pool : Pool τ}
    {plans : ReadId → Plan} {earlier : List (Sighting σ τ)} {sighting : Sighting σ τ}
    (h : sighting.Fits backend pool plans earlier) :
    (sighting.next backend).pool.Holds sighting.lease := by
  obtain ⟨after, hsteps, read, hr, hid, hlease, hwait⟩ := h.reads
  have hpolled := Mount.polled_pollWait backend hsteps.steady.sound hr hwait
  rw [hid, hlease] at hpolled
  have hheld : (read.id, read.lease) ∈ (sighting.next backend).pool.leases :=
    hpolled.leases ▸ List.mem_map.mpr ⟨read, hr, rfl⟩
  obtain ⟨other, ho, he⟩ := List.mem_map.mp hheld
  have hsame : other.lease = sighting.lease := (congrArg Prod.snd he).trans hlease
  exact hsame ▸ hpolled.sound.leased.current other ho

namespace Mount

variable {σ τ : Type}

-- The table of files is in order at all times, also in the midst of a poll. Each read in
-- progress holds the file that it was started on under the serial number that it found, and
-- keeps it: a number names one and the same file for as long as it is in the table, and is
-- never used again. So what reads create, load and give up are pages of the table.
theorem files_registered (backend : Backend σ τ) (limits : Limits) (storage : σ)
    (acts rest : List (Act σ)) :
    let mount := run backend (create limits storage) acts
    let later := mount.run backend rest
    mount.pool.Registered ∧
    (∀ held ∈ mount.pool.leases, ∃ first last extent,
      Starts backend (create limits storage) acts first last extent held) ∧
    (∀ read ∈ mount.pool.live, ∀ left ∈ later.pool.live, left.id = read.id →
      left.lease = read.lease) ∧
    (∀ file left, later.pool.files.find? file = some left → left.serial < later.pool.serials ∧
      (left.serial < mount.pool.serials → ∃ cached,
        mount.pool.files.find? file = some cached ∧ cached.serial = left.serial)) ∧
    ∀ sighting ∈ sightings backend (create limits storage) acts,
      sighting.mount.pool.Registered ∧ sighting.mount.pool.Holds sighting.lease ∧
        (sighting.next backend).pool.Holds sighting.lease := by
  intro mount later
  obtain ⟨plans, hs, _⟩ := exists_steady backend limits storage acts
  obtain ⟨after, hsteps⟩ := exists_steps_run backend rest hs
  refine ⟨hs.sound.registered (accounted_run backend limits storage acts),
    exists_starts backend limits storage acts, fun read hr left hl hid => ?_,
    fun file left hf => ⟨?_, fun hlt => ?_⟩, fun sighting hsight => ?_⟩
  · -- no read that has started since has the number of one that was there
    have hknown : ¬ mount.pool.gatherings.size ≤ left.id := by
      rw [hid]
      exact Nat.not_le_of_lt (hs.sound.leased.known read hr)
    have hheld : (left.id, left.lease) ∈ mount.pool.leases :=
      (hsteps.origin _ (List.mem_map.mpr ⟨left, hl, rfl⟩)).resolve_right hknown
    obtain ⟨first, hfirst, he⟩ := List.mem_map.mp hheld
    rw [Prod.mk.injEq] at he
    obtain rfl := List.inj_on_of_nodup_map hs.sound.leased.distinct hfirst hr (he.1.trans hid)
    exact he.2.symm
  · have hages := (ages_run backend (create limits storage) acts).trans
      (ages_run backend mount rest)
    exact serial_lt_of_ages hages hf
  · rcases (ages_run backend mount rest).file file left hf with ⟨cached, hcached, hages⟩ | ⟨hge, _⟩
    · exact ⟨cached, hcached, hages.serial.symm⟩
    · exact absurd hlt (Nat.not_lt_of_le hge)
  · obtain ⟨_, hcreate, hchronicle, _⟩ := exists_chronicle backend limits storage acts
    obtain ⟨before, hfits⟩ := hchronicle.exists_fits hsight
    have haccounted : sighting.mount.pool.Accounted :=
      sightings_preserve (fun _ _ _ hm => hm.accounted) hcreate.sound.ordered
        ⟨rfl, rfl, List.not_mem_nil⟩ hsight
    obtain ⟨_, hmiddle, _⟩ := hfits.reads
    exact ⟨hmiddle.steady.sound.registered haccounted, hfits.holds, hfits.holds_next⟩

-- A read that waits at a gate, and the two pages of it that come in at once.
theorem gated_files_registered :
    let pool := (gatedRun []).pool
    let later := (gatedRun untilReleased).pool
    gatedRead ∈ pool.live ∧ pool.Holds gatedRead.lease ∧
    (∃ cached, pool.files.find? 0 = some cached ∧ cached.readers = (pool.live.filter
      (·.lease.file == 0)).length) ∧
    (∃ first last extent, Starts Memory.backend gatedMount [.ask (.read 0 1 8 .all)] first last
      extent (0, ⟨0, 0⟩)) ∧
    (∃ left ∈ later.live, left.id = 0 ∧ left.lease = gatedRead.lease) ∧
    (∃ left, later.files.find? 0 = some left ∧ left.serial < pool.serials ∧
      ∃ cached, pool.files.find? 0 = some cached ∧ cached.serial = left.serial) ∧
    ∃ sighting ∈ sightings Memory.backend gatedMount [.ask (.read 0 1 8 .all)],
      sighting.wait = ⟨8, 2⟩ ∧ (sighting.next Memory.backend).pool.Holds sighting.lease := by
  intro pool later
  obtain ⟨hregistered, hstarts, hkeeps, hserials, hsightings⟩ := files_registered Memory.backend
    fourByteLimits gatedStorage [.ask (.read 0 1 8 .all)] untilReleased
  have hread : gatedRead ∈ pool.live := List.mem_singleton.mpr rfl
  have hleft : gatedRead ∈ later.live := List.mem_singleton.mpr rfl
  have hlt : 0 < pool.serials := by decide
  refine ⟨hread, hregistered.holds _ hread, ⟨_, rfl, hregistered.readers 0 _ rfl⟩,
    hstarts (0, ⟨0, 0⟩) (List.mem_singleton.mpr rfl),
    ⟨gatedRead, hleft, rfl, hkeeps _ hread _ hleft rfl⟩,
    ⟨_, rfl, hlt, (hserials 0 _ rfl).2 hlt⟩, ?_⟩
  obtain ⟨first, second, hs, hwait⟩ : ∃ first second : Sighting (Gates × Memory) (Option GateId),
      sightings Memory.backend gatedMount [.ask (.read 0 1 8 .all)] = [first, second] ∧
        second.wait = ⟨8, 2⟩ := ⟨_, _, rfl, rfl⟩
  have hmem : second ∈ sightings Memory.backend gatedMount [.ask (.read 0 1 8 .all)] :=
    hs ▸ List.mem_cons_of_mem _ (List.mem_singleton_self _)
  exact ⟨second, hmem, hwait, (hsightings second hmem).2.2⟩

end Mount

end PageCache
