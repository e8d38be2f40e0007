import PageCache.Proofs.Accounting
import PageCache.Proofs.Fitting
import PageCache.Proofs.Running

namespace PageCache

namespace Pool

variable {τ : Type} {pool middle next : Pool τ}

-- Nothing is found broken from one pool to the next. The count of pages is looked at apart
-- from all else, for it is right whatever reads do. The pages that a pass evicts are all on the
-- counter, so that their number is within a word as long as the counter is.
structure Calm (pool next : Pool τ) : Prop where
  evictions : pool.counters.evictions ≤ next.counters.evictions
  breached : ∀ breach ≠ .pagesUnderflow, .breached breach ∈ next.journal →
    .breached breach ∈ pool.journal ∨
      breach = .evictedOverflow ∧ wordLimit ≤ next.counters.evictions

theorem Calm.refl (pool : Pool τ) : pool.Calm pool := ⟨Nat.le_refl _, fun _ _ h => .inl h⟩

theorem Calm.trans (h : pool.Calm middle) (hn : middle.Calm next) : pool.Calm next where
  evictions := h.evictions.trans hn.evictions
  breached breach hb hm := by
    rcases hn.breached breach hb hm with hm | hover
    · rcases h.breached breach hb hm with hm | ⟨he, hover⟩
      · exact .inl hm
      · exact .inr ⟨he, hover.trans hn.evictions⟩
    · exact .inr hover

theorem calm_of_journal (h : next.journal = pool.journal)
    (hc : next.counters.evictions = pool.counters.evictions) : pool.Calm next :=
  ⟨Nat.le_of_eq hc.symm, fun _ _ hm => .inl (h ▸ hm)⟩

theorem calm_modifyFile (pool : Pool τ) (file : FileId) (change : FileCache → FileCache) :
    pool.Calm (pool.modifyFile file change) := calm_of_journal rfl rfl

theorem calm_modifyGathering (pool : Pool τ) (id : ReadId) (change : Gathering → Gathering) :
    pool.Calm (pool.modifyGathering id change) := calm_of_journal rfl rfl

theorem evictions_count_le (counters : Counters) (event : Event) :
    counters.evictions ≤ (counters.count event).evictions := by
  cases event with
  | pagesEvicted => exact Nat.le_add_right _ _
  | _ => exact Nat.le_refl _

theorem calm_of_emit (event : Event) (h : event.breach? = none)
    (hj : next.journal = event :: pool.journal)
    (hc : next.counters.evictions = (pool.counters.count event).evictions) : pool.Calm next where
  evictions := hc ▸ evictions_count_le ..
  breached breach _ hm := by
    rw [hj] at hm
    rcases List.mem_cons.mp hm with he | hm
    · rw [← he] at h
      cases h
    · exact .inl hm

theorem calm_emit (pool : Pool τ) {event : Event} (h : event.breach? = none) :
    pool.Calm (pool.emit event) := calm_of_emit event h rfl rfl

theorem calm_require (pool : Pool τ) {holds : Bool} (breach : Breach) (h : holds = true) :
    pool.Calm (pool.require holds breach) := by
  rw [h]
  exact .refl pool

theorem evictions_require (pool : Pool τ) (holds : Bool) (breach : Breach) :
    (pool.require holds breach).counters.evictions = pool.counters.evictions :=
  congrArg (·.evictions) (counters_require ..)

theorem calm_shrink (pool : Pool τ) (pages : Nat) : pool.Calm (pool.shrink pages) where
  evictions := Nat.le_of_eq (evictions_require ..).symm
  breached breach hb hm := by
    simp only [shrink, setUsed, require] at hm
    split at hm
    · exact .inl hm
    · rcases List.mem_cons.mp hm with he | hm
      · cases he
        exact absurd rfl hb
      · exact .inl hm

theorem calm_dropPages (pool : Pool τ) (file : FileId) (pages : List Nat) {event : Event}
    (h : event.breach? = none) : pool.Calm (pool.dropPages file pages event) :=
  (calm_modifyFile ..).trans ((calm_emit _ h).trans (calm_shrink _ _))

theorem calm_removeFile (pool : Pool τ) (file : FileId) : pool.Calm (pool.removeFile file) := by
  unfold removeFile
  split
  · exact .refl pool
  · rename_i cached _
    have herased : pool.Calm { pool with files := pool.files.erase file } :=
      calm_of_journal rfl rfl
    exact (herased.trans (calm_shrink _ cached.pages.size)).trans (calm_emit _ rfl)

theorem calm_dropStale (pool : Pool τ) (file : FileId) (keep : Nat) :
    pool.Calm (pool.dropStale file keep) := by
  unfold dropStale
  split
  · exact .refl pool
  · simp only
    split
    · exact .refl pool
    · exact calm_dropPages _ _ _ rfl

theorem calm_load (pool : Pool τ) (file : FileId) (wait : Wait) (waiters : List ReadId)
    (data : Bytes) (attributes : Attributes) :
    pool.Calm (pool.load file wait waiters data attributes) := by
  let stored := pool.modifyFile file fun cached =>
    { cached with
      pages := cached.pages.insert wait.page (.loaded wait.fetch data)
      attributes := some attributes }
  have hstored : pool.Calm stored := calm_modifyFile ..
  unfold load
  simp only
  split
  · exact (hstored.trans (calm_dropStale stored file wait.page)).trans (calm_emit _ rfl)
  · exact hstored.trans (calm_emit _ rfl)

theorem calm_invalidate (pool : Pool τ) (file : FileId) :
    pool.Calm (pool.invalidate file).1 := by
  unfold invalidate
  split
  · exact .refl pool
  · exact (calm_modifyFile ..).trans (calm_dropPages _ _ _ rfl)

theorem calm_revalidate (pool : Pool τ) (file : FileId) (attributes : Attributes) :
    pool.Calm (pool.revalidate file attributes).1 := by
  unfold revalidate
  split
  · exact .refl pool
  · simp only
    split
    · exact (calm_modifyFile ..).trans (calm_dropPages _ _ _ rfl)
    · exact calm_modifyFile ..

theorem calm_release (pool : Pool τ) (file : FileId) : pool.Calm (pool.release file).1 := by
  unfold release
  split
  · exact .refl pool
  · split
    · exact calm_removeFile pool file
    · exact calm_modifyFile ..

theorem isOrdered_of_ordered {cached : FileCache} (h : cached.pages.Ordered) :
    cached.isOrdered = true := by
  refine List.all_eq_true.mpr fun page hp => ?_
  obtain ⟨value, hv⟩ := h.mem_keys.mp hp
  rw [LruMap.contains_eq_isSome, hv, Option.isSome_some]

-- Every page in the order of use is there, and no more pages are taken than are in excess.
theorem calm_evictFile (h : pool.Ordered) (file : FileId) (excess : Nat) :
    pool.Calm (pool.evictFile file excess).1 := by
  cases hf : pool.files.find? file with
  | none =>
      rw [evictFile_of_none hf]
      exact .refl pool
  | some cached =>
      obtain ⟨evicted, left, he, hevicted, hleft⟩ := evictFile_cases hf excess
      have hordered := isOrdered_of_ordered (h.pages file cached hf)
      have hlimit : (cached.victims excess).length ≤ excess := List.length_take_le ..
      have hchecked : pool.Calm ((pool.require cached.isOrdered .strayOrder).require
          (decide ((cached.victims excess).length ≤ excess)) .excessUnderflow) :=
        (calm_require pool _ hordered).trans (calm_require _ _ (decide_eq_true hlimit))
      have hcalm : pool.Calm evicted := by
        rcases hevicted with ⟨_, rfl⟩ | rfl
        · exact hchecked
        · exact hchecked.trans (calm_dropPages _ _ _ rfl)
      rw [he]
      rcases hleft with rfl | ⟨_, _, _, _, rfl⟩
      · exact hcalm
      · exact hcalm.trans (calm_removeFile _ _)

theorem calm_sweeps (files : List FileId) (h : pool.Ordered) (hl : pool.Leased) (excess : Nat) :
    pool.Calm (files.foldl sweep (pool, excess)).1 := by
  have hsweeps : pool.Trims (files.foldl sweep (pool, excess)).1 ∧
      pool.Calm (files.foldl sweep (pool, excess)).1 :=
    sweeps_induction (P := fun swept => pool.Trims swept.1 ∧ pool.Calm swept.1)
      (fun swept file ⟨ht, hc⟩ => ⟨ht.trans (trims_evictFile (ht.leased hl) file swept.2),
        hc.trans (calm_evictFile (ht.ordered h) file swept.2)⟩)
      files ⟨.refl pool, .refl pool⟩
  exact hsweeps.2

theorem evictions_dropPages (pool : Pool τ) (file : FileId) (pages : List Nat) :
    (pool.dropPages file pages (.pagesEvicted file pages.length)).counters.evictions =
      pool.counters.evictions + pages.length := evictions_require ..

theorem evictions_removeFile (pool : Pool τ) (file : FileId) :
    (pool.removeFile file).counters.evictions = pool.counters.evictions := by
  unfold removeFile
  split
  · rfl
  · exact evictions_require ..

-- What is taken off the excess goes on the counter.
theorem evictions_evictFile (pool : Pool τ) (file : FileId) (excess : Nat) :
    (pool.evictFile file excess).1.counters.evictions + (pool.evictFile file excess).2 =
      pool.counters.evictions + excess := by
  cases hf : pool.files.find? file with
  | none => rw [evictFile_of_none hf]
  | some cached =>
      obtain ⟨evicted, left, he, hevicted, hleft⟩ := evictFile_cases hf excess
      have hlimit : (cached.victims excess).length ≤ excess := List.length_take_le ..
      have hcount : evicted.counters.evictions =
          pool.counters.evictions + (cached.victims excess).length := by
        rcases hevicted with ⟨hnone, rfl⟩ | rfl
        · rw [evictions_require, evictions_require, hnone, List.length_nil, Nat.add_zero]
        · rw [evictions_dropPages, evictions_require, evictions_require]
      have hsame : left.counters.evictions = evicted.counters.evictions := by
        rcases hleft with rfl | ⟨_, _, _, _, rfl⟩
        · rfl
        · exact evictions_removeFile ..
      rw [he, hsame, hcount, Nat.add_assoc, Nat.add_sub_cancel' hlimit]

theorem evictions_sweeps (files : List FileId) (pool : Pool τ) (excess : Nat) :
    (files.foldl sweep (pool, excess)).1.counters.evictions +
      (files.foldl sweep (pool, excess)).2 = pool.counters.evictions + excess :=
  sweeps_induction
    (P := fun swept => swept.1.counters.evictions + swept.2 = pool.counters.evictions + excess)
    (fun swept file hs => (evictions_evictFile swept.1 file swept.2).trans hs) files rfl

theorem calm_evict (h : pool.Ordered) (hl : pool.Leased) : pool.Calm pool.evict.1 := by
  let excess := pool.pagesUsed - pool.limits.lowWatermark
  let swept := pool.files.keys.foldl sweep (pool, excess)
  have hswept : pool.Calm swept.1 := calm_sweeps _ h hl excess
  have hcounted : swept.1.counters.evictions + swept.2 = pool.counters.evictions + excess :=
    evictions_sweeps _ pool excess
  change pool.Calm (swept.1.require (decide (excess - swept.2 < wordLimit)) .evictedOverflow)
  by_cases hw : excess - swept.2 < wordLimit
  · exact hswept.trans (calm_require _ _ (decide_eq_true hw))
  · refine hswept.trans ⟨Nat.le_of_eq (evictions_require ..).symm, fun breach _ hm => ?_⟩
    rw [decide_eq_false hw] at hm ⊢
    rcases List.mem_cons.mp hm with he | hm
    · cases he
      refine .inr ⟨rfl, ?_⟩
      change wordLimit ≤ swept.1.counters.evictions
      omega
    · exact .inl hm

theorem calm_enforceBudget (h : pool.Ordered) (hl : pool.Leased) :
    pool.Calm pool.enforceBudget := by
  unfold enforceBudget
  split
  · exact calm_evict h hl
  · exact .refl pool

-- A read that ends is one of those that its file counts.
theorem calm_endRead (h : pool.Leased) (id : ReadId) : pool.Calm (pool.endRead id) := by
  unfold endRead
  split
  · exact .refl pool
  · rename_i read hl
    obtain ⟨hr, -⟩ := h.live?_eq_some_iff.mp hl
    obtain ⟨cached, hf, hserial⟩ := h.current read hr
    let rest := { pool with live := pool.live.filter (·.id != id) }
    have hrest : pool.Calm rest := calm_of_journal rfl rfl
    have hleased : rest.leased? read.lease = some cached := by
      simp [leased?, rest, hf, hserial, Option.filter]
    have hreaders : 0 < cached.readers := by
      rw [h.readers _ cached hf]
      exact List.countP_pos_iff.mpr ⟨read, hr, beq_self_eq_true _⟩
    have hleft : pool.Calm ((rest.require (decide (0 < cached.readers))
        .readersUnderflow).modifyFile read.lease.file fun cached =>
          { cached with readers := cached.readers - 1 }) :=
      (hrest.trans (calm_require _ _ (decide_eq_true hreaders))).trans (calm_modifyFile ..)
    unfold leave
    rw [hleased]
    simp only
    split
    · exact hleft.trans (calm_removeFile _ _)
    · exact hleft

end Pool

end PageCache
