import PageCache.Pool.Eviction
import PageCache.Proofs.Trimming

namespace PageCache

namespace Pool

variable {τ : Type}

theorem Trims.busy_iff {pool trimmed : Pool τ} (h : pool.Trims trimmed) (file : FileId) :
    trimmed.Busy file ↔ pool.Busy file := by
  simp only [Busy, h.live]

theorem Trims.leased {pool trimmed : Pool τ} (h : pool.Trims trimmed) (hl : pool.Leased) :
    trimmed.Leased where
  distinct := h.live ▸ hl.distinct
  known := by
    rw [h.live, h.gatherings]
    exact hl.known
  current read hr := by
    rw [h.live] at hr
    obtain ⟨cached, hf, hs⟩ := hl.current read hr
    obtain ⟨left, hleft, _⟩ := h.kept _ cached hf ⟨read, hr, rfl⟩
    obtain ⟨found, hfound, hserial, _⟩ := h.file _ left hleft
    have he := Option.some.inj (hf.symm.trans hfound)
    exact ⟨left, hleft, hserial.trans (he ▸ hs)⟩
  readers file left hleft := by
    obtain ⟨cached, hf, _, hr, _⟩ := h.file file left hleft
    rw [hr, h.live, hl.readers file cached hf]

theorem busy_iff_countP_pos (pool : Pool τ) (file : FileId) :
    pool.Busy file ↔ 0 < pool.live.countP (·.lease.file == file) := by
  simp [Busy, List.countP_pos_iff]

theorem Leased.isIdle_iff {pool : Pool τ} (h : pool.Leased) {file : FileId} {cached : FileCache}
    (hf : pool.files.find? file = some cached) : cached.isIdle = true ↔ ¬ pool.Busy file := by
  rw [busy_iff_countP_pos, FileCache.isIdle, beq_iff_eq, h.readers file cached hf]
  omega

theorem isWaited_of_mem_unwaited {cached : FileCache} {page : Nat}
    (h : page ∈ cached.unwaited) : cached.isWaited page = false := by
  simpa [FileCache.unwaited] using (List.mem_filter.mp h).2

-- Eviction takes pages with waiters only from files that nobody reads.
theorem Leased.victims_unwaited {pool : Pool τ} (h : pool.Leased) {file : FileId}
    {cached : FileCache} (hf : pool.files.find? file = some cached) (hb : pool.Busy file)
    {limit page : Nat} (hp : page ∈ cached.victims limit) : cached.isWaited page = false := by
  have hm := (List.mem_filter.mp (List.mem_of_mem_take hp)).2
  have hi : cached.isIdle = false := by
    by_contra hn
    exact (h.isIdle_iff hf).mp (by simpa using hn) hb
  simpa [hi] using hm

section Pass

variable {pool : Pool τ} {file : FileId}

theorem evictFile_of_none (hf : pool.files.find? file = none) (excess : Nat) :
    pool.evictFile file excess = (pool, excess) := by
  simp only [evictFile, hf]

-- Victims are taken of a file, if there are any. It goes if nobody reads it and it has no page.
theorem evictFile_cases {cached : FileCache} (hf : pool.files.find? file = some cached)
    (excess : Nat) :
    let victims := cached.victims excess
    let checked := (pool.require cached.isOrdered .strayOrder).require
      (decide (victims.length ≤ excess)) .excessUnderflow
    ∃ evicted left, pool.evictFile file excess = (left, excess - victims.length) ∧
      (victims = [] ∧ evicted = checked ∨
        evicted = checked.dropPages file victims (.pagesEvicted file victims.length)) ∧
      (left = evicted ∨
        ∃ bare, evicted.files.find? file = some bare ∧ bare.isIdle = true ∧
          bare.pages.size = 0 ∧ left = evicted.removeFile file) := by
  intro victims checked
  let evicted :=
    if victims.isEmpty then checked
    else checked.dropPages file victims (.pagesEvicted file victims.length)
  let isBare := fun bare : FileCache => bare.isIdle && bare.pages.size == 0
  have he : pool.evictFile file excess =
      (if (evicted.files.find? file).any isBare then evicted.removeFile file else evicted,
        excess - victims.length) := by
    simp only [evictFile, hf]
    rfl
  have hevicted : victims = [] ∧ evicted = checked ∨
      evicted = checked.dropPages file victims (.pagesEvicted file victims.length) := by
    by_cases hv : victims.isEmpty
    · exact .inl ⟨List.isEmpty_iff.mp hv, if_pos hv⟩
    · exact .inr (if_neg hv)
  refine ⟨evicted, _, he, hevicted, ?_⟩
  by_cases hbare : (evicted.files.find? file).any isBare = true
  · obtain ⟨bare, hfound, hempty⟩ := (Option.any_eq_true _ _).mp hbare
    rw [Bool.and_eq_true, beq_iff_eq] at hempty
    exact .inr ⟨bare, hfound, hempty.1, hempty.2, if_pos hbare⟩
  · exact .inl (if_neg hbare)

-- What is kept up whenever a file has its turn is kept up by all turns.
theorem sweeps_induction {P : Pool τ × Nat → Prop}
    (hstep : ∀ swept file, P swept → P (swept.1.evictFile file swept.2))
    (files : List FileId) {swept : Pool τ × Nat} (h : P swept) :
    P (files.foldl sweep swept) := by
  induction files generalizing swept with
  | nil => exact h
  | cons file rest ih =>
      refine ih ?_
      unfold sweep
      split
      · exact h
      · exact hstep swept file h

end Pass

theorem trims_evictFile {pool : Pool τ} (h : pool.Leased) (file : FileId) (excess : Nat) :
    pool.Trims (pool.evictFile file excess).1 := by
  cases hf : pool.files.find? file with
  | none =>
      rw [evictFile_of_none hf]
      exact .refl pool
  | some cached =>
      obtain ⟨evicted, left, he, hevicted, hleft⟩ := evictFile_cases hf excess
      have hchecked : pool.Trims ((pool.require cached.isOrdered .strayOrder).require
          (decide ((cached.victims excess).length ≤ excess)) .excessUnderflow) :=
        (trims_require _ _ _).trans (trims_require _ _ _)
      have htrims : pool.Trims evicted := by
        rcases hevicted with ⟨_, rfl⟩ | rfl
        · exact hchecked
        · refine hchecked.trans (trims_dropPages _ _ _ _ rfl fun found hfound hb page hp => ?_)
          rw [hchecked.busy_iff] at hb
          rw [files_require, files_require, hf] at hfound
          exact Option.some.inj hfound ▸ h.victims_unwaited hf hb hp
      rw [he]
      rcases hleft with rfl | ⟨bare, hbare, hidle, _, rfl⟩
      · exact htrims
      · exact htrims.trans (trims_removeFile _ _
          (((htrims.leased h).isIdle_iff hbare).mp hidle))

theorem trims_sweep (files : List FileId) {pool : Pool τ} (h : pool.Leased) (excess : Nat) :
    pool.Trims (files.foldl sweep (pool, excess)).1 :=
  sweeps_induction (P := fun swept => pool.Trims swept.1)
    (fun swept file ht => ht.trans (trims_evictFile (ht.leased h) file swept.2)) files
    (.refl pool)

theorem trims_evict {pool : Pool τ} (h : pool.Leased) : pool.Trims pool.evict.1 :=
  (trims_sweep _ h _).trans (trims_require ..)

theorem trims_enforceBudget {pool : Pool τ} (h : pool.Leased) :
    pool.Trims pool.enforceBudget := by
  unfold enforceBudget
  split
  · exact trims_evict h
  · exact .refl pool

-- The attributes and the mark of a released file are of no concern to its pages.
theorem trims_annotate (pool : Pool τ) (file : FileId) (change : FileCache → FileCache)
    (hs : ∀ cached, (change cached).serial = cached.serial)
    (hr : ∀ cached, (change cached).readers = cached.readers)
    (hp : ∀ cached, (change cached).pages = cached.pages) :
    pool.Trims (pool.modifyFile file change) :=
  trims_modifyFile pool file change fun cached _ =>
    ⟨hs cached, hr cached, fun h => hp cached ▸ h, fun _ _ h => hp cached ▸ h,
      fun _ _ _ h _ => (hp cached).symm ▸ h⟩

-- Pages without waiters can always go, also after the file was annotated.
theorem trims_dropUnwaited (pool : Pool τ) (file : FileId) (pages : List Nat) (event : Event)
    (he : event.failure? = none)
    (hp : ∀ cached, pool.files.find? file = some cached → pages ⊆ cached.unwaited) :
    pool.Trims (pool.dropPages file pages event) :=
  trims_dropPages pool file pages event he fun cached hf _ _ hm =>
    isWaited_of_mem_unwaited (hp cached hf hm)

theorem trims_invalidate (pool : Pool τ) (file : FileId) :
    pool.Trims (pool.invalidate file).1 := by
  unfold invalidate
  split
  · exact .refl pool
  · rename_i cached hf
    refine (trims_annotate pool file _ ?_ ?_ ?_).trans (trims_dropUnwaited _ file _ _ rfl ?_)
    · exact fun _ => rfl
    · exact fun _ => rfl
    · exact fun _ => rfl
    · intro found hfound
      rw [find?_modifyFile, if_pos rfl, hf] at hfound
      cases hfound
      exact List.Subset.refl _

theorem trims_revalidate (pool : Pool τ) (file : FileId) (attributes : Attributes) :
    pool.Trims (pool.revalidate file attributes).1 := by
  unfold revalidate
  split
  · exact .refl pool
  · rename_i cached hf
    have hrecorded : pool.Trims (pool.modifyFile file fun cached =>
        { cached with attributes := some attributes }) :=
      trims_annotate pool file _ (fun _ => rfl) (fun _ => rfl) fun _ => rfl
    simp only
    split
    · refine hrecorded.trans (trims_dropUnwaited _ file _ _ rfl ?_)
      intro found hfound
      rw [find?_modifyFile, if_pos rfl, hf] at hfound
      cases hfound
      exact List.Subset.refl _
    · exact hrecorded

theorem trims_release {pool : Pool τ} (h : pool.Leased) (file : FileId) :
    pool.Trims (pool.release file).1 := by
  unfold release
  split
  · exact .refl pool
  · rename_i cached hf
    split
    · rename_i hidle
      exact trims_removeFile pool file ((h.isIdle_iff hf).mp hidle)
    · exact trims_annotate pool file _ (fun _ => rfl) (fun _ => rfl) fun _ => rfl

theorem trims_dropStale (pool : Pool τ) (file : FileId) (keep : Nat) :
    pool.Trims (pool.dropStale file keep) := by
  unfold dropStale
  split
  · exact .refl pool
  · rename_i cached hf
    simp only
    split
    · exact .refl pool
    · refine trims_dropUnwaited pool file _ _ rfl fun found hfound => ?_
      rw [hf] at hfound
      cases hfound
      exact List.filter_subset_self _

end Pool

end PageCache
