import PageCache.Pool.Control
import PageCache.Pool.Reading
import PageCache.Pool.Resolution
import PageCache.Proofs.Views

namespace PageCache

namespace Pool

variable {τ : Type}

-- The files and the pages of each are in good order.
structure Ordered (pool : Pool τ) : Prop where
  files : pool.files.Ordered
  pages : ∀ file cached, pool.files.find? file = some cached → cached.pages.Ordered

-- Reads in progress have numbers of their own, hold the file that is cached under their
-- lease, and are what the files count as readers.
structure Leased (pool : Pool τ) : Prop where
  distinct : (pool.live.map (·.id)).Nodup
  known : ∀ read ∈ pool.live, read.id < pool.gatherings.size
  current : ∀ read ∈ pool.live, ∃ cached,
    pool.files.find? read.lease.file = some cached ∧ cached.serial = read.lease.serial
  readers : ∀ file cached, pool.files.find? file = some cached →
    cached.readers = pool.live.countP (·.lease.file == file)

-- What becomes of a pool when pages are destroyed that no read in progress waits for.
-- Apart from that nothing changes that a read could notice.
structure Trims (pool trimmed : Pool τ) : Prop where
  limits : trimmed.limits = pool.limits
  fetches : trimmed.fetches = pool.fetches
  gatherings : trimmed.gatherings = pool.gatherings
  live : trimmed.live = pool.live
  failures : trimmed.failures = pool.failures
  ordered : pool.Ordered → trimmed.Ordered
  file : ∀ file left, trimmed.files.find? file = some left → ∃ cached,
    pool.files.find? file = some cached ∧ left.serial = cached.serial ∧
      left.readers = cached.readers ∧
      ∀ page found, left.pages.find? page = some found → cached.pages.find? page = some found
  kept : ∀ file cached, pool.files.find? file = some cached → pool.Busy file → ∃ left,
    trimmed.files.find? file = some left ∧
      ∀ page found, cached.pages.find? page = some found → found.isWaited = true →
        left.pages.find? page = some found

theorem Trims.refl (pool : Pool τ) : pool.Trims pool where
  limits := rfl
  fetches := rfl
  gatherings := rfl
  live := rfl
  failures := rfl
  ordered h := h
  file _ left h := ⟨left, h, rfl, rfl, fun _ _ hp => hp⟩
  kept _ cached h _ := ⟨cached, h, fun _ _ hp _ => hp⟩

theorem Trims.trans {pool middle trimmed : Pool τ} (h : pool.Trims middle)
    (ht : middle.Trims trimmed) : pool.Trims trimmed where
  limits := ht.limits.trans h.limits
  fetches := ht.fetches.trans h.fetches
  gatherings := ht.gatherings.trans h.gatherings
  live := ht.live.trans h.live
  failures := ht.failures.trans h.failures
  ordered ho := ht.ordered (h.ordered ho)
  file file left hl := by
    obtain ⟨halfway, hm, hs, hr, hp⟩ := ht.file file left hl
    obtain ⟨cached, hc, hs', hr', hp'⟩ := h.file file halfway hm
    refine ⟨cached, hc, hs.trans hs', hr.trans hr', fun page found hf => ?_⟩
    exact hp' page found (hp page found hf)
  kept file cached hc hb := by
    obtain ⟨halfway, hm, hp⟩ := h.kept file cached hc hb
    obtain ⟨left, hl, hp'⟩ := ht.kept file halfway hm (by simpa [Busy, h.live] using hb)
    exact ⟨left, hl, fun page found hf hw => hp' page found (hp page found hf hw) hw⟩

-- A change that leaves the files alone, and all else that reads depend on.
theorem Trims.of_eq {pool other : Pool τ} (hl : other.limits = pool.limits)
    (hf : other.files = pool.files) (hx : other.fetches = pool.fetches)
    (hg : other.gatherings = pool.gatherings) (hv : other.live = pool.live)
    (hj : other.failures = pool.failures) : pool.Trims other where
  limits := hl
  fetches := hx
  gatherings := hg
  live := hv
  failures := hj
  ordered h := ⟨hf ▸ h.files, hf ▸ h.pages⟩
  file _ left h := ⟨left, hf ▸ h, rfl, rfl, fun _ _ hp => hp⟩
  kept _ cached h _ := ⟨cached, hf ▸ h, fun _ _ hp _ => hp⟩

theorem trims_emit (pool : Pool τ) (event : Event) (h : event.failure? = none) :
    pool.Trims (pool.emit event) :=
  .of_eq rfl rfl rfl rfl rfl (by simp [h])

theorem trims_require (pool : Pool τ) (holds : Bool) (breach : Breach) :
    pool.Trims (pool.require holds breach) :=
  .of_eq (by simp) (by simp) (by simp) (by simp) (by simp) (by simp)

theorem trims_setUsed (pool : Pool τ) (pages : Nat) : pool.Trims (pool.setUsed pages) :=
  .of_eq rfl rfl rfl rfl rfl rfl

theorem trims_shrink (pool : Pool τ) (pages : Nat) : pool.Trims (pool.shrink pages) :=
  (pool.trims_require _ _).trans (trims_setUsed _ _)

theorem find?_modifyFile (pool : Pool τ) (file other : FileId) (change : FileCache → FileCache) :
    (pool.modifyFile file change).files.find? other =
      if other = file then (pool.files.find? other).map change else pool.files.find? other :=
  pool.files.find?_modify file other change

theorem Ordered.modifyFile {pool : Pool τ} (h : pool.Ordered) (file : FileId)
    {change : FileCache → FileCache}
    (hc : ∀ cached, pool.files.find? file = some cached → cached.pages.Ordered →
      (change cached).pages.Ordered) : (pool.modifyFile file change).Ordered where
  files := h.files.modify file change
  pages other cached hf := by
    rw [find?_modifyFile] at hf
    split at hf
    · rename_i he
      subst he
      obtain ⟨old, ho, rfl⟩ := Option.map_eq_some_iff.mp hf
      exact hc old ho (h.pages _ old ho)
    · exact h.pages other cached hf

-- One file changes, and none of its pages that reads in progress wait for.
theorem trims_modifyFile (pool : Pool τ) (file : FileId) (change : FileCache → FileCache)
    (hc : ∀ cached, pool.files.find? file = some cached →
      (change cached).serial = cached.serial ∧ (change cached).readers = cached.readers ∧
      (cached.pages.Ordered → (change cached).pages.Ordered) ∧
      (∀ page found, (change cached).pages.find? page = some found →
        cached.pages.find? page = some found) ∧
      (pool.Busy file → ∀ page found, cached.pages.find? page = some found →
        found.isWaited = true → (change cached).pages.find? page = some found)) :
    pool.Trims (pool.modifyFile file change) where
  limits := rfl
  fetches := rfl
  gatherings := rfl
  live := rfl
  failures := rfl
  ordered h := h.modifyFile file fun cached hf => (hc cached hf).2.2.1
  file other left hl := by
    rw [find?_modifyFile] at hl
    split at hl
    · rename_i he
      subst he
      obtain ⟨cached, hf, rfl⟩ := Option.map_eq_some_iff.mp hl
      obtain ⟨hs, hr, _, hp, _⟩ := hc cached hf
      exact ⟨cached, hf, hs, hr, hp⟩
    · exact ⟨left, hl, rfl, rfl, fun _ _ hp => hp⟩
  kept other cached hf hb := by
    rw [find?_modifyFile]
    split
    · rename_i he
      subst he
      exact ⟨change cached, by rw [hf]; rfl, (hc cached hf).2.2.2.2 hb⟩
    · exact ⟨cached, hf, fun _ _ hp _ => hp⟩

theorem trims_dropPages (pool : Pool τ) (file : FileId) (pages : List Nat) (event : Event)
    (he : event.failure? = none)
    (hw : ∀ cached, pool.files.find? file = some cached → pool.Busy file →
      ∀ page ∈ pages, cached.isWaited page = false) :
    pool.Trims (pool.dropPages file pages event) := by
  refine ((pool.trims_modifyFile file (·.drop pages) ?_).trans (trims_emit _ event he)).trans
    (trims_shrink _ _)
  intro cached hf
  refine ⟨rfl, rfl, fun ho => ho.eraseAll pages, ?_, ?_⟩
  · intro page found hp
    simp only [FileCache.drop, LruMap.find?_eraseAll] at hp
    split at hp
    · cases hp
    · exact hp
  · intro hb page found hp hwaited
    have hn : page ∉ pages := by
      intro hm
      have := hw cached hf hb page hm
      simp [FileCache.isWaited, hp, hwaited] at this
    simpa [FileCache.drop, LruMap.find?_eraseAll, hn] using hp

theorem trims_removeFile (pool : Pool τ) (file : FileId) (h : ¬ pool.Busy file) :
    pool.Trims (pool.removeFile file) := by
  unfold removeFile
  split
  · exact .refl pool
  · rename_i cached hf
    refine (Trims.trans ?_ (trims_shrink _ _)).trans (trims_emit _ _ rfl)
    refine ⟨rfl, rfl, rfl, rfl, rfl, ?_, ?_, ?_⟩
    · intro ho
      refine ⟨ho.files.erase file, fun other left hl => ?_⟩
      by_cases he : other = file
      · subst he
        simp [LruMap.find?_erase_self] at hl
      · rw [LruMap.find?_erase_of_ne _ he] at hl
        exact ho.pages other left hl
    · intro other left hl
      by_cases he : other = file
      · subst he
        simp [LruMap.find?_erase_self] at hl
      · rw [LruMap.find?_erase_of_ne _ he] at hl
        exact ⟨left, hl, rfl, rfl, fun _ _ hp => hp⟩
    · intro other kept hk hb
      have he : other ≠ file := by
        rintro rfl
        exact h hb
      exact ⟨kept, (LruMap.find?_erase_of_ne _ he).trans hk, fun _ _ hp _ => hp⟩

end Pool

end PageCache
