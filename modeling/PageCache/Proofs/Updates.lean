import PageCache.Proofs.Moves

namespace PageCache

namespace FileCache

-- What is left of a file after its invalidation.
def forget (cached : FileCache) : FileCache :=
  { cached with attributes := none }.drop cached.unwaited

-- What is left of a file whose attributes are found to be these.
def refresh (cached : FileCache) (attributes : Attributes) : FileCache :=
  let recorded := { cached with attributes := some attributes }
  if cached.isStale attributes then recorded.drop cached.unwaited else recorded

-- A page comes in, and what was read before the file changed goes.
def load (cached : FileCache) (page : Nat) (fetch : FetchId) (data : Bytes)
    (attributes : Attributes) : FileCache :=
  let stored :=
    { cached with
      pages := cached.pages.insert page (.loaded fetch data)
      attributes := some attributes }
  if cached.isStale attributes then stored.drop (stored.unwaited.filter (· != page)) else stored

theorem attributes_refresh (cached : FileCache) (attributes : Attributes) :
    (cached.refresh attributes).attributes = some attributes := by
  unfold refresh
  simp only
  split <;> rfl

theorem attributes_load (cached : FileCache) (page : Nat) (fetch : FetchId) (data : Bytes)
    (attributes : Attributes) :
    (cached.load page fetch data attributes).attributes = some attributes := by
  unfold load
  simp only
  split <;> rfl

theorem find?_drop_eq_some_iff {cached : FileCache} {pages : List Nat} {page : Nat}
    {found : Page} : (cached.drop pages).pages.find? page = some found ↔
      page ∉ pages ∧ cached.pages.find? page = some found := by
  simp only [drop, LruMap.find?_eraseAll]
  by_cases hp : page ∈ pages <;> simp [hp]

end FileCache

namespace Pool

variable {τ : Type} {pool next : Pool τ} {file : FileId}

-- One file changes, if it is cached at all, and the others stay as they are.
structure Updates (pool next : Pool τ) (file : FileId) (change : FileCache → FileCache) :
    Prop where
  find? : ∀ other, next.files.find? other =
    if other = file then (pool.files.find? other).map change else pool.files.find? other

theorem updates_modifyFile (pool : Pool τ) (file : FileId) (change : FileCache → FileCache) :
    pool.Updates (pool.modifyFile file change) file change :=
  ⟨fun other => find?_modifyFile pool file other change⟩

theorem updates_of_none (hf : pool.files.find? file = none) (change : FileCache → FileCache) :
    pool.Updates pool file change := by
  refine ⟨fun other => ?_⟩
  split
  · rename_i he
    rw [he, hf, Option.map_none]
  · rfl

theorem Updates.congr {change same : FileCache → FileCache} (h : pool.Updates next file change)
    (hc : ∀ cached, pool.files.find? file = some cached → change cached = same cached) :
    pool.Updates next file same := by
  refine ⟨fun other => ?_⟩
  rw [h.find? other]
  split
  · rename_i he
    subst he
    cases hf : pool.files.find? other with
    | none => rfl
    | some cached => exact congrArg some (hc cached hf)
  · rfl

theorem Updates.trans {middle : Pool τ} {first second : FileCache → FileCache}
    (h : pool.Updates middle file first) (hn : middle.Updates next file second) :
    pool.Updates next file (second ∘ first) := by
  refine ⟨fun other => ?_⟩
  rw [hn.find? other, h.find? other]
  by_cases he : other = file
  · simp only [he, if_true, Option.map_map]
  · simp only [he, if_false]

theorem updates_dropPages (pool : Pool τ) (file : FileId) (pages : List Nat) (event : Event) :
    pool.Updates (pool.dropPages file pages event) file (·.drop pages) := by
  refine ⟨fun other => ?_⟩
  rw [files_dropPages]
  exact find?_modifyFile ..

theorem updates_dropStale {cached : FileCache} (hf : pool.files.find? file = some cached)
    (keep : Nat) : pool.Updates (pool.dropStale file keep) file fun cached =>
      cached.drop (cached.unwaited.filter (· != keep)) := by
  simp only [dropStale, hf]
  split
  · rename_i hempty
    refine ⟨fun other => ?_⟩
    split
    · rename_i he
      rw [he, hf, Option.map_some, List.isEmpty_iff.mp hempty]
      rfl
    · rfl
  · refine (updates_dropPages ..).congr fun found hfound => ?_
    cases hf.symm.trans hfound
    rfl

theorem updates_load {cached : FileCache} (hf : pool.files.find? file = some cached)
    (wait : Wait) (waiters : List ReadId) (data : Bytes) (attributes : Attributes) :
    pool.Updates (pool.load file wait waiters data attributes) file
      (·.load wait.page wait.fetch data attributes) := by
  let store (cached : FileCache) : FileCache :=
    { cached with
      pages := cached.pages.insert wait.page (.loaded wait.fetch data)
      attributes := some attributes }
  have hstored := updates_modifyFile pool file store
  have hfound : (pool.modifyFile file store).files.find? file = some (store cached) := by
    rw [hstored.find? file, if_pos rfl, hf, Option.map_some]
  have hfresh : pool.Updates
      (if cached.isStale attributes then (pool.modifyFile file store).dropStale file wait.page
        else pool.modifyFile file store)
      file (·.load wait.page wait.fetch data attributes) := by
    split
    · rename_i hstale
      refine (hstored.trans (updates_dropStale hfound wait.page)).congr fun found hfile => ?_
      cases hf.symm.trans hfile
      simp [FileCache.load, hstale, store]
    · rename_i hstale
      refine hstored.congr fun found hfile => ?_
      cases hf.symm.trans hfile
      simp [FileCache.load, hstale, store]
  simp only [load, hf, Option.any_some]
  exact ⟨hfresh.find?⟩

theorem updates_invalidate (pool : Pool τ) (file : FileId) :
    pool.Updates (pool.invalidate file).1 file FileCache.forget := by
  unfold invalidate
  split
  · rename_i hf
    exact updates_of_none hf _
  · rename_i cached hf
    refine ((updates_modifyFile pool file _).trans (updates_dropPages ..)).congr
      fun found hfound => ?_
    cases hf.symm.trans hfound
    rfl

theorem updates_revalidate (pool : Pool τ) (file : FileId) (attributes : Attributes) :
    pool.Updates (pool.revalidate file attributes).1 file (·.refresh attributes) := by
  unfold revalidate
  split
  · rename_i hf
    exact updates_of_none hf _
  · rename_i cached hf
    have hrecorded := updates_modifyFile pool file fun cached =>
      { cached with attributes := some attributes }
    simp only
    split
    · rename_i hstale
      refine (hrecorded.trans (updates_dropPages ..)).congr fun found hfound => ?_
      cases hf.symm.trans hfound
      simp [FileCache.refresh, hstale]
    · rename_i hstale
      refine hrecorded.congr fun found hfound => ?_
      cases hf.symm.trans hfound
      simp [FileCache.refresh, hstale]

theorem attributes?_revalidate (pool : Pool τ) {file : FileId} {cached : FileCache}
    (hf : pool.files.find? file = some cached) (attributes : Attributes) :
    (pool.revalidate file attributes).1.attributes? file = some attributes := by
  have hfound := (updates_revalidate pool file attributes).find? file
  rw [if_pos rfl, hf, Option.map_some] at hfound
  rw [attributes?, hfound, Option.bind_some, FileCache.attributes_refresh]

theorem exists_loaded_of_contains {offset : Nat} (h : pool.contains file offset = true) :
    ∃ fetch data, pool.pageAt? file (pool.limits.pageOf offset) = some (.loaded fetch data) := by
  obtain ⟨cached, hf, hany⟩ := (Option.any_eq_true _ _).mp h
  obtain ⟨page, hpage, hloaded⟩ := (Option.any_eq_true _ _).mp hany
  cases page with
  | fetching fetch waiters => cases hloaded
  | loaded fetch data => exact ⟨fetch, data, by rw [pageAt?, hf, Option.bind_some, hpage]⟩

-- A page that is loaded has no waiters.
theorem mem_unwaited_of_loaded {cached : FileCache} (h : cached.pages.Ordered) {page : Nat}
    {fetch : FetchId} {data : Bytes}
    (hp : cached.pages.find? page = some (.loaded fetch data)) : page ∈ cached.unwaited := by
  refine List.mem_filter.mpr ⟨h.mem_keys.mpr ⟨_, hp⟩, ?_⟩
  simp [FileCache.isWaited, hp, Page.isWaited, Page.waiters]

theorem outcome?_of_fetches (hf : next.fetches = pool.fetches) :
    next.outcome? = pool.outcome? := by
  funext fetch
  rw [outcome?, outcome?, hf]

theorem fetches_dropPages (pool : Pool τ) (file : FileId) (pages : List Nat) (event : Event) :
    (pool.dropPages file pages event).fetches = pool.fetches := fetches_require ..

theorem fetches_load (pool : Pool τ) (file : FileId) (wait : Wait) (waiters : List ReadId)
    (data : Bytes) (attributes : Attributes) :
    (pool.load file wait waiters data attributes).fetches = pool.fetches := by
  unfold load
  simp only
  split
  · exact (trims_dropStale ..).fetches
  · rfl

end Pool

end PageCache
