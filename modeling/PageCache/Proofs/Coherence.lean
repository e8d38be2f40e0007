import PageCache.Proofs.Contract
import PageCache.Proofs.Updates

namespace PageCache

namespace FileCache

variable {cached other : FileCache} {outcomes : FetchId → Option Outcome}

-- Every page that is loaded came with the attributes on record.
def Coherent (cached : FileCache) (outcomes : FetchId → Option Outcome) : Prop :=
  ∀ page fetch data, cached.pages.find? page = some (.loaded fetch data) →
    ∃ attributes, cached.attributes = some attributes ∧
      outcomes fetch = some (.ok (data, attributes))

theorem Coherent.of_loaded (h : cached.Coherent outcomes)
    (ha : other.attributes = cached.attributes)
    (hp : ∀ page fetch data, other.pages.find? page = some (.loaded fetch data) →
      cached.pages.find? page = some (.loaded fetch data)) : other.Coherent outcomes := by
  intro page fetch data hloaded
  rw [ha]
  exact h page fetch data (hp page fetch data hloaded)

theorem Coherent.drop (h : cached.Coherent outcomes) (pages : List Nat) :
    (cached.drop pages).Coherent outcomes :=
  Coherent.of_loaded h rfl fun _ _ _ hp => (find?_drop_eq_some_iff.mp hp).2

-- A page that is loaded after a read has joined it was loaded before.
theorem loaded_of_wait {page name : Nat} {id : ReadId} {fetch : FetchId} {data : Bytes}
    (h : (cached.pages.modify page (Page.wait id)).find? name = some (.loaded fetch data)) :
    cached.pages.find? name = some (.loaded fetch data) := by
  rw [LruMap.find?_modify] at h
  split at h
  · obtain ⟨found, hfound, hw⟩ := Option.map_eq_some_iff.mp h
    cases found with
    | fetching => cases hw
    | loaded => rw [hfound, ← hw, Page.wait]
  · exact h

-- The pages that are dropped take all that is loaded with them.
theorem coherent_drop {pages : List Nat}
    (hp : ∀ page fetch data, cached.pages.find? page = some (.loaded fetch data) → page ∈ pages) :
    (cached.drop pages).Coherent outcomes := by
  intro page fetch data hloaded
  obtain ⟨hn, hold⟩ := find?_drop_eq_some_iff.mp hloaded
  exact absurd (hp page fetch data hold) hn

theorem coherent_forget (ho : cached.pages.Ordered) : cached.forget.Coherent outcomes :=
  coherent_drop fun _ _ _ => Pool.mem_unwaited_of_loaded ho

-- If the attributes on record are not these, there are none and no page is loaded.
theorem Coherent.attributes_eq (h : cached.Coherent outcomes) {attributes : Attributes}
    (hs : ¬ cached.isStale attributes = true) {page : Nat} {fetch : FetchId} {data : Bytes}
    (hp : cached.pages.find? page = some (.loaded fetch data)) :
    outcomes fetch = some (.ok (data, attributes)) := by
  obtain ⟨recorded, hr, ho⟩ := h page fetch data hp
  have he : recorded = attributes := by simpa [isStale, hr] using hs
  rw [ho, he]

theorem Coherent.refresh (h : cached.Coherent outcomes) (ho : cached.pages.Ordered)
    (attributes : Attributes) : (cached.refresh attributes).Coherent outcomes := by
  unfold FileCache.refresh
  split
  · exact coherent_drop fun _ _ _ => Pool.mem_unwaited_of_loaded ho
  · rename_i hs
    intro page fetch data hp
    exact ⟨attributes, rfl, h.attributes_eq hs hp⟩

-- The page that comes in has the attributes that it came with. Those of before are either
-- the same or they are stale, and then the pages that they belong to go.
theorem Coherent.load (h : cached.Coherent outcomes) (ho : cached.pages.Ordered) {page : Nat}
    {fetch : FetchId} {data : Bytes} {attributes : Attributes}
    (hf : outcomes fetch = some (.ok (data, attributes))) :
    (cached.load page fetch data attributes).Coherent outcomes := by
  let stored : FileCache :=
    { cached with
      pages := cached.pages.insert page (.loaded fetch data)
      attributes := some attributes }
  have hstored : ∀ name other bytes,
      stored.pages.find? name = some (.loaded other bytes) →
        name = page ∧ other = fetch ∧ bytes = data ∨
        name ≠ page ∧ cached.pages.find? name = some (.loaded other bytes) := by
    intro name other bytes hp
    simp only [stored, LruMap.find?_insert] at hp
    by_cases hn : name = page
    · simp only [hn, if_true, Option.some.injEq, Page.loaded.injEq] at hp
      exact .inl ⟨hn, hp.1.symm, hp.2.symm⟩
    · simp only [hn, if_false] at hp
      exact .inr ⟨hn, hp⟩
  unfold FileCache.load
  split
  · intro name other bytes hp
    obtain ⟨hkept, hp⟩ := find?_drop_eq_some_iff.mp hp
    rcases hstored name other bytes hp with ⟨_, rfl, rfl⟩ | ⟨hn, _⟩
    · exact ⟨attributes, rfl, hf⟩
    · have hunwaited : name ∈ stored.unwaited :=
        Pool.mem_unwaited_of_loaded (ho.insert page _) hp
      exact absurd (List.mem_filter.mpr ⟨hunwaited, by simpa using hn⟩) hkept
  · rename_i hs
    intro name other bytes hp
    rcases hstored name other bytes hp with ⟨_, rfl, rfl⟩ | ⟨_, hold⟩
    · exact ⟨attributes, rfl, hf⟩
    · exact ⟨attributes, rfl, h.attributes_eq hs hold⟩

end FileCache

namespace Pool

variable {τ : Type} {pool next : Pool τ} {file : FileId}

-- The pages of every file are of the version that is on record for it.
def Coherent (pool : Pool τ) : Prop :=
  ∀ file cached, pool.files.find? file = some cached → cached.Coherent pool.outcome?

-- So a page that is loaded came with the attributes on record for its file.
theorem Coherent.of_page (h : pool.Coherent) {page : Nat} {fetch : FetchId} {data : Bytes}
    (hp : pool.pageAt? file page = some (.loaded fetch data)) :
    ∃ attributes, pool.attributes? file = some attributes ∧
      pool.outcome? fetch = some (.ok (data, attributes)) := by
  obtain ⟨cached, hf, hfound⟩ := Option.bind_eq_some_iff.mp hp
  obtain ⟨attributes, ha, ho⟩ := h file cached hf page fetch data hfound
  exact ⟨attributes, by rw [attributes?, hf, Option.bind_some, ha], ho⟩

theorem Coherent.of_update (h : pool.Coherent) {change : FileCache → FileCache}
    (hu : pool.Updates next file change) (ho : next.outcome? = pool.outcome?)
    (hc : ∀ cached, pool.files.find? file = some cached → cached.Coherent pool.outcome? →
      (change cached).Coherent pool.outcome?) : next.Coherent := by
  intro other found hf
  rw [hu.find? other] at hf
  rw [ho]
  split at hf
  · rename_i he
    subst he
    obtain ⟨cached, hcached, rfl⟩ := Option.map_eq_some_iff.mp hf
    exact hc cached hcached (h other cached hcached)
  · exact h other found hf

-- A file may change in anything but its attributes and the pages that are loaded.
theorem Coherent.modifyFile (h : pool.Coherent) (file : FileId) {change : FileCache → FileCache}
    (ha : ∀ cached, (change cached).attributes = cached.attributes)
    (hp : ∀ cached page fetch data, (change cached).pages.find? page = some (.loaded fetch data) →
      cached.pages.find? page = some (.loaded fetch data)) :
    (pool.modifyFile file change).Coherent :=
  h.of_update (updates_modifyFile ..) rfl fun cached _ hcached =>
    hcached.of_loaded (ha cached) (hp cached)

theorem Coherent.enter (h : pool.Coherent) (file : FileId) : (pool.enter file).Coherent := by
  have houtcome := outcome?_of_fetches (enter_frame pool file).2.1
  intro other found hf
  rw [find?_enter] at hf
  rw [houtcome]
  split at hf
  · cases hf
    unfold resident
    cases hcached : pool.files.find? file with
    | none => exact fun _ _ _ hp => nomatch hp
    | some cached => exact (h file cached hcached).of_loaded rfl fun _ _ _ hp => hp
  · exact h other found hf

theorem Coherent.createPage (h : pool.Coherent) (file : FileId) (page : Nat) :
    (pool.createPage file page).Coherent := by
  refine h.of_update ⟨(updates_modifyFile _ file _).find?⟩ (outcome?_createPage ..)
    fun cached _ hcached => hcached.of_loaded rfl fun name fetch data hloaded => ?_
  simp only [LruMap.find?_insert] at hloaded
  split at hloaded
  · cases hloaded
  · exact hloaded

theorem Coherent.removeFile (h : pool.Coherent) {cached : FileCache}
    (hf : pool.files.find? file = some cached) : (pool.removeFile file).Coherent := by
  intro other found hfound
  rw [outcome?_of_fetches (removeFile_frame ..).2.1]
  rw [files_removeFile hf] at hfound
  exact h other found (LruMap.find?_of_erase hfound).2

theorem Coherent.dropPages (h : pool.Coherent) (file : FileId) (pages : List Nat)
    (event : Event) : (pool.dropPages file pages event).Coherent :=
  h.of_update (updates_dropPages ..) (outcome?_of_fetches (fetches_dropPages ..))
    fun _ _ hfile => hfile.drop _

theorem Move.coherent {op : Op} (h : Move op pool next) (ho : pool.Ordered)
    (hc : pool.Coherent) : next.Coherent := by
  cases h with
  | aside h =>
      intro file cached hf page fetch data hp
      rw [h.files] at hf
      obtain ⟨attributes, ha, houtcome⟩ := hc file cached hf page fetch data hp
      exact ⟨attributes, ha, h.outcomes _ _ houtcome⟩
  | enter => exact hc.enter _
  | create => exact hc.createPage _ _
  | wait file page id =>
      exact hc.modifyFile file (fun _ => rfl) fun _ _ _ _ hp => FileCache.loaded_of_wait hp
  | use file page =>
      exact hc.modifyFile file (fun _ => rfl) fun _ _ _ _ hp =>
        (LruMap.find?_touch ..).symm.trans hp
  | load hp houtcome =>
      obtain ⟨cached, hf, _⟩ := Option.bind_eq_some_iff.mp hp
      exact hc.of_update (updates_load hf ..) (outcome?_of_fetches (fetches_load ..))
        fun found hfound hfile => hfile.load (ho.pages _ found hfound) houtcome
  | fail => exact hc.dropPages _ _ _
  | evict => exact hc.dropPages _ _ _
  | remove hf => exact hc.removeFile hf
  | part file => exact hc.modifyFile file (fun _ => rfl) fun _ _ _ _ hp => hp
  | mark file => exact hc.modifyFile file (fun _ => rfl) fun _ _ _ _ hp => hp
  | invalidate =>
      exact hc.of_update (updates_invalidate ..) (trims_invalidate ..).outcome?_eq
        fun cached hf _ => FileCache.coherent_forget (ho.pages _ cached hf)
  | revalidate =>
      exact hc.of_update (updates_revalidate ..) (trims_revalidate ..).outcome?_eq
        fun cached hf hfile => hfile.refresh (ho.pages _ cached hf) _

end Pool

end PageCache
